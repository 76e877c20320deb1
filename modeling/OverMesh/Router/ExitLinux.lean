import OverMesh.Internal.Commands
import OverMesh.Internal.Runs
import OverMesh.Router.Basic

/-!
# Exit routing on Linux

`ExitClient` of `router_linux.go` sends the traffic of the machine into the tunnel. It puts a
default route into a routing table of its own, 52, and adds two policy rules that lead there, for
IPv4 and on request for IPv6, all by commands of `ip`. It remembers whether it has done so, and for
which interface.

The kernel is modelled by what the commands change: the default route of table 52 and the two rules,
for each family. A rule can be there once, the kernel answers `File exists` to a second addition.

## Main results

* `ExitSystem.tables_apply_never`, `ExitSystem.clean_remove_never` — the calls when nothing fails
* `ExitSystem.follows_iff` — **when the routing is what the last call asked for**
* `ExitSystem.clean_remove_iff` — what `Remove` cleans up
* `ExitSystem.apply_eq_none_iff` — when `Apply` succeeds
* `ExitSystem.undone_after_faults_iff` — **when failed commands leave nothing behind**
-/

namespace OverMesh

namespace Router.Linux

open Commands Runs

/-! ### The kernel -/

/-- The policy rules, by preference. -/
inductive Pref where
  /-- Looks up the main table, without its default route. -/
  | p5250
  /-- Looks up table 52. -/
  | p5270
  deriving DecidableEq, Repr

/-- What the kernel holds for one family: the interface of the default route of table 52, and which
rules are there. -/
@[ext] structure Tables where
  route : Option String
  rules : Pref → Bool

/-- Nothing there. -/
def Tables.empty : Tables := ⟨none, fun _ => false⟩

/-- The default route goes to the interface, and both rules lead there. -/
def Tables.installed (iface : String) : Tables := ⟨some iface, fun _ => true⟩

/-- The machine. -/
structure Host where
  tables : Family → Tables
  sysctls : Sysctls

/-- The commands of `ip`. -/
inductive IpCommand where
  | routeReplace (fam : Family) (iface : String)
  | ruleAdd (fam : Family) (pref : Pref)
  | ruleDel (fam : Family) (pref : Pref)
  | routeFlush (fam : Family)
  deriving DecidableEq

namespace IpCommand

/-- The arguments that choose the family. -/
def famArgs : Family → List String
  | .v4 => []
  | .v6 => ["-6"]

/-- The arguments that describe a rule, with `SocketMark` as the mark. -/
def ruleArgs : Pref → List String
  | .p5250 => ["pref", "5250", "not", "fwmark", "0x6f6d", "lookup", "main",
      "suppress_prefixlength", "0"]
  | .p5270 => ["pref", "5270", "not", "fwmark", "0x6f6d", "lookup", "52"]

/-- The arguments of a command. -/
def args : IpCommand → List String
  | .routeReplace fam iface =>
    famArgs fam ++ ["route", "replace", "default", "dev", iface, "table", "52"]
  | .ruleAdd fam pref => famArgs fam ++ ["rule", "add"] ++ ruleArgs pref
  | .ruleDel fam pref => famArgs fam ++ ["rule", "del"] ++ ruleArgs pref
  | .routeFlush fam => famArgs fam ++ ["route", "flush", "table", "52"]

/-- The text of the error of a failed command. `err` and `out` are what the system says. -/
def error (c : IpCommand) (err out : String) : String :=
  "ip " ++ " ".intercalate c.args ++ ": " ++ err ++ ": " ++ out

end IpCommand

namespace Host

/-- The machine with other tables for a family. -/
def set (h : Host) (fam : Family) (t : Tables) : Host :=
  { h with tables := Function.update h.tables fam t }

/-- What a command does. -/
def exec (h : Host) : IpCommand → Option Host
  | .routeReplace fam iface => some (h.set fam { h.tables fam with route := some iface })
  | .ruleAdd fam pref =>
    if (h.tables fam).rules pref then none
    else some (h.set fam
      { h.tables fam with rules := Function.update (h.tables fam).rules pref true })
  | .ruleDel fam pref =>
    if (h.tables fam).rules pref then
      some (h.set fam
        { h.tables fam with rules := Function.update (h.tables fam).rules pref false })
    else none
  | .routeFlush fam => some (h.set fam { h.tables fam with route := none })

/-- No route in table 52 and no rule. -/
def Clean (h : Host) : Prop := ∀ fam, h.tables fam = .empty

variable {fails : IpCommand → Bool} {h : Host} {fam fam' : Family} {pref : Pref} {iface : String}

@[simp] theorem tables_set (t : Tables) : (h.set fam t).tables = Function.update h.tables fam t :=
  rfl

/-- After a deletion the rule is there just when it was and the deletion fails. -/
theorem tables_ignore_ruleDel :
    (ignore exec fails h (.ruleDel fam pref)).tables = Function.update h.tables fam
      { h.tables fam with
        rules := Function.update (h.tables fam).rules pref
          ((h.tables fam).rules pref && fails (.ruleDel fam pref)) } := by
  rw [ignore]
  cases hfails : fails (.ruleDel fam pref) with
  | true =>
    rw [attempt_of_fails hfails, Bool.and_true, Function.update_eq_self, Function.update_eq_self]
    rfl
  | false =>
    rw [attempt_of_not_fails hfails, Bool.and_false, exec]
    split_ifs with hrule
    · rfl
    · rw [Bool.not_eq_true] at hrule
      rw [← hrule, Function.update_eq_self, Function.update_eq_self]
      rfl

/-- After an addition it is. -/
theorem tables_ignore_ruleAdd :
    (ignore exec never h (.ruleAdd fam pref)).tables = Function.update h.tables fam
      { h.tables fam with rules := Function.update (h.tables fam).rules pref true } := by
  rw [ignore, attempt_never, exec]
  split_ifs with hrule
  · rw [← hrule, Function.update_eq_self, Function.update_eq_self]
    rfl
  · rfl

theorem tables_ignore_routeFlush :
    (ignore exec fails h (.routeFlush fam)).tables = Function.update h.tables fam
      { h.tables fam with
        route := if fails (.routeFlush fam) then (h.tables fam).route else none } := by
  rw [ignore]
  cases hfails : fails (.routeFlush fam) with
  | true =>
    rw [attempt_of_fails hfails, if_pos rfl, Function.update_eq_self]
    rfl
  | false =>
    rw [attempt_of_not_fails hfails, if_neg Bool.false_ne_true]
    rfl

/-- Only a flush and a replacement of the route touch the route. -/
theorem route_exec_ruleAdd {h' : Host} (hexec : h.exec (.ruleAdd fam pref) = some h') :
    (h'.tables fam').route = (h.tables fam').route := by
  rw [exec] at hexec
  split_ifs at hexec
  obtain rfl := Option.some.inj hexec
  rw [tables_set]
  by_cases hfam : fam' = fam
  · subst hfam
    rw [Function.update_self]
  · rw [Function.update_of_ne hfam]

end Host

/-! ### The client -/

/-- `ExitClient`. -/
structure ExitClient where
  active : Bool
  iface : String
  oldRP : String

/-- The client and the machine. -/
structure ExitSystem where
  client : ExitClient
  host : Host

/-- The parameter of reverse-path filtering. -/
def rpPath (iface : String) : String := "/proc/sys/net/ipv4/conf/" ++ iface ++ "/rp_filter"

namespace ExitSystem

/-- `NewExitClient`, on a machine without exit routing. -/
def new (sysctls : Sysctls) : ExitSystem := ⟨⟨false, "", ""⟩, ⟨fun _ => .empty, sysctls⟩⟩

/-- The commands of `teardownLocked`. -/
def teardownCommands : List IpCommand :=
  [.ruleDel .v4 .p5270, .ruleDel .v4 .p5250, .routeFlush .v4,
    .ruleDel .v6 .p5270, .ruleDel .v6 .p5250, .routeFlush .v6]

/-- `teardownLocked`. -/
def teardownLocked (fails : IpCommand → Bool) (s : ExitSystem) : ExitSystem :=
  if s.client.active then
    let host := each Host.exec fails s.host teardownCommands
    ⟨{ s.client with active := false, iface := "" },
      { host with sysctls := restoreSysctl host.sysctls (rpPath s.client.iface) s.client.oldRP }⟩
  else s

/-- The commands of `Apply` that have to succeed. -/
def applyCommands (iface : String) : List IpCommand :=
  [.routeReplace .v4 iface, .ruleAdd .v4 .p5250, .ruleAdd .v4 .p5270]

/-- The commands of `Apply` for IPv6, which may fail. -/
def applyV6 (fails : IpCommand → Bool) (host : Host) (iface : String) : Host :=
  match attempt Host.exec fails host (.routeReplace .v6 iface) with
  | none => host
  | some host => each Host.exec fails host [.ruleAdd .v6 .p5250, .ruleAdd .v6 .p5270]

/-- The end of `Apply`. -/
def activate (host : Host) (iface : String) : ExitSystem :=
  ⟨{ active := true, iface := iface, oldRP := readSysctl host.sysctls (rpPath iface) },
    { host with sysctls := (writeSysctl host.sysctls (rpPath iface) "2").getD host.sysctls }⟩

/-- `Apply`, with the command that failed if one did. -/
def apply (fails : IpCommand → Bool) (s : ExitSystem) (iface : String) (v6 : Bool) :
    Option IpCommand × ExitSystem :=
  if s.client.active ∧ s.client.iface = iface then (none, s)
  else
    let s := s.teardownLocked fails
    let r := untilError Host.exec fails s.host (applyCommands iface)
    match r.1 with
    | some c => (some c, { s with host := r.2 })
    | none => (none, activate (if v6 then applyV6 fails r.2 iface else r.2) iface)

/-- `Remove`. -/
def remove (fails : IpCommand → Bool) (s : ExitSystem) : ExitSystem := s.teardownLocked fails

end ExitSystem

/-- The calls. -/
inductive ExitCall where
  | apply (iface : String) (v6 : Bool)
  | remove
  deriving DecidableEq

namespace ExitSystem

/-- What a call leaves behind. The commands of `Remove` succeed. -/
def step (fails : IpCommand → Bool) (s : ExitSystem) : ExitCall → ExitSystem
  | .apply iface v6 => (s.apply fails iface v6).2
  | .remove => s.remove never

/-! ### When nothing fails -/

/-- What the commands take down does not depend on each other. -/
theorem tables_teardownCommands (fails : IpCommand → Bool) (h : Host) (fam : Family) :
    (each Host.exec fails h teardownCommands).tables fam =
      ⟨if fails (.routeFlush fam) then (h.tables fam).route else none,
        fun pref => (h.tables fam).rules pref && fails (.ruleDel fam pref)⟩ := by
  simp only [teardownCommands, each_cons, each_nil, Host.tables_ignore_ruleDel,
    Host.tables_ignore_routeFlush]
  cases fam <;> (ext pref <;> [skip; cases pref]) <;> simp

/-- Taking everything down leaves nothing. -/
theorem clean_teardownCommands (h : Host) : (each Host.exec never h teardownCommands).Clean := by
  intro fam
  rw [tables_teardownCommands]
  ext pref <;> simp [Tables.empty, never]

theorem clean_teardownLocked {s : ExitSystem} (hactive : s.client.active = true) :
    (s.teardownLocked never).host.Clean := by
  rw [teardownLocked, if_pos hactive]
  exact clean_teardownCommands s.host

/-- The commands that have to succeed do, where nothing is there yet. -/
theorem untilError_applyCommands_never {h : Host} (hv4 : h.tables .v4 = .empty) (iface : String) :
    ∃ h', untilError Host.exec never h (applyCommands iface) = (none, h') ∧
      h'.tables = Function.update h.tables .v4 (.installed iface) := by
  have hfree : ∀ pref, (h.tables .v4).rules pref = false := by
    intro pref
    rw [hv4]
    rfl
  rw [applyCommands, untilError_cons_of_some (attempt_never.trans rfl),
    untilError_cons_of_some (attempt_never.trans (if_neg (by simp [hfree]))),
    untilError_cons_of_some (attempt_never.trans (if_neg (by simp [hfree]))), untilError_nil]
  refine ⟨_, rfl, ?_⟩
  ext fam pref
  · cases fam <;> simp [Tables.installed]
  · cases fam <;> cases pref <;> simp [Tables.installed]

theorem tables_applyV6_never (h : Host) (iface : String) :
    (applyV6 never h iface).tables = Function.update h.tables .v6 (.installed iface) := by
  rw [applyV6, attempt_never, Host.exec]
  simp only [each_cons, each_nil, Host.tables_ignore_ruleAdd, Host.tables_set]
  ext fam pref
  · cases fam <;> simp [Tables.installed]
  · cases fam <;> cases pref <;> simp [Tables.installed]

/-- **`Apply` when nothing fails**, and it is not the routing of that interface that is there. -/
theorem tables_apply_never {s : ExitSystem} {iface : String}
    (hclean : s.client.active = false → s.host.Clean)
    (hother : ¬(s.client.active = true ∧ s.client.iface = iface)) (v6 : Bool) :
    let s' := (s.apply never iface v6).2
    s'.client.active = true ∧ s'.client.iface = iface ∧
      s'.host.tables .v4 = .installed iface ∧
      s'.host.tables .v6 = if v6 then .installed iface else .empty := by
  have hdown : (s.teardownLocked never).host.Clean := by
    cases hactive : s.client.active with
    | true => exact clean_teardownLocked hactive
    | false =>
      rw [teardownLocked, hactive]
      exact hclean hactive
  obtain ⟨h', hrun, htables⟩ := untilError_applyCommands_never (hdown .v4) iface
  rw [apply, if_neg hother]
  simp only [hrun, activate]
  refine ⟨trivial, trivial, ?_, ?_⟩
  · cases v6 with
    | true => simp [tables_applyV6_never, htables]
    | false => simp [htables]
  · cases v6 with
    | true => simp [tables_applyV6_never]
    | false => simp [htables, hdown .v6]

theorem apply_of_same {s : ExitSystem} {iface : String} {v6 : Bool} {fails : IpCommand → Bool}
    (hsame : s.client.active = true ∧ s.client.iface = iface) :
    s.apply fails iface v6 = (none, s) := if_pos hsame

/-- The routing is what the call asked for. Without a call there is none. -/
def Follows (s : ExitSystem) : Option ExitCall → Prop
  | some (.apply iface v6) =>
    s.host.tables .v4 = .installed iface ∧
      s.host.tables .v6 = if v6 then .installed iface else .empty
  | some .remove | none => s.host.Clean

/-- Two calls in a row that ask for the routing of one interface agree about IPv6. -/
def Agree : ExitCall → ExitCall → Prop
  | .apply iface v6, .apply iface' v6' => iface = iface' → v6 = v6'
  | _, _ => True

/-- What the client remembers of the last call. -/
def Remembers (s : ExitSystem) : Option ExitCall → Prop
  | some (.apply iface _) => s.client.active = true ∧ s.client.iface = iface ∧
      s.host.tables .v4 = .installed iface
  | some .remove | none => s.client.active = false ∧ s.host.Clean

section Never

variable {s : ExitSystem} {p : Option ExitCall}

theorem Remembers.clean (h : s.Remembers p) (hactive : s.client.active = false) : s.host.Clean := by
  rcases p with _ | ⟨iface, v6⟩ | _
  · exact h.2
  · exact Bool.noConfusion (h.1.symm.trans hactive)
  · exact h.2

theorem clean_remove_never (h : s.Remembers p) :
    (s.remove never).client.active = false ∧ (s.remove never).host.Clean := by
  rw [remove]
  cases hactive : s.client.active with
  | true =>
    refine ⟨?_, clean_teardownLocked hactive⟩
    rw [teardownLocked, if_pos hactive]
  | false =>
    rw [teardownLocked, hactive]
    exact ⟨hactive, h.clean hactive⟩

/-- **One call.** -/
theorem Remembers.step (h : s.Remembers p) (o : ExitCall) :
    (s.step never o).Remembers (some o) := by
  cases o with
  | remove => exact clean_remove_never h
  | apply iface v6 =>
    by_cases hsame : s.client.active = true ∧ s.client.iface = iface
    · rw [ExitSystem.step, apply_of_same hsame]
      rcases p with _ | ⟨iface', v6'⟩ | _
      · exact absurd (h.1.symm.trans hsame.1) Bool.false_ne_true
      · obtain ⟨hactive, hiface, hv4⟩ := h
        obtain rfl := hiface.symm.trans hsame.2
        exact ⟨hactive, hiface, hv4⟩
      · exact absurd (h.1.symm.trans hsame.1) Bool.false_ne_true
    · obtain ⟨hactive, hiface, hv4, -⟩ := tables_apply_never h.clean hsame v6
      exact ⟨hactive, hiface, hv4⟩

theorem follows_step_iff (h : s.Remembers p) (hp : s.Follows p) (o : ExitCall) :
    (s.step never o).Follows (some o) ↔ ∀ q, p = some q → Agree q o := by
  cases o with
  | remove =>
    refine ⟨fun _ q _ => by cases q <;> trivial, fun _ => (clean_remove_never h).2⟩
  | apply iface v6 =>
    by_cases hsame : s.client.active = true ∧ s.client.iface = iface
    · rw [ExitSystem.step, apply_of_same hsame]
      rcases p with _ | ⟨iface', v6'⟩ | _
      · exact absurd (h.1.symm.trans hsame.1) Bool.false_ne_true
      · obtain ⟨hactive, hiface, hv4⟩ := h
        obtain rfl := hiface.symm.trans hsame.2
        constructor
        · rintro ⟨-, hv6⟩ q hq
          obtain rfl := Option.some.inj hq
          intro _
          have hboth := hp.2.symm.trans hv6
          cases v6 <;> cases v6' <;> simp_all [Tables.installed, Tables.empty]
        · intro hagree
          rw [hagree _ rfl rfl] at hp
          exact hp
      · exact absurd (h.1.symm.trans hsame.1) Bool.false_ne_true
    · obtain ⟨-, -, hv4, hv6⟩ := tables_apply_never h.clean hsame v6
      refine ⟨fun _ q hq => ?_, fun _ => ⟨hv4, hv6⟩⟩
      subst hq
      cases q with
      | remove => trivial
      | apply iface' v6' =>
        intro heq
        exact absurd ⟨h.1, h.2.1.trans heq⟩ hsame

/-- **When the routing is what the last call asked for**, if nothing fails: unless a call for the
interface that is active asks for something else about IPv6 than the call before it. -/
theorem follows_iff (sysctls : Sysctls) (ops : List ExitCall) :
    (∀ ops', ops' <+: ops →
      (run (step never) (new sysctls) ops').Follows ops'.getLast?) ↔ ops.IsChain Agree :=
  forall_prefix_iff_isChain (J := Remembers) ⟨rfl, fun _ => rfl⟩ (fun _ => rfl)
    (fun _ _ o h => h.step o) (fun _ _ o h hp => follows_step_iff h hp o) ops

/-- Routing without IPv6 stays without it when a second call asks for it. -/
theorem follows_ignores_v6 :
    let s := run (step never) (new fun _ => none) [.apply "om0" false, .apply "om0" true]
    s.host.tables .v4 = .installed "om0" ∧ s.host.tables .v6 = .empty := by
  refine ⟨?_, ?_⟩ <;> ext pref <;> [rfl; cases pref <;> rfl; rfl; cases pref <;> rfl]

end Never

/-! ### When commands fail -/

section Faults

variable {s : ExitSystem} {fails : IpCommand → Bool} {iface : String} {v6 : Bool}

/-- **What `Remove` cleans up**: everything if the client is active, nothing if it is not. -/
theorem clean_remove_iff : (s.remove never).host.Clean ↔ s.client.active = true ∨ s.host.Clean := by
  rw [remove]
  cases hactive : s.client.active with
  | true => exact ⟨fun _ => .inl rfl, fun _ => clean_teardownLocked hactive⟩
  | false =>
    rw [teardownLocked, hactive]
    exact ⟨.inr, fun h => h.resolve_left Bool.false_ne_true⟩

theorem active_teardownLocked : (s.teardownLocked fails).client.active = false := by
  rw [teardownLocked]
  split_ifs with hactive
  · rfl
  · exact Bool.eq_false_iff.mpr hactive

/-- Once the route is there, no failure of `Apply` takes it away. -/
theorem route_applyCommands {h : Host} (hroute : fails (.routeReplace .v4 iface) = false) :
    ((untilError Host.exec fails h (applyCommands iface)).2.tables .v4).route = some iface := by
  rw [applyCommands, untilError_cons_of_some ((attempt_of_not_fails hroute).trans rfl)]
  refine untilError_induction (P := fun h : Host => (h.tables .v4).route = some iface) ?_ ?_
  · rw [Host.tables_set, Function.update_self]
  · intro h h' c hc hh hexec
    simp only [List.mem_cons, List.not_mem_nil, or_false] at hc
    rcases hc with rfl | rfl <;> exact (Host.route_exec_ruleAdd hexec).trans hh

/-- The rule is there before `Apply` adds rules: it was there, and the teardown, if there is one,
fails to delete it. -/
def ruleStays (s : ExitSystem) (fails : IpCommand → Bool) (fam : Family) (pref : Pref) : Bool :=
  (s.host.tables fam).rules pref && (!s.client.active || fails (.ruleDel fam pref))

/-- Likewise for the route. -/
def routeStays (s : ExitSystem) (fails : IpCommand → Bool) (fam : Family) : Bool :=
  (s.host.tables fam).route.isSome && (!s.client.active || fails (.routeFlush fam))

/-- `Apply` has nothing to do, or its commands for IPv4 do not fail and find no rule there. -/
def Applies (s : ExitSystem) (fails : IpCommand → Bool) (iface : String) : Prop :=
  s.client.active = true ∧ s.client.iface = iface ∨
    fails (.routeReplace .v4 iface) = false ∧
      ∀ pref, fails (.ruleAdd .v4 pref) = false ∧ s.ruleStays fails .v4 pref = false

/-- The call leaves nothing that a `Remove` would miss: it succeeds, or its first command fails and
no command of the teardown before it has failed on something that was there. -/
def Recoverable (s : ExitSystem) (fails : IpCommand → Bool) : ExitCall → Prop
  | .apply iface _ => s.Applies fails iface ∨
      fails (.routeReplace .v4 iface) = true ∧
        ∀ fam, s.routeStays fails fam = false ∧ ∀ pref, s.ruleStays fails fam pref = false
  | .remove => True

theorem rules_teardownLocked (fam : Family) (pref : Pref) :
    ((s.teardownLocked fails).host.tables fam).rules pref = s.ruleStays fails fam pref := by
  rw [teardownLocked, ruleStays]
  cases hactive : s.client.active with
  | true => simp [tables_teardownCommands]
  | false => simp

theorem route_teardownLocked (fam : Family) :
    ((s.teardownLocked fails).host.tables fam).route.isSome = s.routeStays fails fam := by
  rw [teardownLocked, routeStays]
  cases hactive : s.client.active with
  | true => cases hfails : fails (.routeFlush fam) <;> simp [tables_teardownCommands, hfails]
  | false => simp

/-- The teardown leaves nothing just when none of its commands fails on something. -/
theorem clean_teardownLocked_iff : (s.teardownLocked fails).host.Clean ↔
    ∀ fam, s.routeStays fails fam = false ∧ ∀ pref, s.ruleStays fails fam pref = false := by
  refine forall_congr' fun fam => ?_
  simp only [← rules_teardownLocked, ← route_teardownLocked, Tables.ext_iff, Tables.empty,
    funext_iff, Option.isSome_eq_false_iff, Option.isNone_iff_eq_none]

/-- The commands of `Apply` that have to succeed do so just when none fails and no rule is there. -/
theorem untilError_applyCommands_iff {h : Host} :
    (untilError Host.exec fails h (applyCommands iface)).1 = none ↔
      fails (.routeReplace .v4 iface) = false ∧
        ∀ pref, fails (.ruleAdd .v4 pref) = false ∧ (h.tables .v4).rules pref = false := by
  have hprefs {P : Pref → Prop} : (∀ pref, P pref) ↔ P .p5250 ∧ P .p5270 :=
    ⟨fun h => ⟨h _, h _⟩, fun h pref => by cases pref <;> [exact h.1; exact h.2]⟩
  simp only [hprefs, applyCommands, untilError, attempt]
  cases fails (.routeReplace .v4 iface) <;> cases fails (.ruleAdd .v4 .p5250) <;>
    cases fails (.ruleAdd .v4 .p5270) <;> cases h50 : (h.tables .v4).rules .p5250 <;>
      cases h70 : (h.tables .v4).rules .p5270 <;> simp [Host.exec, h50, h70]

/-- A call that fails leaves the client inactive, with what its commands have done. -/
theorem apply_of_error {c : IpCommand} {h : Host}
    (hother : ¬(s.client.active = true ∧ s.client.iface = iface))
    (hrun : untilError Host.exec fails (s.teardownLocked fails).host (applyCommands iface) =
      (some c, h)) :
    s.apply fails iface v6 = (some c, { s.teardownLocked fails with host := h }) := by
  rw [apply, if_neg hother]
  simp only [hrun]

theorem apply_of_success {h : Host} (hother : ¬(s.client.active = true ∧ s.client.iface = iface))
    (hrun : untilError Host.exec fails (s.teardownLocked fails).host (applyCommands iface) =
      (none, h)) :
    s.apply fails iface v6 =
      (none, activate (if v6 = true then applyV6 fails h iface else h) iface) := by
  rw [apply, if_neg hother]
  simp only [hrun]

/-- An `Apply` that returns an error leaves the client inactive. -/
theorem active_apply_of_error (h : (s.apply fails iface v6).1.isNone = false) :
    (s.apply fails iface v6).2.client.active = false := by
  by_cases hsame : s.client.active = true ∧ s.client.iface = iface
  · rw [apply_of_same hsame] at h
    cases h
  rcases hrun : untilError Host.exec fails (s.teardownLocked fails).host (applyCommands iface) with
    ⟨_ | c, host⟩
  · rw [apply_of_success hsame hrun] at h
    cases h
  · rw [apply_of_error hsame hrun]
    exact active_teardownLocked

/-- **When `Apply` succeeds.** -/
theorem apply_eq_none_iff (v6 : Bool) :
    (s.apply fails iface v6).1 = none ↔ s.Applies fails iface := by
  by_cases hsame : s.client.active = true ∧ s.client.iface = iface
  · rw [apply_of_same hsame]
    exact ⟨fun _ => .inl hsame, fun _ => rfl⟩
  have hrules : (untilError Host.exec fails (s.teardownLocked fails).host (applyCommands iface)).1 =
      none ↔ s.Applies fails iface := by
    rw [untilError_applyCommands_iff, Applies, or_iff_right hsame]
    simp only [rules_teardownLocked]
  rw [← hrules]
  rcases hrun : untilError Host.exec fails (s.teardownLocked fails).host (applyCommands iface) with
    ⟨_ | c, h⟩
  · rw [apply_of_success hsame hrun]
  · rw [apply_of_error hsame hrun]

/-- **One call**: the exact condition. -/
theorem clean_apply_iff : ((s.apply fails iface v6).2.remove never).host.Clean ↔
      s.Recoverable fails (.apply iface v6) := by
  rw [Recoverable, clean_remove_iff, ← apply_eq_none_iff v6, ← clean_teardownLocked_iff]
  by_cases hother : s.client.active = true ∧ s.client.iface = iface
  · rw [apply_of_same hother]
    exact ⟨fun _ => .inl rfl, fun _ => .inl hother.1⟩
  rcases hrun : untilError Host.exec fails (s.teardownLocked fails).host (applyCommands iface) with
    ⟨_ | c, h⟩
  · rw [apply_of_success hother hrun]
    exact ⟨fun _ => .inl rfl, fun _ => .inl rfl⟩
  · rw [apply_of_error hother hrun]
    simp only [active_teardownLocked, Bool.false_eq_true, false_or, Option.some_ne_none]
    cases hfails : fails (.routeReplace .v4 iface) with
    | true =>
      rw [applyCommands, untilError_cons_of_none (attempt_of_fails hfails)] at hrun
      obtain ⟨-, rfl⟩ := Prod.mk.inj hrun
      exact ⟨fun hc => ⟨rfl, hc⟩, And.right⟩
    | false =>
      have hroute := route_applyCommands (h := (s.teardownLocked fails).host) hfails
      rw [hrun] at hroute
      refine ⟨fun hc => ?_, fun hc => absurd hc.1 Bool.false_ne_true⟩
      rw [hc .v4] at hroute
      exact absurd hroute (Option.some_ne_none iface).symm

/-- **When failed commands leave nothing behind**: a `Remove` restores the machine at every point of
a run, just when in each `Apply` with something to do either no command for IPv4 fails and no rule
is there when it is added, or the first command fails and none of the teardown before it has failed
on a route or a rule that was there. -/
theorem undone_after_faults_iff (sysctls : Sysctls) (ops : List ((IpCommand → Bool) × ExitCall)) :
    (∀ ops', ops' <+: ops →
      ((run (fun s o => s.step o.1 o.2) (new sysctls) ops').remove never).host.Clean) ↔
    Along (fun s o => s.step o.1 o.2) (fun s o => s.Recoverable o.1 o.2) (new sysctls)
      ops := by
  refine forall_prefix_iff_along (J := fun _ => True)
    (P := fun s : ExitSystem => (s.remove never).host.Clean) trivial ?_ (fun _ _ _ => trivial) ?_
    ops
  · exact clean_remove_iff.mpr (.inr fun _ => rfl)
  · rintro s ⟨fails, ⟨iface, v6⟩ | _⟩ - hclean
    · exact clean_apply_iff
    · exact ⟨fun _ => trivial, fun _ => clean_remove_iff.mpr (.inr hclean)⟩

/-- The first rule cannot be added. The route in table 52 stays when the client is removed. -/
theorem left_after_fault :
    let fails : IpCommand → Bool := fun c => c = .ruleAdd .v4 .p5250
    let s := run (fun s o => s.step o.1 o.2) (new fun _ => none) [(fails, .apply "om0" true)]
    ((s.remove never).host.tables .v4).route = some "om0" := by
  decide +kernel

end Faults

end ExitSystem

end Router.Linux

end OverMesh
