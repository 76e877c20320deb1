import OverMesh.Internal.Commands
import OverMesh.Internal.Runs
import OverMesh.Router.Basic

/-!
# The advertising side

`Advertiser` of `router_linux.go` makes the machine a router for the mesh: it turns forwarding on,
with the value before kept for later, and adds rules of `iptables`, for IPv4 and IPv6 by what the
routes ask for. `Close` and a change of the interface take it back. A family whose rules cannot be
added is not marked as on, though its parameter is.

The two families go through the same code but for what an error does: in IPv4 it ends the call, in
IPv6 it is logged. They are one definition here, `part`, and `apply` says what becomes of its error.

## Main results

* `AdvSystem.restores_part_iff`, `AdvSystem.restores_teardownLocked` — what becomes of a saved value
* `AdvSystem.isSome_part_iff_blocked` — which failing invocations make a part fail
* `AdvSystem.sysctls_close_iff` — what `Close` restores
* `AdvSystem.restored_iff` — **when forwarding is restored**
-/

namespace OverMesh

open Netip Runs

namespace Router.Linux

open Commands

/-! ### The rules -/

/-- The rules of `rules`, by table and chain. -/
inductive IptRule where
  /-- Marks what comes in through the interface, in `mangle PREROUTING`. -/
  | mark (iface : String)
  /-- Masquerades what is marked, in `nat POSTROUTING`. -/
  | masquerade
  /-- Accepts what comes in through the interface, in `filter FORWARD`. -/
  | forwardIn (iface : String)
  /-- Accepts what goes out through it, in `filter FORWARD`. -/
  | forwardOut (iface : String)
  deriving DecidableEq

namespace IptRule

/-- The table, the chain, and the rest of the arguments, with `FwdMark` as the mark. -/
def spec : IptRule → String × String × List String
  | .mark iface => ("mangle", "PREROUTING", ["-i", iface, "-j", "MARK", "--set-xmark", "0x6f6e"])
  | .masquerade =>
    ("nat", "POSTROUTING", ["-m", "mark", "--mark", "0x6f6e", "-j", "MASQUERADE"])
  | .forwardIn iface => ("filter", "FORWARD", ["-i", iface, "-j", "ACCEPT"])
  | .forwardOut iface => ("filter", "FORWARD", ["-o", iface, "-j", "ACCEPT"])

/-- The rules of an interface, in order. -/
def all (iface : String) : List IptRule :=
  [.mark iface, .masquerade, .forwardIn iface, .forwardOut iface]

end IptRule

/-- The rules that are there. -/
abbrev Netfilter := Family → List IptRule

/-- The commands of `iptables` and `ip6tables`. -/
inductive IptCommand where
  | check (fam : Family) (rule : IptRule)
  | append (fam : Family) (rule : IptRule)
  | delete (fam : Family) (rule : IptRule)
  deriving DecidableEq

namespace IptCommand

/-- The program of a family. -/
def ipt : Family → String
  | .v4 => "iptables"
  | .v6 => "ip6tables"

/-- The arguments of a command. -/
def args : IptCommand → List String
  | .check _ r => ["-t", r.spec.1, "-C", r.spec.2.1] ++ r.spec.2.2
  | .append _ r => ["-t", r.spec.1, "-A", r.spec.2.1] ++ r.spec.2.2
  | .delete _ r => ["-t", r.spec.1, "-D", r.spec.2.1] ++ r.spec.2.2

end IptCommand

namespace Netfilter

/-- What a command does. A deletion takes the first rule that matches. -/
def exec (nf : Netfilter) : IptCommand → Option Netfilter
  | .check fam r => if r ∈ nf fam then some nf else none
  | .append fam r => some (Function.update nf fam (nf fam ++ [r]))
  | .delete fam r =>
    if r ∈ nf fam then some (Function.update nf fam ((nf fam).erase r)) else none

/-- `rules` with `add`: up to the first rule that cannot be added. -/
def addRules (fails : IptCommand → Bool) (fam : Family) :
    Netfilter → List IptRule → Option IptCommand × Netfilter
  | nf, [] => (none, nf)
  | nf, r :: rs =>
    match attempt exec fails nf (.check fam r) with
    | some _ => addRules fails fam nf rs
    | none =>
      match attempt exec fails nf (.append fam r) with
      | none => (some (.append fam r), nf)
      | some nf' => addRules fails fam nf' rs

/-- `rules` without `add`. -/
def delRules (fails : IptCommand → Bool) (fam : Family) : Netfilter → List IptRule → Netfilter
  | nf, [] => nf
  | nf, r :: rs =>
    match attempt exec fails nf (.check fam r) with
    | some _ => delRules fails fam (ignore exec fails nf (.delete fam r)) rs
    | none => delRules fails fam nf rs

end Netfilter

/-! ### What becomes of the rules -/

namespace Netfilter

variable {nf : Netfilter} {fails : IptCommand → Bool} {fam fam' : Family} {r : IptRule}
  {rs : List IptRule}

theorem delRules_cons : nf.delRules fails fam (r :: rs) =
    (nf.delRules fails fam [r]).delRules fails fam rs := by
  rw [delRules, delRules]
  cases attempt exec fails nf (.check fam r) <;> rfl

theorem delRules_singleton : nf.delRules fails fam [r] =
    if r ∈ nf fam ∧ fails (.check fam r) = false ∧ fails (.delete fam r) = false then
      Function.update nf fam ((nf fam).erase r) else nf := by
  rw [delRules]
  by_cases hmem : r ∈ nf fam <;> cases hcheck : fails (.check fam r) <;>
    cases hdelete : fails (.delete fam r) <;>
      simp [delRules, ignore, attempt, exec, hmem, hcheck, hdelete]

theorem delRules_of_ne (h : fam' ≠ fam) : nf.delRules fails fam rs fam' = nf fam' := by
  induction rs generalizing nf with
  | nil => rfl
  | cons r rs ih =>
    rw [delRules_cons, ih, delRules_singleton]
    split_ifs
    · exact Function.update_of_ne h _ _
    · rfl

/-- A rule is deleted once, if it can be. -/
theorem count_delRules (hrs : rs.Nodup) : (nf.delRules fails fam rs fam).count r =
    (nf fam).count r -
      if r ∈ rs ∧ fails (.check fam r) = false ∧ fails (.delete fam r) = false then 1 else 0 := by
  induction rs generalizing nf with
  | nil => simp [delRules]
  | cons r₀ rs ih =>
    obtain ⟨hr₀, hrs⟩ := List.nodup_cons.mp hrs
    rw [delRules_cons, ih hrs, delRules_singleton]
    by_cases hr : r = r₀
    · subst hr
      by_cases hmem : r ∈ nf fam
      · split_ifs <;> simp_all
      · have hcount : (nf fam).count r = 0 := List.count_eq_zero.mpr hmem
        rw [if_neg fun h => hmem h.1, hcount, Nat.zero_sub, Nat.zero_sub]
    · have hcount : ((if r₀ ∈ nf fam ∧ fails (.check fam r₀) = false ∧
          fails (.delete fam r₀) = false then Function.update nf fam ((nf fam).erase r₀)
          else nf) fam).count r = (nf fam).count r := by
        split_ifs
        · rw [Function.update_self, List.count_erase_of_ne hr]
        · rfl
      rw [hcount]
      simp only [List.mem_cons, hr, false_or]

theorem addRules_of_ne (h : fam' ≠ fam) : (nf.addRules fails fam rs).2 fam' = nf fam' := by
  induction rs generalizing nf with
  | nil => rfl
  | cons r rs ih =>
    rw [addRules]
    split
    · exact ih
    · split
      · rfl
      · next nf' happend =>
        rw [attempt] at happend
        split_ifs at happend
        obtain rfl := Option.some.inj happend
        exact ih.trans (Function.update_of_ne h _ _)

/-- Adding stops just when a rule cannot be appended that is not found to be there. -/
theorem addRules_isSome_iff (hrs : rs.Nodup) : (nf.addRules fails fam rs).1.isSome = true ↔
    ∃ r ∈ rs, fails (.append fam r) = true ∧ (r ∈ nf fam → fails (.check fam r) = true) := by
  induction rs generalizing nf with
  | nil => simp [addRules]
  | cons r rs ih =>
    obtain ⟨hr, hrs⟩ := List.nodup_cons.mp hrs
    rw [List.exists_mem_cons_iff]
    by_cases hfound : r ∈ nf fam ∧ fails (.check fam r) = false
    · have hcheck : attempt exec fails nf (.check fam r) = some nf := by
        rw [attempt_of_not_fails hfound.2, exec, if_pos hfound.1]
      rw [addRules, hcheck]
      refine (ih hrs).trans (or_iff_right ?_).symm
      rintro ⟨-, hr⟩
      exact Bool.noConfusion (hfound.2.symm.trans (hr hfound.1))
    · have hcheck : attempt exec fails nf (.check fam r) = none := by
        rw [attempt, exec]
        grind
      rw [addRules, hcheck]
      cases happend : fails (.append fam r) with
      | true =>
        simp only [attempt_of_fails happend, Option.isSome_some, true_and, true_iff]
        exact .inl fun hmem => Bool.eq_true_of_not_eq_false fun h => hfound ⟨hmem, h⟩
      | false =>
        simp only [attempt_of_not_fails happend, exec, Bool.false_eq_true, false_and, false_or]
        rw [ih hrs]
        refine exists_congr fun r' => and_congr_right fun hr' => ?_
        -- the rule that was appended is none of those that follow
        have hne : r' ≠ r := fun heq => hr (heq ▸ hr')
        rw [Function.update_self, List.mem_append, List.mem_singleton, or_iff_left hne]

end Netfilter

theorem IptRule.nodup_all (iface : String) : (IptRule.all iface).Nodup := by
  simp [IptRule.all]

/-! ### The advertiser -/

/-- The forwarding parameter of a family. -/
def fwdPath : Family → String
  | .v4 => "/proc/sys/net/ipv4/ip_forward"
  | .v6 => "/proc/sys/net/ipv6/conf/all/forwarding"

/-- `Advertiser`. `programmed` are the fields `v4` and `v6`, `oldFwd` the fields `oldFwd4` and
`oldFwd6`. -/
structure Advertiser where
  iface : String
  programmed : Family → Bool
  oldFwd : Family → String

/-- The advertiser and the machine. -/
structure AdvSystem where
  adv : Advertiser
  netfilter : Netfilter
  sysctls : Sysctls

/-- Why a part of `Apply` fails. -/
inductive AdvError where
  | sysctl (path : String)
  | ipt (c : IptCommand)

/-- The invocations of one call that fail: those that take down, and the others. -/
abbrev Faults := (down : Bool) → IptCommand → Bool

namespace AdvSystem

/-- `NewAdvertiser`. -/
def new (netfilter : Netfilter) (sysctls : Sysctls) : AdvSystem :=
  ⟨⟨"", fun _ => false, fun _ => ""⟩, netfilter, sysctls⟩

/-- Forwarding is turned off for a family: the rules go, and the parameter is what it was. -/
def turnOff (fails : IptCommand → Bool) (iface : String) (s : AdvSystem) (fam : Family) :
    AdvSystem where
  adv := { s.adv with programmed := Function.update s.adv.programmed fam false }
  netfilter := s.netfilter.delRules fails fam (IptRule.all iface)
  sysctls := restoreSysctl s.sysctls (fwdPath fam) (s.adv.oldFwd fam)

/-- Forwarding is turned on for a family. -/
def turnOn (fails : IptCommand → Bool) (iface : String) (s : AdvSystem) (fam : Family) :
    Option AdvError × AdvSystem :=
  let adv : Advertiser :=
    { s.adv with oldFwd := Function.update s.adv.oldFwd fam (readSysctl s.sysctls (fwdPath fam)) }
  match writeSysctl s.sysctls (fwdPath fam) "1" with
  | none => (some (.sysctl (fwdPath fam)), { s with adv := adv })
  | some sysctls =>
    match s.netfilter.addRules fails fam (IptRule.all iface) with
    | (some c, nf) => (some (.ipt c), ⟨adv, nf, sysctls⟩)
    | (none, nf) =>
      (none, ⟨{ adv with programmed := Function.update s.adv.programmed fam true }, nf, sysctls⟩)

/-- The part of `Apply` for a family. -/
def part (fails : IptCommand → Bool) (iface : String) (s : AdvSystem) (fam : Family)
    (want : Bool) : Option AdvError × AdvSystem :=
  if want && !s.adv.programmed fam then s.turnOn fails iface fam
  else if !want && s.adv.programmed fam then (none, s.turnOff fails iface fam)
  else (none, s)

/-- One round of `teardownLocked`. -/
def teardownRound (fails : IptCommand → Bool) (s : AdvSystem) (fam : Family) : AdvSystem :=
  if s.adv.programmed fam then s.turnOff fails s.adv.iface fam else s

/-- `teardownLocked`. -/
def teardownLocked (fails : IptCommand → Bool) (s : AdvSystem) : AdvSystem :=
  (s.teardownRound fails .v4).teardownRound fails .v6

/-- The first lines of `Apply`: the rules of another interface are dropped. -/
def moveTo (fails : IptCommand → Bool) (s : AdvSystem) (iface : String) : AdvSystem :=
  let s := if s.adv.iface ≠ "" ∧ s.adv.iface ≠ iface then s.teardownLocked fails else s
  { s with adv := { s.adv with iface := iface } }

/-- `Apply`. -/
def apply (fails : Faults) (s : AdvSystem) (iface : String) (routes : List Prefix) :
    Option AdvError × AdvSystem :=
  let r := (s.moveTo (fails true) iface).part (fails false) iface .v4 (hasV4 routes)
  match r.1 with
  | some e => (some e, r.2)
  | none => (none, (r.2.part (fails false) iface .v6 (hasV6 routes)).2)

/-- `Close`. -/
def close (fails : IptCommand → Bool) (s : AdvSystem) : AdvSystem := s.teardownLocked fails

end AdvSystem

/-- A call of `Apply`, with the invocations that fail. -/
structure AdvCall where
  iface : String
  routes : List Prefix
  fails : Faults

/-- The routes ask for the family. -/
def AdvCall.wants (o : AdvCall) : Family → Bool
  | .v4 => hasV4 o.routes
  | .v6 => hasV6 o.routes

namespace AdvSystem

/-- What a call leaves behind. -/
def step (s : AdvSystem) (o : AdvCall) : AdvSystem := (s.apply o.fails o.iface o.routes).2

end AdvSystem

/-! ### One family -/

/-- What the advertiser and the machine hold of a family. -/
structure Stack where
  programmed : Bool
  oldFwd : String
  value : Option String

namespace Stack

/-- The family after it was turned off. -/
def off (t : Stack) : Stack :=
  { t with
    programmed := false
    value := if t.oldFwd ≠ "" then t.value.map fun _ => t.oldFwd else t.value }

/-- The parameter can be read, and what is kept of it was read. -/
structure Readable (t : Stack) : Prop where
  value : ∃ v, t.value = some v ∧ v ≠ ""
  oldFwd : t.programmed = true → t.oldFwd ≠ ""

/-- Turning the family off, if it is on, gives the parameter the value `x`. -/
def Restores (x : String) (t : Stack) : Prop :=
  if t.programmed = true then t.oldFwd = x else t.value = some x

variable {t : Stack} {x : String}

theorem Readable.off (h : t.Readable) (hon : t.programmed = true) : t.off.Readable := by
  obtain ⟨v, hv, -⟩ := h.value
  refine ⟨⟨t.oldFwd, ?_, h.oldFwd hon⟩, fun h' => Bool.noConfusion h'⟩
  rw [Stack.off, if_pos (h.oldFwd hon), hv]
  rfl

theorem restores_off_iff (h : t.Readable) (hon : t.programmed = true) :
    t.off.Restores x ↔ t.Restores x := by
  obtain ⟨v, hv, -⟩ := h.value
  rw [Restores, Restores, if_pos hon, Stack.off, if_pos (h.oldFwd hon), hv]
  simp

end Stack

namespace AdvSystem

variable {s : AdvSystem} {fam fam' : Family} {fails : IptCommand → Bool} {iface x : String}

/-- The state of a family. -/
def stack (s : AdvSystem) (fam : Family) : Stack :=
  ⟨s.adv.programmed fam, s.adv.oldFwd fam, s.sysctls (fwdPath fam)⟩

theorem fwdPath_ne (h : fam' ≠ fam) : fwdPath fam' ≠ fwdPath fam := by
  cases fam <;> cases fam' <;> first | exact absurd rfl h | decide

theorem restoreSysctl_self (fs : Sysctls) (path old : String) :
    restoreSysctl fs path old path = if old ≠ "" then (fs path).map fun _ => old else fs path := by
  rw [restoreSysctl]
  split_ifs
  · rw [writeSysctl]
    cases h : fs path with
    | none => simp [h]
    | some v => simp
  · rfl

theorem restoreSysctl_of_ne (fs : Sysctls) {path path' : String} (old : String) (h : path' ≠ path) :
    restoreSysctl fs path old path' = fs path' := by
  rw [restoreSysctl]
  split_ifs
  · rw [writeSysctl]
    cases fs path with
    | none => rfl
    | some v => exact Function.update_of_ne h _ _
  · rfl

theorem stack_turnOff_self : (s.turnOff fails iface fam).stack fam = (s.stack fam).off := by
  simp only [stack, turnOff, restoreSysctl_self, Function.update_self]
  rfl

theorem stack_turnOff_of_ne (h : fam' ≠ fam) :
    (s.turnOff fails iface fam).stack fam' = s.stack fam' := by
  simp [stack, turnOff, restoreSysctl_of_ne _ _ (fwdPath_ne h), h]

theorem stack_turnOn_self {v : String} (hv : s.sysctls (fwdPath fam) = some v)
    (hoff : s.adv.programmed fam = false) : (s.turnOn fails iface fam).2.stack fam =
      ⟨(s.turnOn fails iface fam).1.isNone, v, some "1"⟩ := by
  rw [turnOn, writeSysctl, readSysctl, hv]
  dsimp only [Option.map_some]
  rcases s.netfilter.addRules fails fam (IptRule.all iface) with ⟨_ | c, nf⟩
  · simp [stack]
  · simp [stack, hoff]

theorem stack_turnOn_of_ne (h : fam' ≠ fam) :
    (s.turnOn fails iface fam).2.stack fam' = s.stack fam' := by
  rw [turnOn]
  dsimp only
  cases hw : writeSysctl s.sysctls (fwdPath fam) "1" with
  | none => simp [stack, h]
  | some fs =>
    obtain ⟨-, -, rfl⟩ := Option.map_eq_some_iff.mp hw
    rcases s.netfilter.addRules fails fam (IptRule.all iface) with ⟨_ | c, nf⟩ <;>
      simp [stack, h, fwdPath_ne h]

/-! ### The parts of the calls -/

/-- Every family can be read. -/
def Readable (s : AdvSystem) : Prop := ∀ fam, (s.stack fam).Readable

theorem Readable.turnOff (h : s.Readable) (hon : s.adv.programmed fam = true) :
    (s.turnOff fails iface fam).Readable := by
  intro fam'
  by_cases hfam : fam' = fam
  · subst hfam
    rw [stack_turnOff_self]
    exact (h fam').off hon
  · rw [stack_turnOff_of_ne hfam]
    exact h fam'

theorem Readable.turnOn (h : s.Readable) (hoff : s.adv.programmed fam = false) :
    (s.turnOn fails iface fam).2.Readable := by
  intro fam'
  by_cases hfam : fam' = fam
  · subst hfam
    obtain ⟨v, hv, hne⟩ := (h fam').value
    rw [stack_turnOn_self hv hoff]
    exact ⟨⟨"1", rfl, by decide⟩, fun _ => hne⟩
  · rw [stack_turnOn_of_ne hfam]
    exact h fam'

theorem Readable.part (h : s.Readable) (fails : IptCommand → Bool) (iface : String) (fam : Family)
    (want : Bool) : (s.part fails iface fam want).2.Readable := by
  rw [AdvSystem.part]
  cases hon : s.adv.programmed fam <;> cases want
  · exact h
  · exact h.turnOn hon
  · exact h.turnOff hon
  · exact h

theorem stack_part_of_ne (hne : fam' ≠ fam) (want : Bool) :
    (s.part fails iface fam want).2.stack fam' = s.stack fam' := by
  rw [part]
  cases s.adv.programmed fam <;> cases want
  · rfl
  · exact stack_turnOn_of_ne hne
  · exact stack_turnOff_of_ne hne
  · rfl

/-- **One part**: a family is left as it was found or as it was before it was turned on, unless it
was turned on and its rules failed. Its parameter is then `1`. -/
theorem restores_part_iff (h : s.Readable) (hx : (s.stack fam).Restores x)
    (fails : IptCommand → Bool) (iface : String) (want : Bool) :
    ((s.part fails iface fam want).2.stack fam).Restores x ↔
      ((s.part fails iface fam want).1.isSome = true → s.sysctls (fwdPath fam) = some "1") := by
  rw [part]
  cases hon : s.adv.programmed fam <;> cases want
  · exact ⟨fun _ h => Bool.noConfusion h, fun _ => hx⟩
  · obtain ⟨v, hv, -⟩ := (h fam).value
    have hvx : some v = some x := by
      rw [Stack.Restores, stack, hon] at hx
      exact hv.symm.trans hx
    obtain rfl := Option.some.inj hvx
    have hvalue : s.sysctls (fwdPath fam) = some v := hv
    simp only [Bool.true_and, Bool.not_false, if_true]
    rw [stack_turnOn_self hvalue hon, hvalue, Stack.Restores]
    cases (s.turnOn fails iface fam).1 with
    | none => simp
    | some e =>
      simp only [Option.isNone_some, Bool.false_eq_true, if_false, Option.isSome_some, true_imp_iff]
      exact eq_comm
  · simp only [Bool.not_true, Bool.and_self, Bool.false_eq_true, if_false, Bool.not_false, if_true,
      Option.isSome_none, false_imp_iff, iff_true]
    rw [stack_turnOff_self]
    exact (Stack.restores_off_iff (h fam) hon).mpr hx
  · exact ⟨fun _ h => Bool.noConfusion h, fun _ => hx⟩

theorem Readable.teardownRound (h : s.Readable) : (s.teardownRound fails fam).Readable := by
  rw [AdvSystem.teardownRound]
  split_ifs with hon
  · exact h.turnOff hon
  · exact h

theorem restores_teardownRound_iff (h : s.Readable) (fam' : Family) :
    ((s.teardownRound fails fam).stack fam').Restores x ↔ (s.stack fam').Restores x := by
  rw [teardownRound]
  split_ifs with hon
  · by_cases hfam : fam' = fam
    · subst hfam
      rw [stack_turnOff_self]
      exact Stack.restores_off_iff (h fam') hon
    · rw [stack_turnOff_of_ne hfam]
  · exact Iff.rfl

theorem programmed_teardownRound_self : (s.teardownRound fails fam).adv.programmed fam = false := by
  rw [teardownRound]
  split_ifs with hon
  · exact Function.update_self _ _ _
  · exact Bool.eq_false_iff.mpr hon

theorem programmed_teardownLocked : (s.teardownLocked fails).adv.programmed fam = false := by
  rw [teardownLocked]
  cases fam with
  | v4 =>
    have hv4 : (s.teardownRound fails .v4).adv.programmed .v4 = false :=
      programmed_teardownRound_self
    generalize s.teardownRound fails .v4 = s' at hv4
    have hstack : (s'.teardownRound fails .v6).stack .v4 = s'.stack .v4 := by
      rw [teardownRound]
      split_ifs
      · exact stack_turnOff_of_ne (by decide)
      · rfl
    exact (congrArg Stack.programmed hstack).trans hv4
  | v6 => exact programmed_teardownRound_self

theorem Readable.teardownLocked (h : s.Readable) : (s.teardownLocked fails).Readable :=
  h.teardownRound.teardownRound

theorem restores_teardownLocked (h : s.Readable) (fails : IptCommand → Bool) (fam : Family) :
    ((s.teardownLocked fails).stack fam).Restores x ↔ (s.stack fam).Restores x :=
  (restores_teardownRound_iff h.teardownRound fam).trans (restores_teardownRound_iff h fam)

/-- **What `Close` restores.** -/
theorem sysctls_close_iff (h : s.Readable) (fam : Family) :
    (s.close fails).sysctls (fwdPath fam) = some x ↔ (s.stack fam).Restores x := by
  rw [← restores_teardownLocked h fails fam, Stack.Restores, stack,
    programmed_teardownLocked]
  exact Iff.rfl

theorem stack_moveTo : (s.moveTo fails iface).stack fam =
      (if s.adv.iface ≠ "" ∧ s.adv.iface ≠ iface then s.teardownLocked fails else s).stack fam :=
  rfl

theorem Readable.moveTo (h : s.Readable) : (s.moveTo fails iface).Readable := by
  intro fam
  rw [stack_moveTo]
  split_ifs
  · exact h.teardownLocked fam
  · exact h fam

theorem restores_moveTo (h : s.Readable) (fam : Family) :
    ((s.moveTo fails iface).stack fam).Restores x ↔ (s.stack fam).Restores x := by
  rw [stack_moveTo]
  split_ifs
  · exact restores_teardownLocked h fails fam
  · exact Iff.rfl

/-! ### What the call finds -/

/-- The call is for another interface than the one before. -/
def Moves (s : AdvSystem) (iface : String) : Prop := s.adv.iface ≠ "" ∧ s.adv.iface ≠ iface

instance (s : AdvSystem) (iface : String) : Decidable (s.Moves iface) :=
  inferInstanceAs (Decidable (_ ∧ _))

/-- The call turns the family on: the routes ask for it, and it is off or the call moves. -/
def TurnsOn (s : AdvSystem) (o : AdvCall) (fam : Family) : Prop :=
  o.wants fam = true ∧ (s.adv.programmed fam = true → s.Moves o.iface)

/-- The rule is there when the family is turned on. A call that moves has deleted it once, if it is
one of the interface before and neither its check nor its deletion failed. -/
def Present (s : AdvSystem) (o : AdvCall) (fam : Family) (r : IptRule) : Prop :=
  if (s.Moves o.iface ∧ s.adv.programmed fam = true) ∧ r ∈ IptRule.all s.adv.iface ∧
      o.fails true (.check fam r) = false ∧ o.fails true (.delete fam r) = false then
    1 < (s.netfilter fam).count r
  else r ∈ s.netfilter fam

/-- The call turns the family on, and one of its rules is not there, or its check fails, and cannot
be appended. -/
def Blocked (s : AdvSystem) (o : AdvCall) (fam : Family) : Prop :=
  s.TurnsOn o fam ∧ ∃ r ∈ IptRule.all o.iface, o.fails false (.append fam r) = true ∧
    (s.Present o fam r → o.fails false (.check fam r) = true)

theorem netfilter_teardownRound_of_ne (h : fam' ≠ fam) :
    (s.teardownRound fails fam).netfilter fam' = s.netfilter fam' := by
  rw [teardownRound]
  split_ifs
  · exact Netfilter.delRules_of_ne h
  · rfl

theorem count_teardownRound (r : IptRule) :
    ((s.teardownRound fails fam).netfilter fam).count r = (s.netfilter fam).count r -
      if s.adv.programmed fam = true ∧ r ∈ IptRule.all s.adv.iface ∧
        fails (.check fam r) = false ∧ fails (.delete fam r) = false then 1 else 0 := by
  rw [teardownRound]
  by_cases hon : s.adv.programmed fam = true
  · simp only [hon, if_true, true_and]
    exact Netfilter.count_delRules (IptRule.nodup_all _)
  · simp [hon]

theorem adv_teardownRound_of_ne (h : fam' ≠ fam) :
    (s.teardownRound fails fam).adv.programmed fam' = s.adv.programmed fam' ∧
      (s.teardownRound fails fam).adv.iface = s.adv.iface := by
  rw [teardownRound]
  split_ifs
  · exact ⟨Function.update_of_ne h _ _, rfl⟩
  · exact ⟨rfl, rfl⟩

theorem count_teardownLocked (r : IptRule) :
    ((s.teardownLocked fails).netfilter fam).count r = (s.netfilter fam).count r -
      if s.adv.programmed fam = true ∧ r ∈ IptRule.all s.adv.iface ∧
        fails (.check fam r) = false ∧ fails (.delete fam r) = false then 1 else 0 := by
  rw [teardownLocked]
  cases fam with
  | v4 => rw [netfilter_teardownRound_of_ne (by decide), count_teardownRound]
  | v6 =>
    obtain ⟨hon, hiface⟩ : (s.teardownRound fails .v4).adv.programmed .v6 = s.adv.programmed .v6 ∧
        (s.teardownRound fails .v4).adv.iface = s.adv.iface := adv_teardownRound_of_ne (by decide)
    rw [count_teardownRound, hon, hiface, netfilter_teardownRound_of_ne (by decide)]

theorem mem_netfilter_moveTo (o : AdvCall) (r : IptRule) :
    r ∈ (s.moveTo (o.fails true) o.iface).netfilter fam ↔ s.Present o fam r := by
  rw [Present, moveTo]
  by_cases hmoves : s.Moves o.iface
  · rw [if_pos (show s.adv.iface ≠ "" ∧ s.adv.iface ≠ o.iface from hmoves),
      ← List.count_pos_iff]
    dsimp only
    rw [count_teardownLocked]
    simp only [hmoves, true_and]
    split_ifs
    · exact Nat.sub_pos_iff_lt
    · exact List.count_pos_iff
  · rw [if_neg (show ¬ (s.adv.iface ≠ "" ∧ s.adv.iface ≠ o.iface) from hmoves)]
    simp only [hmoves, false_and, if_false]

theorem programmed_moveTo_eq_false_iff : (s.moveTo fails iface).adv.programmed fam = false ↔
      (s.adv.programmed fam = true → s.Moves iface) := by
  show (if s.adv.iface ≠ "" ∧ s.adv.iface ≠ iface then s.teardownLocked fails else s).adv.programmed
    fam = false ↔ (s.adv.programmed fam = true → s.adv.iface ≠ "" ∧ s.adv.iface ≠ iface)
  split_ifs with hmoves
  · exact iff_of_true programmed_teardownLocked fun _ => hmoves
  · rw [imp_iff_not hmoves, Bool.not_eq_true]

theorem netfilter_part_of_ne (hne : fam' ≠ fam) (want : Bool) :
    (s.part fails iface fam want).2.netfilter fam' = s.netfilter fam' := by
  rw [part]
  split_ifs
  · rw [turnOn]
    dsimp only
    cases writeSysctl s.sysctls (fwdPath fam) "1" with
    | none => rfl
    | some fs =>
      have hadd : (s.netfilter.addRules fails fam (IptRule.all iface)).2 fam' = s.netfilter fam' :=
        Netfilter.addRules_of_ne hne
      rw [← hadd]
      rcases s.netfilter.addRules fails fam (IptRule.all iface) with ⟨_ | c, nf⟩ <;> rfl
  · exact Netfilter.delRules_of_ne hne
  · rfl

/-- A part fails just when it turns the family on and a rule cannot be added. -/
theorem isSome_part_iff (h : s.Readable) (want : Bool) :
    (s.part fails iface fam want).1.isSome = true ↔
      (want = true ∧ s.adv.programmed fam = false) ∧
        ∃ r ∈ IptRule.all iface, fails (.append fam r) = true ∧
          (r ∈ s.netfilter fam → fails (.check fam r) = true) := by
  obtain ⟨v, hv, -⟩ := (h fam).value
  have hv : s.sysctls (fwdPath fam) = some v := hv
  rw [← Netfilter.addRules_isSome_iff (IptRule.nodup_all iface), part, turnOn, writeSysctl, hv]
  rcases s.netfilter.addRules fails fam (IptRule.all iface) with ⟨_ | c, nf⟩ <;>
    cases want <;> cases s.adv.programmed fam <;> simp

/-- What a part does with the family as the call has found it. -/
theorem isSome_part_iff_blocked {s' : AdvSystem} (o : AdvCall) (h : s'.Readable)
    (hstack : s'.stack fam = (s.moveTo (o.fails true) o.iface).stack fam)
    (hnf : s'.netfilter fam = (s.moveTo (o.fails true) o.iface).netfilter fam) :
    (s'.part (o.fails false) o.iface fam (o.wants fam)).1.isSome = true ↔ s.Blocked o fam := by
  have hon : s'.adv.programmed fam = (s.moveTo (o.fails true) o.iface).adv.programmed fam :=
    congrArg Stack.programmed hstack
  rw [isSome_part_iff h, hon, programmed_moveTo_eq_false_iff, hnf]
  simp only [mem_netfilter_moveTo]
  exact Iff.rfl

/-- **One part of a call**, by what the call finds. -/
theorem restores_part_iff_blocked {s' : AdvSystem} (o : AdvCall) (hs : s.Readable)
    (h : s'.Readable) (hx : (s.stack fam).Restores x)
    (hstack : s'.stack fam = (s.moveTo (o.fails true) o.iface).stack fam)
    (hnf : s'.netfilter fam = (s.moveTo (o.fails true) o.iface).netfilter fam) :
    ((s'.part (o.fails false) o.iface fam (o.wants fam)).2.stack fam).Restores x ↔
      (s.Blocked o fam → (s.stack fam).Restores "1") := by
  have hx' : (s'.stack fam).Restores x := by
    rw [hstack]
    exact (restores_moveTo hs fam).mpr hx
  rw [restores_part_iff h hx', isSome_part_iff_blocked o h hstack hnf]
  refine imp_congr_right fun hblocked => ?_
  have hoff : s'.adv.programmed fam = false :=
    (congrArg Stack.programmed hstack).trans
      (programmed_moveTo_eq_false_iff.mpr hblocked.1.2)
  have hmove : ((s.moveTo (o.fails true) o.iface).stack fam).Restores "1" ↔
      (s.stack fam).Restores "1" := restores_moveTo hs fam
  rw [← hmove, ← hstack, Stack.Restores, stack, hoff]
  exact Iff.rfl

/-! ### Whole calls -/

/-- A family that the call cannot turn on has `1` for the value it will be given back. IPv6 is not
tried after IPv4 has failed. -/
def Harmless (s : AdvSystem) (o : AdvCall) : Prop :=
  (s.Blocked o .v4 → (s.stack .v4).Restores "1") ∧
    (¬ s.Blocked o .v4 → s.Blocked o .v6 → (s.stack .v6).Restores "1")

theorem step_eq (s : AdvSystem) (o : AdvCall) :
    let r := (s.moveTo (o.fails true) o.iface).part (o.fails false) o.iface .v4 (o.wants .v4)
    s.step o =
      if r.1.isSome then r.2 else (r.2.part (o.fails false) o.iface .v6 (o.wants .v6)).2 := by
  rw [step, apply]
  dsimp only [AdvCall.wants]
  split
  · next e h => rw [h]; rfl
  · next h => rw [h]; rfl

theorem Readable.step (h : s.Readable) (o : AdvCall) : (s.step o).Readable := by
  rw [step_eq]
  split_ifs
  · exact h.moveTo.part _ _ _ _
  · exact (h.moveTo.part _ _ _ _).part _ _ _ _

/-- **One call**: the exact condition. -/
theorem restores_step_iff (h : s.Readable) {x : Family → String}
    (hx : ∀ fam, (s.stack fam).Restores (x fam)) (o : AdvCall) :
    (∀ fam, ((s.step o).stack fam).Restores (x fam)) ↔ s.Harmless o := by
  have hread : (s.moveTo (o.fails true) o.iface).Readable := h.moveTo
  have hv4 := restores_part_iff_blocked o h hread (hx .v4) rfl rfl
  have hfails : ((s.moveTo (o.fails true) o.iface).part (o.fails false) o.iface .v4
      (o.wants .v4)).1.isSome = true ↔ s.Blocked o .v4 := isSome_part_iff_blocked o hread rfl rfl
  have hread' := hread.part (o.fails false) o.iface .v4 (o.wants .v4)
  have hstack : ((s.moveTo (o.fails true) o.iface).part (o.fails false) o.iface .v4
      (o.wants .v4)).2.stack .v6 = (s.moveTo (o.fails true) o.iface).stack .v6 :=
    stack_part_of_ne (by decide) _
  have hv6 := restores_part_iff_blocked o h hread' (hx .v6) hstack
    (netfilter_part_of_ne (by decide) _)
  have hfam {P : Family → Prop} : (∀ fam, P fam) ↔ P .v4 ∧ P .v6 :=
    ⟨fun h => ⟨h _, h _⟩, fun h fam => by cases fam <;> [exact h.1; exact h.2]⟩
  rw [step_eq, hfam, Harmless]
  by_cases hblocked : s.Blocked o .v4
  · rw [if_pos (hfails.mpr hblocked), hv4, hstack]
    refine and_congr_right fun _ => ?_
    exact iff_of_true ((restores_moveTo h .v6).mpr (hx .v6)) fun hnot => absurd hblocked hnot
  · rw [if_neg (mt hfails.mp hblocked), hv6, stack_part_of_ne (by decide), hv4]
    exact and_congr_right fun _ => (imp_iff_right hblocked).symm

/-- **When forwarding is restored**: at every point of a run `Close` gives both parameters the
values they had at its start, just when no call turns a family on whose rules it then cannot add,
unless forwarding was on anyway. -/
theorem restored_iff {sysctls : Sysctls}
    (hread : ∀ fam, ∃ v, sysctls (fwdPath fam) = some v ∧ v ≠ "") (netfilter : Netfilter)
    (ops : List AdvCall) :
    (∀ ops', ops' <+: ops → ∀ fails fam,
      ((run step (new netfilter sysctls) ops').close fails).sysctls (fwdPath fam) =
        sysctls (fwdPath fam)) ↔
    Along step Harmless (new netfilter sysctls) ops := by
  choose x hx hne using hread
  have hclose : ∀ s : AdvSystem, s.Readable →
      ((∀ fails fam, (s.close fails).sysctls (fwdPath fam) = sysctls (fwdPath fam)) ↔
        ∀ fam, (s.stack fam).Restores (x fam)) := by
    intro s hs
    constructor
    · intro hall fam
      exact (sysctls_close_iff hs fam).mp ((hall never fam).trans (hx fam))
    · intro hall fails fam
      exact ((sysctls_close_iff hs fam).mpr (hall fam)).trans (hx fam).symm
  have hnew : (new netfilter sysctls).Readable :=
    fun fam => ⟨⟨x fam, hx fam, hne fam⟩, fun h => Bool.noConfusion h⟩
  refine forall_prefix_iff_along (J := Readable)
    (P := fun s => ∀ fails fam, (s.close fails).sysctls (fwdPath fam) = sysctls (fwdPath fam))
    hnew ((hclose _ hnew).mpr hx) (fun s o hs => hs.step o) ?_ ops
  intro s o hs hP
  rw [hclose _ (hs.step o)]
  exact restores_step_iff hs ((hclose s hs).mp hP) o

/-- A machine whose forwarding is off. -/
def sampleSysctls : Sysctls :=
  fun path => if path = fwdPath .v4 ∨ path = fwdPath .v6 then some "0" else none

/-- A call for a route of IPv4. -/
def sampleCall (fails : IptCommand → Bool) : AdvCall :=
  ⟨"om0", [⟨.v4 0xc0a80000#32, 16, by decide, rfl⟩], fun _ => fails⟩

/-- One call that succeeds. -/
theorem restored_sample :
    ((run step (new (fun _ => []) sampleSysctls) [sampleCall never]).close never).sysctls
      (fwdPath .v4) = some "0" := by
  have hread : ∀ fam, ∃ v, sampleSysctls (fwdPath fam) = some v ∧ v ≠ "" := by
    intro fam
    exact ⟨"0", by cases fam <;> decide, by decide⟩
  refine (restored_iff hread (fun _ => []) [sampleCall never]).mpr ?_ [sampleCall never]
    (List.prefix_refl _) never .v4
  have hadd : ∀ (s : AdvSystem) fam, ¬ s.Blocked (sampleCall never) fam := by
    rintro s fam ⟨-, r, -, hfails, -⟩
    exact Bool.noConfusion hfails
  exact ⟨⟨fun h => absurd h (hadd _ _), fun _ h => absurd h (hadd _ _)⟩, trivial⟩

/-- The first rule cannot be added, and a second call succeeds. `Close` leaves forwarding on. -/
theorem restored_retry :
    let fails : IptCommand → Bool := fun c => c = .append .v4 (.mark "om0")
    let s := run step (new (fun _ => []) sampleSysctls) [sampleCall fails, sampleCall never]
    (s.close never).sysctls (fwdPath .v4) = some "1" := by
  decide +kernel

end AdvSystem

end Router.Linux

end OverMesh
