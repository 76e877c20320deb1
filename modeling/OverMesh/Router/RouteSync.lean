import OverMesh.Internal.Commands
import OverMesh.Internal.Runs
import OverMesh.Router.Basic

/-!
# Routes to the subnets of peers

`RouteSync` keeps the routing table of the operating system in step with the subnets that the peers
serve. `Sync` deletes what is no longer wanted and adds what is wanted and not there yet, and
`Close` deletes the rest. The three systems differ in what they do about a route that is there
already, put there by something else: Linux is told to replace it, macOS refuses to add another one,
and on Windows the routes of an adapter are its own affair, and one that exists counts as added.

A route that is added may be refused by the system for a reason of its own, an input here. What is
deleted is there. Go ranges over its maps in any order; here they are lists without repetitions,
which are gone through from the front, and what the rounds do to a prefix does not depend on the
others.

`Rib` has the routes that stand in each other's way: those of the main table with the metric that
`ip route replace` uses. Prefixes are taken to have no bits beyond their length; the systems would
clear them.

## Main definitions

* `RouteOS.exec` — the commands of the three systems
* `RouteSystem.sync`, `RouteSystem.close`

## Main results

* `RouteSystem.sync_spec` — what a call of `Sync` does
* `RouteSystem.routes_restored_iff` — **when nothing is left behind, and nothing is lost**
-/

namespace OverMesh

open Netip Runs

namespace Router

/-! ### The systems -/

/-- A route to a prefix through an interface. -/
structure SubnetRoute where
  dst : Prefix
  dev : String
  deriving DecidableEq

/-- The routing table. -/
abbrev Rib := List SubnetRoute

/-- The systems that have a `RouteSync`. -/
inductive RouteOS where
  | linux
  | darwin
  | windows
  deriving DecidableEq

/-- The commands. -/
inductive RouteCmd where
  | add (r : SubnetRoute)
  | del (r : SubnetRoute)
  deriving DecidableEq

namespace RouteOS

/-- `ip route replace`, `route add` and `AddRoute`. `none` is an error. -/
def add (os : RouteOS) (rib : Rib) (r : SubnetRoute) : Option Rib :=
  match os with
  | .linux => some (rib.filter (·.dst ≠ r.dst) ++ [r])
  | .darwin => if ∃ r' ∈ rib, r'.dst = r.dst then none else some (rib ++ [r])
  | .windows => if r ∈ rib then some rib else some (rib ++ [r])

/-- `ip route del`, `route delete` and `DeleteRoute`. -/
def del (rib : Rib) (r : SubnetRoute) : Option Rib :=
  if r ∈ rib then some (rib.filter (· ≠ r)) else none

/-- What a command does. -/
def exec (os : RouteOS) (rib : Rib) : RouteCmd → Option Rib
  | .add r => os.add rib r
  | .del r => del rib r

/-- A route that was there is gone once its prefix has been added and deleted again. -/
def displaces (os : RouteOS) (iface : String) (r : SubnetRoute) : Bool :=
  match os with
  | .linux => true
  | .darwin => false
  | .windows => r.dev = iface

end RouteOS

/-! ### The routes of the mesh -/

/-- `RouteSync`. -/
structure RouteSync where
  iface : String
  current : List Prefix

/-- A call of `Sync`: whether the adapter is found, which only Windows looks for, and the prefixes
that the system refuses. -/
structure SyncCall where
  iface : String
  want : List Prefix
  found : Bool
  refuses : List Prefix

/-- The routes of the mesh and the table. `installed` has the prefixes that were ever added. -/
structure RouteSystem where
  os : RouteOS
  r : RouteSync
  rib : Rib
  installed : List Prefix

/-- `NewRouteSync`. -/
def newRouteSync (os : RouteOS) (rib : Rib) : RouteSystem := ⟨os, ⟨"", []⟩, rib, []⟩

namespace RouteSystem

/-- The commands that the system refuses in a call. -/
def fails (refuses : List Prefix) : RouteCmd → Bool
  | .add r => r.dst ∈ refuses
  | .del _ => false

/-- The first round of `Sync`, and `Close`: prefixes are deleted, whatever comes of it. -/
def delete (s : RouteSystem) (ps : List Prefix) : RouteSystem :=
  { s with
    rib := Commands.each s.os.exec (fails []) s.rib (ps.map fun p => .del ⟨p, s.r.iface⟩)
    r := { s.r with current := s.r.current.filter (· ∉ ps) } }

/-- A prefix has been added. -/
def added (s : RouteSystem) (p : Prefix) (rib : Rib) : RouteSystem :=
  { s with
    rib := rib
    r := { s.r with current := s.r.current ++ [p] }
    installed := s.installed ++ [p] }

/-- One turn of the second round. -/
def install (refuses : List Prefix) (s : RouteSystem) (p : Prefix) : RouteSystem :=
  match Commands.attempt s.os.exec (fails refuses) s.rib (.add ⟨p, s.r.iface⟩) with
  | none => s
  | some rib => s.added p rib

/-- `Sync`. -/
def sync (s : RouteSystem) (c : SyncCall) : RouteSystem :=
  let s := { s with r := { s.r with iface := c.iface } }
  if s.os = .windows ∧ c.found = false then s
  else
    let s := s.delete (s.r.current.filter (· ∉ c.want))
    (c.want.dedup.filter (· ∉ s.r.current)).foldl (install c.refuses) s

/-- `Close`. On Windows nothing happens if the adapter is not found. -/
def close (s : RouteSystem) (found : Bool) : RouteSystem :=
  if s.os = .windows ∧ found = false then s else s.delete s.r.current

/-! ### The rounds -/

/-- What the first round does to the table. A route that is not there cannot be deleted, and the
error is ignored. -/
theorem mem_each_del (os : RouteOS) (iface : String) (ps : List Prefix) (rib : Rib)
    (r : SubnetRoute) : r ∈ Commands.each os.exec (fails []) rib (ps.map fun p => .del ⟨p, iface⟩) ↔
      r ∈ rib ∧ ¬ (r.dst ∈ ps ∧ r.dev = iface) := by
  induction ps generalizing rib with
  | nil => simp
  | cons p ps ih =>
    have hone : ∀ r, r ∈ Commands.ignore os.exec (fails []) rib (.del ⟨p, iface⟩) ↔
        r ∈ rib ∧ r ≠ ⟨p, iface⟩ := by
      intro r
      rw [Commands.ignore, Commands.attempt_of_not_fails rfl]
      show r ∈ (RouteOS.del rib ⟨p, iface⟩).getD rib ↔ _
      rw [RouteOS.del]
      split_ifs with hmem
      · simp
      · refine ⟨fun hr => ⟨hr, ?_⟩, And.left⟩
        rintro rfl
        exact hmem hr
    rw [List.map_cons, Commands.each_cons, ih, hone, List.mem_cons]
    obtain ⟨dst, dev⟩ := r
    simp only [ne_eq, SubnetRoute.mk.injEq]
    tauto

/-- **What the table is made up of**: the routes that were there, but for those that the routes of
the mesh have displaced, and the routes of the mesh. -/
structure Inv (initial : Rib) (iface : String) (s : RouteSystem) : Prop where
  iface_eq : s.r.current ≠ [] → s.r.iface = iface
  current : ∀ p ∈ s.r.current, p ∈ s.installed
  mem_rib : ∀ r, r ∈ s.rib ↔
    r ∈ initial ∧ ¬ (r.dst ∈ s.installed ∧ s.os.displaces iface r = true) ∨
      r.dst ∈ s.r.current ∧ r.dev = iface
  refused : s.os = .darwin → ∀ r ∈ initial, r.dst ∉ s.installed

variable {initial : Rib} {iface : String} {s : RouteSystem}

/-- What was there and is deleted has been displaced. -/
theorem Inv.displaced (h : s.Inv initial iface) {r : SubnetRoute} (hr : r ∈ initial)
    (hdev : r.dev = iface) (hdst : r.dst ∈ s.r.current) : s.os.displaces iface r = true := by
  cases hos : s.os with
  | linux => rfl
  | darwin => exact absurd (h.current _ hdst) (h.refused hos r hr)
  | windows => exact decide_eq_true hdev

theorem Inv.delete (h : s.Inv initial iface) (hiface : s.r.iface = iface) {ps : List Prefix}
    (hps : ∀ p ∈ ps, p ∈ s.r.current) : (s.delete ps).Inv initial iface where
  iface_eq _ := hiface
  current p hp := h.current p (List.mem_filter.mp hp).1
  mem_rib r := by
    show r ∈ Commands.each s.os.exec (fails []) s.rib (ps.map fun p => .del ⟨p, s.r.iface⟩) ↔
      r ∈ initial ∧ ¬ (r.dst ∈ s.installed ∧ s.os.displaces iface r = true) ∨
        r.dst ∈ s.r.current.filter (· ∉ ps) ∧ r.dev = iface
    rw [mem_each_del, h.mem_rib, hiface, List.mem_filter, decide_eq_true_iff]
    constructor
    · rintro ⟨hold | ⟨hdst, hdev⟩, hkept⟩
      · exact .inl hold
      · exact .inr ⟨⟨hdst, fun hp => hkept ⟨hp, hdev⟩⟩, hdev⟩
    · rintro (⟨hr, hkept⟩ | ⟨⟨hdst, hp⟩, hdev⟩)
      · refine ⟨.inl ⟨hr, hkept⟩, fun ⟨hp, hdev⟩ => hkept ⟨h.current _ (hps _ hp), ?_⟩⟩
        exact h.displaced hr hdev (hps _ hp)
      · exact ⟨.inr ⟨hdst, hdev⟩, fun hdel => hp hdel.1⟩
  refused := h.refused

/-- The prefix can be added. -/
def Accepts (initial : Rib) (refuses : List Prefix) (s : RouteSystem) (p : Prefix) : Prop :=
  p ∉ refuses ∧ (s.os = .darwin → ∀ r ∈ initial, r.dst ≠ p)

theorem Inv.added (h : s.Inv initial iface) (hiface : s.r.iface = iface) {p : Prefix} {rib : Rib}
    (hfree : s.os = .darwin → ∀ r ∈ initial, r.dst ≠ p)
    (hrib : ∀ r, r ∈ rib ↔ r ∈ s.rib ∧ ¬ (r.dst = p ∧ s.os = .linux) ∨ r = ⟨p, iface⟩) :
    (s.added p rib).Inv initial iface where
  iface_eq _ := hiface
  current q hq := by
    rcases List.mem_append.mp hq with hq | hq
    · exact List.mem_append_left _ (h.current q hq)
    · exact List.mem_append_right _ hq
  mem_rib r := by
    obtain ⟨dst, dev⟩ := r
    show _ ∈ rib ↔ _ ∈ initial ∧
      ¬ (dst ∈ s.installed ++ [p] ∧ s.os.displaces iface ⟨dst, dev⟩ = true) ∨
        dst ∈ s.r.current ++ [p] ∧ dev = iface
    rw [hrib, h.mem_rib, List.mem_append, List.mem_append, List.mem_singleton,
      SubnetRoute.mk.injEq]
    by_cases hdst : dst = p
    · subst hdst
      cases hos : s.os with
      | linux => simp [RouteOS.displaces]
      | darwin =>
        have hnot : ∀ dev, (⟨dst, dev⟩ : SubnetRoute) ∉ initial :=
          fun dev hmem => hfree hos _ hmem rfl
        simp [hnot]
      | windows =>
        simp [RouteOS.displaces]
        tauto
    · simp [hdst]
  refused hos r hr hdst := by
    rcases List.mem_append.mp hdst with hdst | hdst
    · exact h.refused hos r hr hdst
    · exact hfree hos r hr (List.mem_singleton.mp hdst)

/-- What a system adds. -/
theorem mem_add {os : RouteOS} {rib rib' : Rib} {r : SubnetRoute} (h : os.add rib r = some rib')
    (r' : SubnetRoute) : r' ∈ rib' ↔ r' ∈ rib ∧ ¬ (r'.dst = r.dst ∧ os = .linux) ∨ r' = r := by
  cases os with
  | linux =>
    obtain rfl := Option.some.inj h
    simp
  | darwin =>
    simp only [RouteOS.add] at h
    split_ifs at h
    obtain rfl := Option.some.inj h
    simp
  | windows =>
    simp only [RouteOS.add] at h
    split_ifs at h with hmem
    · obtain rfl := Option.some.inj h
      refine ⟨fun hr => .inl ⟨hr, by simp⟩, ?_⟩
      rintro (hr | rfl)
      · exact hr.1
      · exact hmem
    · obtain rfl := Option.some.inj h
      simp

/-- Only macOS refuses a prefix that has a route. -/
theorem add_eq_none_iff {os : RouteOS} {rib : Rib} {r : SubnetRoute} :
    os.add rib r = none ↔ os = .darwin ∧ ∃ r' ∈ rib, r'.dst = r.dst := by
  cases os with
  | linux => simp [RouteOS.add]
  | darwin => simp [RouteOS.add]
  | windows =>
    simp only [RouteOS.add]
    split_ifs <;> simp

/-- On macOS a prefix has a route just when it had one before or is one of the mesh. -/
theorem Inv.exists_route_iff (h : s.Inv initial iface) (hos : s.os = .darwin) {p : Prefix}
    (hp : p ∉ s.r.current) : (∃ r ∈ s.rib, r.dst = p) ↔ ∃ r ∈ initial, r.dst = p := by
  constructor
  · rintro ⟨r, hr, rfl⟩
    rcases (h.mem_rib r).mp hr with ⟨hr, -⟩ | ⟨hdst, -⟩
    · exact ⟨r, hr, rfl⟩
    · exact absurd hdst hp
  · rintro ⟨r, hr, rfl⟩
    refine ⟨r, (h.mem_rib r).mpr (.inl ⟨hr, ?_⟩), rfl⟩
    rw [hos]
    exact fun hdisp => Bool.false_ne_true hdisp.2

/-- One turn of the second round: the prefix is added if the system accepts it. -/
theorem install_cases (h : s.Inv initial iface) (hiface : s.r.iface = iface) (refuses : List Prefix)
    {p : Prefix} (hp : p ∉ s.r.current) :
    (¬ s.Accepts initial refuses p ∧ install refuses s p = s) ∨
      s.Accepts initial refuses p ∧ ∃ rib, install refuses s p = s.added p rib ∧
        (s.added p rib).Inv initial iface := by
  by_cases hrefuses : p ∈ refuses
  · have hfails : fails refuses (.add ⟨p, s.r.iface⟩) = true := decide_eq_true hrefuses
    refine .inl ⟨fun hacc => hacc.1 hrefuses, ?_⟩
    rw [install, Commands.attempt_of_fails hfails]
  · have hfails : fails refuses (.add ⟨p, s.r.iface⟩) = false := decide_eq_false hrefuses
    have hexec : Commands.attempt s.os.exec (fails refuses) s.rib (.add ⟨p, s.r.iface⟩) =
        s.os.add s.rib ⟨p, s.r.iface⟩ := Commands.attempt_of_not_fails hfails
    rw [install, hexec]
    cases hadd : s.os.add s.rib ⟨p, s.r.iface⟩ with
    | none =>
      obtain ⟨hos, hroute⟩ := add_eq_none_iff.mp hadd
      obtain ⟨r, hr, hdst⟩ := (h.exists_route_iff hos hp).mp hroute
      exact .inl ⟨fun hacc => hacc.2 hos r hr hdst, rfl⟩
    | some rib =>
      have hfree : s.os = .darwin → ∀ r ∈ initial, r.dst ≠ p := by
        intro hos r hr hdst
        have hroute := (h.exists_route_iff hos hp).mpr ⟨r, hr, hdst⟩
        rw [add_eq_none_iff.mpr ⟨hos, hroute⟩] at hadd
        cases hadd
      refine .inr ⟨⟨hrefuses, hfree⟩, rib, rfl, h.added hiface hfree fun r => ?_⟩
      rw [mem_add hadd, hiface]

/-- **The second round** adds the prefixes that the system accepts. -/
theorem foldl_install (h : s.Inv initial iface) (hiface : s.r.iface = iface)
    (refuses : List Prefix) {ps : List Prefix} (hnodup : ps.Nodup)
    (hps : ∀ p ∈ ps, p ∉ s.r.current) : (ps.foldl (install refuses) s).Inv initial iface ∧
      (ps.foldl (install refuses) s).r.iface = iface ∧
      (ps.foldl (install refuses) s).os = s.os ∧
      ∀ q, q ∈ (ps.foldl (install refuses) s).r.current ↔
        q ∈ s.r.current ∨ q ∈ ps ∧ s.Accepts initial refuses q := by
  induction ps generalizing s with
  | nil => exact ⟨h, hiface, rfl, fun q => by simp⟩
  | cons p ps ih =>
    obtain ⟨hnot, hnodup⟩ := List.nodup_cons.mp hnodup
    rw [List.forall_mem_cons] at hps
    rw [List.foldl_cons]
    rcases install_cases h hiface refuses hps.1 with ⟨hrefused, heq⟩ | ⟨hacc, rib, heq, hadded⟩
    · rw [heq]
      obtain ⟨h₁, h₂, h₃, h₄⟩ := ih h hiface hnodup hps.2
      refine ⟨h₁, h₂, h₃, fun q => ?_⟩
      rw [h₄, List.mem_cons]
      refine or_congr_right ⟨fun hq => ⟨.inr hq.1, hq.2⟩, ?_⟩
      rintro ⟨rfl | hq, hqacc⟩
      · exact absurd hqacc hrefused
      · exact ⟨hq, hqacc⟩
    · rw [heq]
      have hps' : ∀ q ∈ ps, q ∉ (s.added p rib).r.current := by
        intro q hq hmem
        rcases List.mem_append.mp hmem with hmem | hmem
        · exact hps.2 q hq hmem
        · rw [List.mem_singleton.mp hmem] at hq
          exact hnot hq
      obtain ⟨h₁, h₂, h₃, h₄⟩ := ih hadded hiface hnodup hps'
      refine ⟨h₁, h₂, h₃, fun q => ?_⟩
      rw [h₄]
      show q ∈ s.r.current ++ [p] ∨ q ∈ ps ∧ s.Accepts initial refuses q ↔ _
      rw [List.mem_append, List.mem_singleton, List.mem_cons, or_assoc]
      refine or_congr_right ⟨?_, ?_⟩
      · rintro (rfl | ⟨hq, hqacc⟩)
        · exact ⟨.inl rfl, hacc⟩
        · exact ⟨.inr hq, hqacc⟩
      · rintro ⟨rfl | hq, hqacc⟩
        · exact .inl rfl
        · exact .inr ⟨hq, hqacc⟩

/-! ### The calls -/

/-- **What a call of `Sync` does.** -/
theorem sync_spec (h : s.Inv initial iface) {c : SyncCall} (hc : c.iface = iface) :
    (s.sync c).Inv initial iface ∧ (s.sync c).os = s.os ∧
      ((s.os = .windows → c.found = true) → ∀ p, p ∈ (s.sync c).r.current ↔
        p ∈ c.want ∧ (p ∈ s.r.current ∨ s.Accepts initial c.refuses p)) := by
  have hset : Inv initial iface { s with r := { s.r with iface := c.iface } } :=
    ⟨fun _ => hc, h.current, h.mem_rib, h.refused⟩
  rw [sync]
  dsimp only
  split_ifs with hfound
  · refine ⟨hset, rfl, fun hf => ?_⟩
    rw [hf hfound.1] at hfound
    exact absurd hfound.2 (by simp)
  · have hdel : Inv initial iface (delete { s with r := { s.r with iface := c.iface } }
        (s.r.current.filter (· ∉ c.want))) :=
      hset.delete hc fun p hp => (List.mem_filter.mp hp).1
    have hnodup := (List.nodup_dedup c.want).filter
      (fun p => decide (p ∉ s.r.current.filter (· ∉ s.r.current.filter (· ∉ c.want))))
    obtain ⟨hinv, -, hos, hcur⟩ := foldl_install hdel hc c.refuses hnodup
      fun p hp => of_decide_eq_true (List.mem_filter.mp hp).2
    refine ⟨hinv, hos, fun _ p => ?_⟩
    refine (hcur p).trans ?_
    show p ∈ s.r.current.filter (· ∉ s.r.current.filter (· ∉ c.want)) ∨
      p ∈ c.want.dedup.filter (· ∉ s.r.current.filter (· ∉ s.r.current.filter (· ∉ c.want))) ∧
        s.Accepts initial c.refuses p ↔ _
    simp only [List.mem_filter, List.mem_dedup, decide_eq_true_eq]
    tauto

theorem inv_newRouteSync (os : RouteOS) (rib : Rib) (iface : String) :
    (newRouteSync os rib).Inv rib iface where
  iface_eq h := absurd rfl h
  current p hp := absurd hp List.not_mem_nil
  mem_rib r := by simp [newRouteSync]
  refused _ _ _ := List.not_mem_nil

/-- What holds after any number of calls for one interface. -/
theorem inv_run (os : RouteOS) (rib : Rib) {iface : String} {calls : List SyncCall}
    (h : ∀ c ∈ calls, c.iface = iface) : (run sync (newRouteSync os rib) calls).Inv rib iface ∧
      (run sync (newRouteSync os rib) calls).os = os := by
  refine run_induction_along (C := fun _ c => c.iface = iface)
    (P := fun s : RouteSystem => s.Inv rib iface ∧ s.os = os)
    ⟨inv_newRouteSync os rib iface, rfl⟩ ?_
    (along_of_forall (fun c hc _ => h c hc) _)
  rintro s c ⟨hinv, hos⟩ hc
  obtain ⟨hinv', hos', -⟩ := sync_spec hinv hc
  exact ⟨hinv', hos'.trans hos⟩

/-- `Close` takes back all routes of the mesh. -/
theorem close_spec (h : s.Inv initial iface) :
    (s.close true).Inv initial iface ∧ (s.close true).r.current = [] ∧
      (s.close true).installed = s.installed ∧ (s.close true).os = s.os := by
  rw [close, if_neg (by simp)]
  refine ⟨?_, ?_, rfl, rfl⟩
  · by_cases hempty : s.r.current = []
    · have hself : s.delete s.r.current = s := by
        obtain ⟨os, ⟨iface, current⟩, rib, installed⟩ := s
        subst hempty
        rfl
      rw [hself]
      exact h
    · exact h.delete (h.iface_eq hempty) fun p => id
  · exact List.filter_eq_nil_iff.mpr fun p hp => by simpa using hp

/-- **When nothing is left behind, and nothing is lost.** Whatever is wanted and whatever the system
refuses, the table has, between the calls, the routes that were there, without those that have been
displaced, and the routes of the mesh; and a call of `Sync` makes these the wanted ones that the
system accepts. So after `Close` the table is what it was just when no route was displaced. On macOS
none ever is. On Linux every route is lost whose prefix has been one of the mesh, also that of the
machine's own network. -/
theorem routes_restored_iff (os : RouteOS) (rib : Rib) (iface : String) {calls : List SyncCall}
    (hcalls : ∀ c ∈ calls, c.iface = iface) :
    (∀ c : SyncCall, c.iface = iface → (os = .windows → c.found = true) → ∀ p,
      p ∈ ((run sync (newRouteSync os rib) calls).sync c).r.current ↔
        p ∈ c.want ∧ (p ∈ (run sync (newRouteSync os rib) calls).r.current ∨
          p ∉ c.refuses ∧ (os = .darwin → ∀ r ∈ rib, r.dst ≠ p))) ∧
    (∀ r, r ∈ (run sync (newRouteSync os rib) calls).rib ↔
      r ∈ rib ∧ ¬ (r.dst ∈ (run sync (newRouteSync os rib) calls).installed ∧
          os.displaces iface r = true) ∨
        r.dst ∈ (run sync (newRouteSync os rib) calls).r.current ∧ r.dev = iface) ∧
    ((∀ r, r ∈ ((run sync (newRouteSync os rib) calls).close true).rib ↔ r ∈ rib) ↔
      ∀ r ∈ rib, r.dst ∈ (run sync (newRouteSync os rib) calls).installed →
        os.displaces iface r = false) := by
  obtain ⟨hinv, hos⟩ := inv_run os rib hcalls
  obtain ⟨hclosed, hempty, hinstalled, hos'⟩ := close_spec hinv
  refine ⟨fun c hc hfound p => ?_, fun r => ?_, ?_⟩
  · rw [(sync_spec hinv hc).2.2 (fun hw => hfound (hos.symm.trans hw)) p, Accepts, hos]
  · rw [hinv.mem_rib, hos]
  · have hrib : ∀ r, r ∈ ((run sync (newRouteSync os rib) calls).close true).rib ↔
        r ∈ rib ∧ ¬ (r.dst ∈ (run sync (newRouteSync os rib) calls).installed ∧
          os.displaces iface r = true) := by
      intro r
      rw [hclosed.mem_rib, hempty, hinstalled, hos', hos]
      simp
    constructor
    · intro h r hr hdst
      have hkept := ((hrib r).mp ((h r).mpr hr)).2
      exact Bool.eq_false_iff.mpr fun hdisp => hkept ⟨hdst, hdisp⟩
    · intro h r
      rw [hrib]
      refine and_iff_left_of_imp fun hr hdisp => ?_
      rw [h r hr hdisp.1] at hdisp
      exact Bool.false_ne_true hdisp.2

/-- The network that the machine is in. -/
def sampleLan : Prefix := ⟨.v4 0xc0a80100#32, 24, by decide, rfl⟩

/-- A peer serves the network of the machine: it is lost on Linux, and kept on macOS. -/
theorem routes_restored_sampleLan :
    ¬ (∀ r, r ∈ ((run sync (newRouteSync .linux [⟨sampleLan, "eth0"⟩])
          [⟨"overmesh0", [sampleLan], true, []⟩]).close true).rib ↔
        r ∈ [(⟨sampleLan, "eth0"⟩ : SubnetRoute)]) ∧
      ∀ r, r ∈ ((run sync (newRouteSync .darwin [⟨sampleLan, "en0"⟩])
          [⟨"utun4", [sampleLan], true, []⟩]).close true).rib ↔
        r ∈ [(⟨sampleLan, "en0"⟩ : SubnetRoute)] := by
  constructor
  · intro h
    have hkept := (routes_restored_iff .linux [⟨sampleLan, "eth0"⟩] "overmesh0" (by simp)).2.2.mp h
      ⟨sampleLan, "eth0"⟩ (by simp) (by decide)
    exact absurd hkept (by decide)
  · exact (routes_restored_iff .darwin [⟨sampleLan, "en0"⟩] "utun4" (by simp)).2.2.mpr
      fun _ _ _ => rfl

end RouteSystem

end Router

end OverMesh
