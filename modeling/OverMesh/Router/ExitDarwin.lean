import OverMesh.Internal.NetipText
import OverMesh.Internal.Runs
import OverMesh.Router.Basic

/-!
# Exit routing on macOS

`ExitClient` of `router_darwin.go` sends the traffic of the machine into the tunnel by two routes
that halve the address space, for IPv4 and on request for IPv6, and keeps the daemon's own flows out
of it by a route to each of their hosts through the gateway of the default route. What `Remove`
deletes is made up from what the client remembers: its interface, its flag, its gateways and its
hosts.

All commands succeed, in the sense of the client: a route that is added is there afterwards, added
or found. The table holds the routes that the client has added. When a kernel takes two routes for
one is its own affair, by their destination alone or by the gateway as well, and a parameter here.

Go ranges over the sets of hosts in any order. What the rounds do does not depend on it.

## Main results

* `ExitSystem.Inv.step` — a route for each destination the client remembers is there
* `ExitSystem.left_remove_iff` — what `Remove` leaves behind
* `ExitSystem.covered_step_iff` — when a call leaves something that `Remove` will not find
* `ExitSystem.fully_undone_iff` — **when exit routing is fully undone**
-/

namespace OverMesh

open Netip GoText Runs

namespace Router.Darwin

/-! ### The routing table -/

/-- What a route leads to. -/
inductive Dst where
  | net (p : Prefix)
  | host (ip : Addr)
  deriving DecidableEq

/-- Where a route leads through. A gateway that is not known is the zero address. -/
inductive Via where
  | interface (iface : String)
  | gateway (gw : Option Addr)
  deriving DecidableEq

/-- A route. -/
structure Route where
  dst : Dst
  via : Via
  deriving DecidableEq

/-- The options of `route` for a family. -/
def famArg (is6 : Bool) : String := if is6 then "-inet6" else "-inet"

/-- The arguments of `routeCmd` and `hostRouteCmd`. -/
def Route.args (op : String) : Route → List String
  | ⟨.net p, .interface iface⟩ => ["-n", op, famArg p.addr.is6, p.string, "-interface", iface]
  | ⟨.net p, .gateway gw⟩ => ["-n", op, famArg p.addr.is6, p.string,
      (gw.map Addr.string).getD "invalid IP"]
  | ⟨.host ip, .gateway gw⟩ => ["-n", op, famArg ip.is6, "-host", ip.string,
      (gw.map Addr.string).getD "invalid IP"]
  | ⟨.host ip, .interface iface⟩ => ["-n", op, famArg ip.is6, "-host", ip.string, "-interface",
      iface]

/-- When a kernel takes two routes for one. -/
inductive Matching where
  | byDestination
  | byRoute
  deriving DecidableEq

/-- The routes are one to the kernel. -/
def Same (m : Matching) (r r' : Route) : Prop := r.dst = r'.dst ∧ (m = .byRoute → r.via = r'.via)

instance (m : Matching) (r r' : Route) : Decidable (Same m r r') :=
  inferInstanceAs (Decidable (_ ∧ _))

theorem Same.refl (m : Matching) (r : Route) : Same m r r := ⟨rfl, fun _ => rfl⟩

theorem Same.symm {m : Matching} {r r' : Route} (h : Same m r r') : Same m r' r :=
  ⟨h.1.symm, fun hm => (h.2 hm).symm⟩

theorem Same.trans {m : Matching} {r r' r'' : Route} (h : Same m r r') (h' : Same m r' r'') :
    Same m r r'' := ⟨h.1.trans h'.1, fun hm => (h.2 hm).trans (h'.2 hm)⟩

/-- `route add`. A route that is there stays. -/
def addRoute (m : Matching) (rib : List Route) (r : Route) : List Route :=
  if ∃ r' ∈ rib, Same m r' r then rib else rib ++ [r]

/-- `route delete`. -/
def deleteRoute (m : Matching) (rib : List Route) (r : Route) : List Route :=
  rib.filter fun r' => ¬Same m r' r

/-! ### The client -/

/-- `exitHalves4`. -/
def exitHalves4 : List Prefix :=
  [⟨.v4 0#32, 1, by decide, rfl⟩, ⟨.v4 0x80000000#32, 1, by decide, rfl⟩]

/-- `exitHalves6`. -/
def exitHalves6 : List Prefix :=
  [⟨.v6 0#128 "", 1, by decide, rfl⟩,
    ⟨.v6 0x80000000000000000000000000000000#128 "", 1, by decide, rfl⟩]

/-- The halves of `Apply` and of `Remove`. -/
def exitHalves (v6 : Bool) : List Prefix := if v6 then exitHalves4 ++ exitHalves6 else exitHalves4

/-- `ExitClient`. The zero address is `none`. -/
structure ExitClient where
  iface : String
  active : Bool
  v6 : Bool
  gw4 : Option Addr
  gw6 : Option Addr
  want : List Addr
  up : List Addr

/-- `defaultGateway`, by what `route get default` prints. `none` is a command that fails. -/
def defaultGateway (out : Option String) : Option Addr :=
  out.bind fun out => (out.toList.splitOn '\n').findSome? fun line =>
    let line := trimSpace line
    if "gateway:".toList.isPrefixOf line then
      parseChars (trimSpace (line.drop "gateway:".toList.length))
    else none

/-- `IsLoopback`. -/
def isLoopback (ip : Addr) : Bool :=
  match ip.unmap with
  | .v4 a => a.toNat / 2 ^ 24 = 127
  | .v6 a _ => a = 1

/-- `gwFor`. -/
def gwFor (gw4 gw6 : Option Addr) (ip : Addr) : Option Addr := if ip.is6 then gw6 else gw4

/-- The client and the routes it has added. -/
structure ExitSystem where
  client : ExitClient
  rib : List Route

namespace ExitSystem

/-- `NewExitClient`. -/
def new : ExitSystem := ⟨⟨"", false, false, none, none, [], []⟩, []⟩

/-- The bypass route of a host. -/
def hostRoute (c : ExitClient) (ip : Addr) : Route := ⟨.host ip, .gateway (gwFor c.gw4 c.gw6 ip)⟩

/-- A half of the address space. -/
def halfRoute (iface : String) (p : Prefix) : Route := ⟨.net p, .interface iface⟩

/-- One round of the first loop of `syncBypassLocked`. -/
def dropHost (m : Matching) (s : ExitSystem) (ip : Addr) : ExitSystem :=
  if ip ∈ s.client.want then s
  else ⟨{ s.client with up := s.client.up.filter (· ≠ ip) },
    deleteRoute m s.rib (hostRoute s.client ip)⟩

/-- One round of the second loop. -/
def addHost (m : Matching) (s : ExitSystem) (ip : Addr) : ExitSystem :=
  if ip ∈ s.client.up then s
  else if gwFor s.client.gw4 s.client.gw6 ip = none then s
  else ⟨{ s.client with up := s.client.up ++ [ip] }, addRoute m s.rib (hostRoute s.client ip)⟩

/-- `syncBypassLocked`. -/
def syncBypassLocked (m : Matching) (s : ExitSystem) : ExitSystem :=
  let s := s.client.up.foldl (dropHost m) s
  s.client.want.foldl (addHost m) s

/-- `Apply`, with the error it returns as `false`. `out4` and `out6` are what `route get default`
prints. -/
def apply (m : Matching) (s : ExitSystem) (iface : String) (v6 : Bool) (out4 out6 : Option String) :
    Bool × ExitSystem :=
  if s.client.active ∧ s.client.iface = iface ∧ s.client.v6 = v6 then (true, s)
  else match defaultGateway out4 with
    | none => (false, s)
    | some gw4 =>
      let s := { s with client := { s.client with gw4 := some gw4, gw6 := defaultGateway out6 } }
      let s := s.syncBypassLocked m
      let rib := (exitHalves v6).foldl (fun rib p => addRoute m rib (halfRoute iface p)) s.rib
      (true, ⟨{ s.client with iface := iface, v6 := v6, active := true }, rib⟩)

/-- The set that `SetBypassHosts` makes. -/
def wanted (ips : List (Option Addr)) : List Addr :=
  ((ips.filterMap id).filter fun ip => !isLoopback ip).map Addr.unmap |>.dedup

/-- `SetBypassHosts`. -/
def setBypassHosts (m : Matching) (s : ExitSystem) (ips : List (Option Addr)) : ExitSystem :=
  let s := { s with client := { s.client with want := wanted ips } }
  if s.client.active then s.syncBypassLocked m else s

/-- `Remove`. -/
def remove (m : Matching) (s : ExitSystem) : ExitSystem :=
  if s.client.active then
    let rib := (exitHalves s.client.v6).foldl
      (fun rib p => deleteRoute m rib (halfRoute s.client.iface p)) s.rib
    let rib := s.client.up.foldl (fun rib ip => deleteRoute m rib (hostRoute s.client ip)) rib
    ⟨{ s.client with up := [], active := false }, rib⟩
  else s

end ExitSystem

/-- The calls. -/
inductive ExitCall where
  | apply (iface : String) (v6 : Bool) (out4 out6 : Option String)
  | setBypassHosts (ips : List (Option Addr))
  | remove

namespace ExitSystem

/-- What a call leaves behind. -/
def step (m : Matching) (s : ExitSystem) : ExitCall → ExitSystem
  | .apply iface v6 out4 out6 => (s.apply m iface v6 out4 out6).2
  | .setBypassHosts ips => s.setBypassHosts m ips
  | .remove => s.remove m

end ExitSystem

/-! ### Loops over the table -/

section Rib

variable {α : Type*} {m : Matching} {f : α → Route}

theorem mem_foldl_deleteRoute {l : List α} {rib : List Route} {r : Route} :
    r ∈ l.foldl (fun rib x => deleteRoute m rib (f x)) rib ↔
      r ∈ rib ∧ ∀ x ∈ l, ¬Same m r (f x) := by
  induction l generalizing rib with
  | nil => simp
  | cons x l ih =>
    rw [List.foldl_cons, ih, deleteRoute, List.mem_filter, List.forall_mem_cons, and_assoc,
      decide_eq_true_iff]

theorem mem_addRoute_of_mem {rib : List Route} {r r' : Route} (h : r ∈ rib) :
    r ∈ addRoute m rib r' := by
  rw [addRoute]
  split_ifs
  · exact h
  · exact List.mem_append_left _ h

theorem mem_addRoute_cases {rib : List Route} {r r' : Route} (h : r ∈ addRoute m rib r') :
    r ∈ rib ∨ r = r' := by
  rw [addRoute] at h
  split_ifs at h
  · exact .inl h
  · exact (List.mem_append.mp h).imp_right List.mem_singleton.mp

/-- After an addition there is a route to the destination. -/
theorem exists_dst_addRoute (m : Matching) (rib : List Route) (r : Route) :
    ∃ r' ∈ addRoute m rib r, r'.dst = r.dst := by
  rw [addRoute]
  split_ifs with h
  · obtain ⟨r', hr', hsame⟩ := h
    exact ⟨r', hr', hsame.1⟩
  · exact ⟨r, List.mem_append_right _ (List.mem_singleton_self r), rfl⟩

theorem mem_foldl_addRoute_of_mem {l : List α} {rib : List Route} {r : Route} (h : r ∈ rib) :
    r ∈ l.foldl (fun rib x => addRoute m rib (f x)) rib := by
  induction l generalizing rib with
  | nil => exact h
  | cons x l ih => exact ih (mem_addRoute_of_mem h)

theorem mem_foldl_addRoute_cases {l : List α} {rib : List Route} {r : Route}
    (h : r ∈ l.foldl (fun rib x => addRoute m rib (f x)) rib) : r ∈ rib ∨ ∃ x ∈ l, r = f x := by
  induction l generalizing rib with
  | nil => exact .inl h
  | cons x l ih =>
    rcases ih h with h | ⟨y, hy, rfl⟩
    · exact (mem_addRoute_cases h).imp_right fun hr => ⟨x, List.mem_cons_self, hr⟩
    · exact .inr ⟨y, List.mem_cons_of_mem x hy, rfl⟩

theorem exists_dst_foldl_addRoute {l : List α} {rib : List Route} {x : α} (hx : x ∈ l) :
    ∃ r ∈ l.foldl (fun rib x => addRoute m rib (f x)) rib, r.dst = (f x).dst := by
  induction l generalizing rib with
  | nil => exact absurd hx List.not_mem_nil
  | cons y l ih =>
    rcases List.mem_cons.mp hx with rfl | hx
    · obtain ⟨r, hr, hdst⟩ := exists_dst_addRoute m rib (f x)
      refine ⟨r, ?_, hdst⟩
      rw [List.foldl_cons]
      exact mem_foldl_addRoute_of_mem hr
    · exact ih hx

end Rib

namespace ExitSystem

variable {m : Matching} {s s' : ExitSystem} {ip : Addr} {r : Route}

/-! ### Bypass routes -/

/-- The route is one of a host that is dropped. -/
def Dropped (m : Matching) (s : ExitSystem) (r : Route) : Prop :=
  ∃ ip ∈ s.client.up, ip ∉ s.client.want ∧ Same m r (hostRoute s.client ip)

/-- What the first loop does for the hosts it has gone through. -/
theorem foldl_dropHost (l : List Addr) (s : ExitSystem) :
    ∃ U R, l.foldl (dropHost m) s = ⟨{ s.client with up := U }, R⟩ ∧
      (∀ ip, ip ∈ U ↔ ip ∈ s.client.up ∧ (ip ∈ l → ip ∈ s.client.want)) ∧
      ∀ r, r ∈ R ↔ r ∈ s.rib ∧
        ∀ ip ∈ l, ip ∉ s.client.want → ¬Same m r (hostRoute s.client ip) := by
  induction l generalizing s with
  | nil => exact ⟨s.client.up, s.rib, rfl, by simp, by simp⟩
  | cons x l ih =>
    rw [List.foldl_cons, dropHost]
    split_ifs with hx
    · obtain ⟨U, R, heq, hU, hR⟩ := ih s
      refine ⟨U, R, heq, fun ip => ?_, fun r => ?_⟩
      · rw [hU, List.mem_cons]
        constructor
        · rintro ⟨hup, hl⟩
          exact ⟨hup, fun h => h.elim (fun he => he ▸ hx) hl⟩
        · rintro ⟨hup, hl⟩
          exact ⟨hup, fun h => hl (.inr h)⟩
      · rw [hR, List.forall_mem_cons]
        exact and_congr_right fun _ => ⟨fun h => ⟨fun hn => absurd hx hn, h⟩, And.right⟩
    · obtain ⟨U, R, heq, hU, hR⟩ := ih ⟨{ s.client with up := s.client.up.filter (· ≠ x) },
        deleteRoute m s.rib (hostRoute s.client x)⟩
      refine ⟨U, R, heq, fun ip => ?_, fun r => ?_⟩
      · rw [hU, List.mem_cons, List.mem_filter, decide_eq_true_iff]
        constructor
        · rintro ⟨⟨hup, hne⟩, hl⟩
          exact ⟨hup, fun h => h.elim (fun he => absurd he hne) hl⟩
        · rintro ⟨hup, hl⟩
          refine ⟨⟨hup, ?_⟩, fun h => hl (.inr h)⟩
          rintro rfl
          exact hx (hl (.inl rfl))
      · rw [hR, deleteRoute, List.mem_filter, List.forall_mem_cons, decide_eq_true_iff, and_assoc]
        exact and_congr_right fun _ => and_congr_left fun _ => ⟨fun h _ => h, fun h => h hx⟩

/-- What the second loop does for the hosts it has gone through. -/
theorem foldl_addHost (l : List Addr) (s : ExitSystem) :
    ∃ U R, l.foldl (addHost m) s = ⟨{ s.client with up := U }, R⟩ ∧
      (∀ ip ∈ s.client.up, ip ∈ U) ∧ (∀ ip ∈ U, ip ∈ s.client.up ∨ ip ∈ l) ∧
      (∀ r ∈ s.rib, r ∈ R) ∧ (∀ r ∈ R, r ∈ s.rib ∨ ∃ ip ∈ U, r = hostRoute s.client ip) ∧
      ∀ ip ∈ U, ip ∈ s.client.up ∨ ∃ r ∈ R, r.dst = .host ip := by
  induction l generalizing s with
  | nil =>
    exact ⟨s.client.up, s.rib, rfl, fun _ h => h, fun _ h => .inl h, fun _ h => h,
      fun _ h => .inl h, fun _ h => .inl h⟩
  | cons x l ih =>
    rw [List.foldl_cons, addHost]
    split_ifs with hx hgw
    · obtain ⟨U, R, heq, hkeep, hU, hrib, hR, hthere⟩ := ih s
      exact ⟨U, R, heq, hkeep, fun ip h => (hU ip h).imp_right (List.mem_cons_of_mem x), hrib, hR,
        hthere⟩
    · obtain ⟨U, R, heq, hkeep, hU, hrib, hR, hthere⟩ := ih s
      exact ⟨U, R, heq, hkeep, fun ip h => (hU ip h).imp_right (List.mem_cons_of_mem x), hrib, hR,
        hthere⟩
    · obtain ⟨U, R, heq, hkeep, hU, hrib, hR, hthere⟩ :=
        ih ⟨{ s.client with up := s.client.up ++ [x] }, addRoute m s.rib (hostRoute s.client x)⟩
      have hxU : x ∈ U := hkeep x (List.mem_append_right _ (List.mem_singleton_self x))
      refine ⟨U, R, heq, fun ip h => hkeep ip (List.mem_append_left _ h), fun ip h => ?_,
        fun r h => hrib r (mem_addRoute_of_mem h), fun r h => ?_, fun ip h => ?_⟩
      · rcases hU ip h with h | h
        · rcases List.mem_append.mp h with h | h
          · exact .inl h
          · exact .inr (List.mem_cons.mpr (.inl (List.mem_singleton.mp h)))
        · exact .inr (List.mem_cons_of_mem x h)
      · rcases hR r h with h | h
        · exact (mem_addRoute_cases h).imp_right fun hr => ⟨x, hxU, hr⟩
        · exact .inr h
      · rcases hthere ip h with h | h
        · rcases List.mem_append.mp h with h | h
          · exact .inl h
          · obtain rfl := List.mem_singleton.mp h
            obtain ⟨r, hr, hdst⟩ := exists_dst_addRoute m s.rib (hostRoute s.client ip)
            exact .inr ⟨r, hrib r hr, hdst⟩
        · exact .inr h

/-- What `syncBypassLocked` does. -/
structure Synced (m : Matching) (s s' : ExitSystem) : Prop where
  client : s'.client = { s.client with up := s'.client.up }
  up_want : ∀ ip ∈ s'.client.up, ip ∈ s.client.want
  keeps : ∀ ip ∈ s.client.up, ip ∈ s.client.want → ip ∈ s'.client.up
  old : ∀ r ∈ s.rib, ¬s.Dropped m r → r ∈ s'.rib
  new : ∀ r ∈ s'.rib, r ∈ s.rib ∧ ¬s.Dropped m r ∨
    ∃ ip ∈ s'.client.up, r = hostRoute s.client ip
  there : ∀ ip ∈ s'.client.up, ip ∈ s.client.up ∨ ∃ r ∈ s'.rib, r.dst = .host ip

theorem synced_syncBypassLocked (m : Matching) (s : ExitSystem) :
    Synced m s (s.syncBypassLocked m) := by
  rw [syncBypassLocked]
  obtain ⟨U, R, hdrop, hU, hR⟩ := foldl_dropHost (m := m) s.client.up s
  have hdropped : ∀ r, r ∈ R ↔ r ∈ s.rib ∧ ¬s.Dropped m r := by
    intro r
    rw [hR, Dropped]
    push Not
    exact Iff.rfl
  rw [hdrop]
  obtain ⟨U', R', hadd, hkeep, hU', hrib, hR', hthere⟩ :=
    foldl_addHost (m := m) s.client.want ⟨{ s.client with up := U }, R⟩
  simp only [hadd]
  refine ⟨rfl, fun ip h => ?_, fun ip h hw => ?_, fun r h hd => ?_, fun r h => ?_, fun ip h => ?_⟩
  · rcases hU' ip h with h | h
    · obtain ⟨hup, hw⟩ := (hU ip).mp h
      exact hw hup
    · exact h
  · exact hkeep ip ((hU ip).mpr ⟨h, fun _ => hw⟩)
  · exact hrib r ((hdropped r).mpr ⟨h, hd⟩)
  · exact (hR' r h).imp_left (hdropped r).mp
  · exact (hthere ip h).imp_left fun h => ((hU ip).mp h).1

/-! ### What the client remembers -/

/-- The routes that `Remove` deletes. -/
def owned (c : ExitClient) : List Route :=
  if c.active then (exitHalves c.v6).map (halfRoute c.iface) ++ c.up.map (hostRoute c) else []

theorem mem_owned {c : ExitClient} (hactive : c.active = true) :
    r ∈ owned c ↔ (∃ p ∈ exitHalves c.v6, r = halfRoute c.iface p) ∨
      ∃ ip ∈ c.up, r = hostRoute c ip := by
  rw [owned, if_pos hactive, List.mem_append, List.mem_map, List.mem_map]
  exact or_congr (exists_congr fun _ => and_congr_right fun _ => eq_comm)
    (exists_congr fun _ => and_congr_right fun _ => eq_comm)

theorem owned_of_inactive {c : ExitClient} (hactive : c.active = false) : owned c = [] :=
  if_neg (Bool.eq_false_iff.mp hactive)

/-- A destination has one route. -/
theorem eq_of_mem_owned {c : ExitClient} {r' : Route} (hr : r ∈ owned c) (hr' : r' ∈ owned c)
    (hdst : r.dst = r'.dst) : r = r' := by
  cases hactive : c.active with
  | false =>
    rw [owned_of_inactive hactive] at hr
    exact absurd hr List.not_mem_nil
  | true =>
    rcases (mem_owned hactive).mp hr with ⟨p, -, rfl⟩ | ⟨ip, -, rfl⟩ <;>
      rcases (mem_owned hactive).mp hr' with ⟨p', -, rfl⟩ | ⟨ip', -, rfl⟩
    · obtain rfl := Dst.net.inj hdst
      rfl
    · cases hdst
    · cases hdst
    · obtain rfl := Dst.host.inj hdst
      rfl

/-- Every route of the table is one that `Remove` deletes. -/
def Covered (m : Matching) (s : ExitSystem) : Prop :=
  ∀ r ∈ s.rib, ∃ r' ∈ owned s.client, Same m r r'

/-- **What `Remove` leaves behind.** -/
theorem left_remove_iff : (s.remove m).rib = [] ↔ s.Covered m := by
  rw [remove, Covered]
  cases hactive : s.client.active with
  | false =>
    rw [owned_of_inactive hactive]
    simp [List.eq_nil_iff_forall_not_mem]
  | true =>
    rw [if_pos rfl, List.eq_nil_iff_forall_not_mem]
    refine forall_congr' fun r => ?_
    rw [mem_foldl_deleteRoute, mem_foldl_deleteRoute]
    constructor
    · intro h hr
      by_contra hno
      push Not at hno
      exact h ⟨⟨hr, fun p hp => hno _ ((mem_owned hactive).mpr (.inl ⟨p, hp, rfl⟩))⟩,
        fun ip hip => hno _ ((mem_owned hactive).mpr (.inr ⟨ip, hip, rfl⟩))⟩
    · rintro h ⟨⟨hr, hhalf⟩, hhost⟩
      obtain ⟨r', hr', hsame⟩ := h hr
      rcases (mem_owned hactive).mp hr' with ⟨p, hp, rfl⟩ | ⟨ip, hip, rfl⟩
      · exact hhalf p hp hsame
      · exact hhost ip hip hsame

/-- What holds after any calls. -/
structure Inv (s : ExitSystem) : Prop where
  idle : s.client.active = false → s.client.up = []
  up_want : ∀ ip ∈ s.client.up, ip ∈ s.client.want
  there : ∀ r ∈ owned s.client, ∃ r' ∈ s.rib, r'.dst = r.dst

theorem inv_new : Inv new where
  idle _ := rfl
  up_want _ h := absurd h List.not_mem_nil
  there _ h := absurd h List.not_mem_nil

theorem inv_remove (h : s.Inv) (m : Matching) : (s.remove m).Inv := by
  rw [remove]
  split_ifs with hactive
  · refine ⟨fun _ => rfl, fun ip hip => absurd hip List.not_mem_nil, fun r hr => ?_⟩
    rw [owned_of_inactive rfl] at hr
    exact absurd hr List.not_mem_nil
  · exact h

/-- The new set of hosts of an active client. -/
theorem synced_setBypassHosts (hactive : s.client.active = true) (ips : List (Option Addr)) :
    Synced m { s with client := { s.client with want := wanted ips } }
      (s.setBypassHosts m ips) := by
  have heq : s.setBypassHosts m ips =
      ExitSystem.syncBypassLocked m { s with client := { s.client with want := wanted ips } } :=
    if_pos hactive
  rw [heq]
  exact synced_syncBypassLocked m _

theorem setBypassHosts_of_inactive (hactive : s.client.active = false) (ips : List (Option Addr)) :
    s.setBypassHosts m ips = { s with client := { s.client with want := wanted ips } } :=
  if_neg (Bool.eq_false_iff.mp hactive)

theorem inv_setBypassHosts (h : s.Inv) (m : Matching) (ips : List (Option Addr)) :
    (s.setBypassHosts m ips).Inv := by
  cases hactive : s.client.active with
  | false =>
    rw [setBypassHosts_of_inactive hactive]
    refine ⟨h.idle, fun ip hip => ?_, h.there⟩
    rw [show s.client.up = [] from h.idle hactive] at hip
    exact absurd hip List.not_mem_nil
  | true =>
    have hs := synced_setBypassHosts (m := m) hactive ips
    generalize s.setBypassHosts m ips = s' at hs
    have hactive' : s'.client.active = true := by rw [hs.client]; exact hactive
    have hthere : ∀ r ∈ owned s.client, (∀ ip ∉ wanted ips, r.dst ≠ .host ip) →
        ∃ r' ∈ s'.rib, r'.dst = r.dst := by
      intro r hr hkept
      obtain ⟨r', hr', hdst⟩ := h.there r hr
      refine ⟨r', hs.old r' hr' ?_, hdst⟩
      rintro ⟨ip, -, hw, hsame⟩
      exact hkept ip hw (hdst.symm.trans hsame.1)
    refine ⟨fun hf => absurd (hf.symm.trans hactive') Bool.false_ne_true, ?_, fun r hr => ?_⟩
    · rw [hs.client]
      exact hs.up_want
    · rw [hs.client] at hr
      rcases (mem_owned (by rw [← hs.client]; exact hactive')).mp hr with
        ⟨p, hp, rfl⟩ | ⟨ip, hip, rfl⟩
      · exact hthere _ ((mem_owned hactive).mpr (.inl ⟨p, hp, rfl⟩)) fun _ _ h => by cases h
      · rcases hs.there ip hip with hup | hnew
        · refine hthere (hostRoute s.client ip) ((mem_owned hactive).mpr (.inr ⟨ip, hup, rfl⟩)) ?_
          rintro ip' hw hdst
          obtain rfl := Dst.host.inj hdst
          exact hw (hs.up_want ip hip)
        · exact hnew

section Apply

variable {iface : String} {v6 : Bool} {out4 out6 : Option String} {gw4 gw6 : Option Addr}

/-- What a call of `Apply` does that goes through. -/
structure Applied (s : ExitSystem) (iface : String) (v6 : Bool) (gw4 gw6 : Option Addr)
    (s' : ExitSystem) : Prop where
  client : s'.client = ⟨iface, true, v6, gw4, gw6, s.client.want, s'.client.up⟩
  up_want : ∀ ip ∈ s'.client.up, ip ∈ s.client.want
  keeps : ∀ ip ∈ s.client.up, ip ∈ s'.client.up
  old : ∀ r ∈ s.rib, r ∈ s'.rib
  new : ∀ r ∈ s'.rib, r ∈ s.rib ∨ r ∈ owned s'.client
  halves : ∀ p ∈ exitHalves v6, ∃ r ∈ s'.rib, r.dst = .net p
  hosts : ∀ ip ∈ s'.client.up, ip ∈ s.client.up ∨ ∃ r ∈ s'.rib, r.dst = .host ip

theorem apply_of_same (hsame : s.client.active = true ∧ s.client.iface = iface ∧ s.client.v6 = v6) :
    s.apply m iface v6 out4 out6 = (true, s) := if_pos hsame

theorem apply_of_none
    (hother : ¬(s.client.active = true ∧ s.client.iface = iface ∧ s.client.v6 = v6))
    (hgw : defaultGateway out4 = none) : s.apply m iface v6 out4 out6 = (false, s) := by
  rw [apply, if_neg hother, hgw]

/-- An `Apply` that returns an error has done nothing. -/
theorem apply_eq_of_error (h : (s.apply m iface v6 out4 out6).1 = false) :
    (s.apply m iface v6 out4 out6).2 = s := by
  by_cases hsame : s.client.active = true ∧ s.client.iface = iface ∧ s.client.v6 = v6
  · rw [apply_of_same hsame]
  · cases hgw : defaultGateway out4 with
    | none => rw [apply_of_none hsame hgw]
    | some gw =>
      rw [apply, if_neg hsame, hgw] at h
      cases h

theorem applied_apply (h : s.Inv)
    (hother : ¬(s.client.active = true ∧ s.client.iface = iface ∧ s.client.v6 = v6)) {gw : Addr}
    (hgw : defaultGateway out4 = some gw) :
    Applied s iface v6 (some gw) (defaultGateway out6) (s.apply m iface v6 out4 out6).2 := by
  rw [apply, if_neg hother, hgw]
  have hs := synced_syncBypassLocked m
    { s with client := { s.client with gw4 := some gw, gw6 := defaultGateway out6 } }
  dsimp only
  generalize ExitSystem.syncBypassLocked m
    { s with client := { s.client with gw4 := some gw, gw6 := defaultGateway out6 } } = s₁ at hs
  have hnone : ∀ r, ¬Dropped m
      { s with client := { s.client with gw4 := some gw, gw6 := defaultGateway out6 } } r := by
    rintro r ⟨ip, hip, hw, -⟩
    exact hw (h.up_want ip hip)
  refine ⟨?_, hs.up_want, fun ip hip => hs.keeps ip hip (h.up_want ip hip), fun r hr => ?_,
    fun r hr => ?_, fun p hp => ?_, fun ip hip => ?_⟩
  · rw [hs.client]
  · exact mem_foldl_addRoute_of_mem (hs.old r hr (hnone r))
  · rcases mem_foldl_addRoute_cases hr with hr | ⟨p, hp, rfl⟩
    · rcases hs.new r hr with ⟨hr, -⟩ | ⟨ip, hip, rfl⟩
      · exact .inl hr
      · refine .inr ((mem_owned rfl).mpr (.inr ⟨ip, hip, ?_⟩))
        rw [hs.client]
        rfl
    · exact .inr ((mem_owned rfl).mpr (.inl ⟨p, hp, rfl⟩))
  · exact exists_dst_foldl_addRoute (f := halfRoute iface) hp
  · refine (hs.there ip hip).imp_right ?_
    rintro ⟨r, hr, hdst⟩
    exact ⟨r, mem_foldl_addRoute_of_mem hr, hdst⟩

/-- A call of `Apply` does nothing, or goes through. -/
theorem apply_cases (h : s.Inv) (m : Matching) (iface : String) (v6 : Bool)
    (out4 out6 : Option String) : (s.apply m iface v6 out4 out6).2 = s ∧
        (s.client.active = true ∧ s.client.iface = iface ∧ s.client.v6 = v6 ∨
          defaultGateway out4 = none) ∨
      ∃ gw, defaultGateway out4 = some gw ∧
        ¬(s.client.active = true ∧ s.client.iface = iface ∧ s.client.v6 = v6) ∧
        Applied s iface v6 (some gw) (defaultGateway out6) (s.apply m iface v6 out4 out6).2 := by
  by_cases hother : s.client.active = true ∧ s.client.iface = iface ∧ s.client.v6 = v6
  · exact .inl ⟨congrArg Prod.snd (apply_of_same hother), .inl hother⟩
  · cases hgw : defaultGateway out4 with
    | none => exact .inl ⟨congrArg Prod.snd (apply_of_none hother hgw), .inr rfl⟩
    | some gw => exact .inr ⟨gw, rfl, hother, applied_apply h hother hgw⟩

theorem Applied.active (h : Applied s iface v6 gw4 gw6 s') : s'.client.active = true := by
  rw [h.client]

theorem Applied.inv (h : Applied s iface v6 gw4 gw6 s') (hs : s.Inv) : s'.Inv := by
  refine ⟨fun hf => absurd (hf.symm.trans h.active) Bool.false_ne_true, ?_, fun r hr => ?_⟩
  · rw [h.client]
    exact h.up_want
  · rcases (mem_owned h.active).mp hr with ⟨p, hp, rfl⟩ | ⟨ip, hip, rfl⟩
    · refine h.halves p ?_
      rwa [h.client] at hp
    · rcases h.hosts ip hip with hup | hnew
      · cases hactive : s.client.active with
        | false =>
          rw [hs.idle hactive] at hup
          exact absurd hup List.not_mem_nil
        | true =>
          obtain ⟨r', hr', hdst⟩ :=
            hs.there (hostRoute s.client ip) ((mem_owned hactive).mpr (.inr ⟨ip, hup, rfl⟩))
          exact ⟨r', h.old r' hr', hdst⟩
      · exact hnew

/-- The client still remembers the routes of `c` after the call: the flag does not go back, and
where gateways matter, neither the interface nor the gateway of a host changes. -/
def Keeps (m : Matching) (c : ExitClient) (iface : String) (v6 : Bool) (gw4 gw6 : Option Addr) :
    Prop :=
  (c.v6 = true → v6 = true) ∧
    (m = .byRoute → c.iface = iface ∧ ∀ ip ∈ c.up, gwFor c.gw4 c.gw6 ip = gwFor gw4 gw6 ip)

theorem mem_exitHalves_iff {c : Bool} :
    (∀ p ∈ exitHalves c, p ∈ exitHalves v6) ↔ (c = true → v6 = true) := by
  cases c <;> cases v6 <;> decide

theorem Applied.mem_owned_iff (h : Applied s iface v6 gw4 gw6 s') :
    r ∈ owned s'.client ↔ (∃ p ∈ exitHalves v6, r = halfRoute iface p) ∨
      ∃ ip ∈ s'.client.up, r = ⟨.host ip, .gateway (gwFor gw4 gw6 ip)⟩ := by
  rw [mem_owned h.active]
  have hclient := h.client
  generalize s'.client.up = up at hclient
  rw [hclient]
  exact Iff.rfl

/-- What was remembered still is, in terms of the call. -/
theorem Applied.forall_owned_iff (h : Applied s iface v6 gw4 gw6 s')
    (hactive : s.client.active = true) :
    (∀ r ∈ owned s.client, ∃ r' ∈ owned s'.client, Same m r r') ↔
      Keeps m s.client iface v6 gw4 gw6 := by
  constructor
  · intro hall
    -- A half is kept by the half of the call, a host by its new gateway.
    have hhalf : ∀ p ∈ exitHalves s.client.v6,
        p ∈ exitHalves v6 ∧ (m = .byRoute → s.client.iface = iface) := by
      intro p hp
      obtain ⟨r', hr', hdst, hvia⟩ := hall _ ((mem_owned hactive).mpr (.inl ⟨p, hp, rfl⟩))
      rcases h.mem_owned_iff.mp hr' with ⟨p', hp', rfl⟩ | ⟨ip, -, rfl⟩
      · obtain rfl := Dst.net.inj hdst
        exact ⟨hp', fun hm => Via.interface.inj (hvia hm)⟩
      · cases hdst
    refine ⟨mem_exitHalves_iff.mp fun p hp => (hhalf p hp).1, fun hm => ⟨?_, fun ip hip => ?_⟩⟩
    · obtain ⟨p, hp⟩ : ∃ p, p ∈ exitHalves s.client.v6 := by
        cases s.client.v6 <;> exact ⟨_, List.mem_cons_self⟩
      exact (hhalf p hp).2 hm
    · obtain ⟨r', hr', hdst, hvia⟩ := hall _ ((mem_owned hactive).mpr (.inr ⟨ip, hip, rfl⟩))
      rcases h.mem_owned_iff.mp hr' with ⟨p', -, rfl⟩ | ⟨ip', -, rfl⟩
      · cases hdst
      · obtain rfl := Dst.host.inj hdst
        exact Via.gateway.inj (hvia hm)
  · rintro ⟨hv6, hvia⟩ r hr
    rcases (mem_owned hactive).mp hr with ⟨p, hp, rfl⟩ | ⟨ip, hip, rfl⟩
    · refine ⟨halfRoute iface p, h.mem_owned_iff.mpr (.inl ⟨p, ?_, rfl⟩), rfl, fun hm => ?_⟩
      · exact mem_exitHalves_iff.mpr hv6 p hp
      · exact congrArg Via.interface (hvia hm).1
    · refine ⟨_, h.mem_owned_iff.mpr (.inr ⟨ip, h.keeps ip hip, rfl⟩), rfl, fun hm => ?_⟩
      exact congrArg Via.gateway ((hvia hm).2 ip hip)

/-- Where everything is covered, everything that is remembered is there. -/
theorem Covered.exists_rib (hcov : s.Covered m) (hs : s.Inv) (hr : r ∈ owned s.client) :
    ∃ r' ∈ s.rib, Same m r' r := by
  obtain ⟨r', hr', hdst⟩ := hs.there r hr
  obtain ⟨r'', hr'', hsame⟩ := hcov r' hr'
  obtain rfl := eq_of_mem_owned hr'' hr (hsame.1.symm.trans hdst)
  exact ⟨r', hr', hsame⟩

/-- **A call that goes through**: the exact condition. -/
theorem Applied.covered_iff (h : Applied s iface v6 gw4 gw6 s') (hs : s.Inv) (hcov : s.Covered m) :
    s'.Covered m ↔ (s.client.active = true → Keeps m s.client iface v6 gw4 gw6) := by
  have hnew : s'.Covered m ↔ ∀ r ∈ owned s.client, ∃ r' ∈ owned s'.client, Same m r r' := by
    constructor
    · intro hcov' r hr
      obtain ⟨r₁, hr₁, hsame₁⟩ := hcov.exists_rib hs hr
      obtain ⟨r₂, hr₂, hsame₂⟩ := hcov' r₁ (h.old r₁ hr₁)
      exact ⟨r₂, hr₂, hsame₁.symm.trans hsame₂⟩
    · intro hall r hr
      rcases h.new r hr with hr | hr
      · obtain ⟨r₁, hr₁, hsame₁⟩ := hcov r hr
        obtain ⟨r₂, hr₂, hsame₂⟩ := hall r₁ hr₁
        exact ⟨r₂, hr₂, hsame₁.trans hsame₂⟩
      · exact ⟨r, hr, .refl m r⟩
  rw [hnew]
  cases hactive : s.client.active with
  | false =>
    rw [owned_of_inactive hactive]
    exact ⟨fun _ h => Bool.noConfusion h, fun _ r hr => absurd hr List.not_mem_nil⟩
  | true =>
    rw [h.forall_owned_iff hactive]
    exact ⟨fun hk _ => hk, fun hk => hk rfl⟩

end Apply

/-! ### Whole runs -/

theorem Inv.step (hs : s.Inv) (m : Matching) (o : ExitCall) : (s.step m o).Inv := by
  cases o with
  | apply iface v6 out4 out6 =>
    rcases apply_cases hs m iface v6 out4 out6 with ⟨heq, -⟩ | ⟨gw, -, -, happlied⟩
    · rw [ExitSystem.step, heq]
      exact hs
    · exact happlied.inv hs
  | setBypassHosts ips => exact inv_setBypassHosts hs m ips
  | remove => exact inv_remove hs m

/-- A new set of hosts leaves nothing behind. -/
theorem Covered.setBypassHosts (hcov : s.Covered m) (ips : List (Option Addr)) :
    (s.setBypassHosts m ips).Covered m := by
  cases hactive : s.client.active with
  | false =>
    rw [setBypassHosts_of_inactive hactive]
    exact hcov
  | true =>
    have hsync := synced_setBypassHosts (m := m) hactive ips
    generalize s.setBypassHosts m ips = s' at hsync
    have hactive' : s'.client.active = true := by rw [hsync.client]; exact hactive
    have howned : ∀ r, (∃ p ∈ exitHalves s.client.v6, r = halfRoute s.client.iface p) ∨
        (∃ ip ∈ s'.client.up, r = hostRoute s.client ip) → r ∈ owned s'.client := by
      intro r hr
      rw [mem_owned hactive']
      have hclient := hsync.client
      generalize s'.client.up = up at hclient hr
      rw [hclient]
      exact hr
    intro r hr
    rcases hsync.new r hr with ⟨hr, hkept⟩ | ⟨ip, hip, rfl⟩
    · obtain ⟨r', hr', hsame⟩ := hcov r hr
      rcases (mem_owned hactive).mp hr' with ⟨p, hp, rfl⟩ | ⟨ip, hip, rfl⟩
      · exact ⟨_, howned _ (.inl ⟨p, hp, rfl⟩), hsame⟩
      · by_cases hw : ip ∈ wanted ips
        · exact ⟨_, howned _ (.inr ⟨ip, hsync.keeps ip hip hw, rfl⟩), hsame⟩
        · exact absurd ⟨ip, hip, hw, hsame⟩ hkept
    · exact ⟨_, howned _ (.inr ⟨ip, hip, rfl⟩), .refl m _⟩

/-- A call of `Apply` that changes the routing of an active client keeps what it has to delete. -/
def Recoverable (m : Matching) (s : ExitSystem) : ExitCall → Prop
  | .apply iface v6 out4 out6 =>
    ∀ gw, defaultGateway out4 = some gw → s.client.active = true →
      ¬(s.client.iface = iface ∧ s.client.v6 = v6) →
      Keeps m s.client iface v6 (some gw) (defaultGateway out6)
  | _ => True

/-- **One call**: the exact condition. -/
theorem covered_step_iff (hs : s.Inv) (hcov : s.Covered m) (o : ExitCall) :
    (s.step m o).Covered m ↔ s.Recoverable m o := by
  cases o with
  | apply iface v6 out4 out6 =>
    rcases apply_cases hs m iface v6 out4 out6 with ⟨heq, hnothing⟩ | ⟨gw, hgw, hother, happlied⟩
    · rw [step, heq]
      refine ⟨fun _ gw hgw hactive hother => ?_, fun _ => hcov⟩
      rcases hnothing with hsame | hnone
      · exact absurd hsame.2 hother
      · exact absurd (hgw.symm.trans hnone) (Option.some_ne_none gw)
    · rw [step, happlied.covered_iff hs hcov, Recoverable]
      constructor
      · intro hkeeps gw' hgw' hactive _
        obtain rfl := Option.some.inj (hgw.symm.trans hgw')
        exact hkeeps hactive
      · intro hrec hactive
        exact hrec gw hgw hactive fun h => hother ⟨hactive, h⟩
  | setBypassHosts ips => exact ⟨fun _ => trivial, fun _ => hcov.setBypassHosts ips⟩
  | remove =>
    refine ⟨fun _ => trivial, fun _ r hr => ?_⟩
    rw [step, left_remove_iff.mpr hcov] at hr
    exact absurd hr List.not_mem_nil

/-- **When exit routing is fully undone**: `Remove` leaves no route at any point of a run, just when
no call of `Apply` on an active client drops IPv6 and, on a kernel that looks at the gateway too,
none changes the interface or the gateway of a bypassed host. -/
theorem fully_undone_iff (m : Matching) (ops : List ExitCall) :
    (∀ ops', ops' <+: ops → ((run (step m) new ops').remove m).rib = []) ↔
      Along (step m) (Recoverable m) new ops := by
  refine forall_prefix_iff_along (J := Inv)
    (P := fun s : ExitSystem => (s.remove m).rib = []) inv_new ?_ (fun _ o hs => hs.step m o) ?_ ops
  · exact left_remove_iff.mpr fun r hr => absurd hr List.not_mem_nil
  · intro s o hs hleft
    rw [left_remove_iff]
    exact covered_step_iff hs (left_remove_iff.mp hleft) o

/-- A call with IPv6 and a call without. The halves of IPv6 stay when the client is removed. -/
theorem left_without_v6 :
    ((run (step .byDestination) new [.apply "utun4" true (some "gateway: 192.168.1.1") none,
      .apply "utun4" false (some "gateway: 192.168.1.1") none]).remove .byDestination).rib =
        exitHalves6.map (halfRoute "utun4") := by
  decide +kernel

end ExitSystem

end Router.Darwin

end OverMesh
