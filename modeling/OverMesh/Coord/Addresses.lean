import OverMesh.Coord.Rows

/-!
# Overlay addresses over whole runs

The IPv4 addresses of a network live in two places: the rows of its nodes, and the used set of its
allocator. The rows are the truth, and the used set is a copy that is seeded from them on first
use, grows when a row is inserted and shrinks when one is deleted. `AddressInv` says that the copy
is exact, and every step of the control plane keeps it.

## Main definitions

* `HostIn` — an address of a prefix other than its first and its last
* `AddressInv` — the addresses of each network are distinct hosts of its prefix, and its allocator
  knows exactly these

## Main results

* `AddressInv.enroll`, `AddressInv.deleteNode` — the two steps that move addresses
* `addressInv_run` — **the invariant holds in every run from an empty database**
* `addressed_run` — in every such run nodes are addressed as the compiler of access rules assumes
-/

namespace OverMesh

open Netip Ipam Runs Store

/-- An IPv4 address of the prefix that is neither its first nor its last one. -/
structure HostIn (p : Prefix) (x : Addr) : Prop where
  is4 : x.is4 = true
  contains : p.contains x = true
  ne_first : x.toNat ≠ p.masked.addr.toNat
  ne_last : x.toNat ≠ p.masked.addr.toNat + 2 ^ p.hostBits - 1

/-- The IPv4 addresses of the nodes of a network. -/
def Store.addresses (s : Store) (w : ℤ) : List Addr := s.column (·.ipv4) w

/-- The addresses of each network are distinct hosts of its prefix, and if the network has an
allocator then these are the addresses it has marked. -/
structure AddressInv (c : Coordinator) : Prop where
  nodup : ∀ w, (c.st.addresses w).Nodup
  host : ∀ w, ∀ x ∈ c.st.addresses w, ∃ nw, c.st.networkByID w = some nw ∧ HostIn nw.v4Prefix x
  pool : ∀ w a, c.ipams w = some a →
    ∃ nw, c.st.networkByID w = some nw ∧ a.v4 = nw.v4Prefix.masked
  used : ∀ w a, c.ipams w = some a → a.used = (c.st.addresses w).toFinset

/-! ### Allocators -/

theorem unmap_of_is4 {x : Addr} (h : x.is4 = true) : x.unmap = x := by
  cases x with
  | v4 a => rfl
  | v6 a z => simp at h

/-- Seeding a fresh allocator marks the addresses it is given. -/
theorem used_markUsed_new {v4 v6 : Prefix} {a : Allocator} {xs : List Addr}
    (hnew : Ipam.new (some v4) (some v6) = .ok a) (hxs : ∀ x ∈ xs, x.is4 = true) :
    (a.markUsed xs).used = xs.toFinset := by
  ext x
  rw [Allocator.mem_used_markUsed, (new_ok hnew).2.2, List.mem_toFinset]
  constructor
  · rintro (hx | ⟨y, hy, rfl⟩)
    · exact absurd hx (Finset.notMem_empty x)
    · rwa [unmap_of_is4 (hxs y hy)]
  · intro hx
    exact .inr ⟨x, hx, (unmap_of_is4 (hxs x hx)).symm⟩

/-- What the allocator of a network may hand out is a host of the network's prefix. -/
theorem hostIn_of_free {p : Prefix} {a : Allocator} {x : Addr} (hv4 : a.v4 = p.masked)
    (hx : a.v4.contains x = true) (hfree : Free a.v4 a.used x) : HostIn p x := by
  have hres : ¬ isReservedV4 a.v4 x = true := by simp [hfree.2]
  rw [a.pool.isReservedV4_iff hx, not_or, hv4, Prefix.hostBits_masked] at hres
  refine ⟨(a.pool.contains_iff.mp hx).1, ?_, hres.1, hres.2⟩
  rwa [hv4, Prefix.contains_masked] at hx

/-! ### Steps -/

namespace AddressInv

variable {c c' : Coordinator} {nw : Network} {a : Allocator}

variable (h : AddressInv c)
include h

/-- The invariant reads addresses, networks and allocators only. Networks may be added and
allocators forgotten. -/
theorem congr (hst : ∀ w, c'.st.addresses w = c.st.addresses w)
    (hnet : ∀ w nw, c.st.networkByID w = some nw → c'.st.networkByID w = some nw)
    (hipams : ∀ w a, c'.ipams w = some a → c.ipams w = some a) : AddressInv c' where
  nodup w := by
    rw [hst]
    exact h.nodup w
  host w x hx := by
    rw [hst] at hx
    obtain ⟨nw, hnw, hhost⟩ := h.host w x hx
    exact ⟨nw, hnet w nw hnw, hhost⟩
  pool w a ha := by
    obtain ⟨nw, hnw, hv4⟩ := h.pool w a (hipams w a ha)
    exact ⟨nw, hnet w nw hnw, hv4⟩
  used w a ha := by
    rw [hst]
    exact h.used w a (hipams w a ha)

theorem hostIn (hnw : c.st.networkByID nw.id = some nw) {x : Addr}
    (hx : x ∈ c.st.addresses nw.id) : HostIn nw.v4Prefix x := by
  obtain ⟨nw', hnw', hhost⟩ := h.host _ x hx
  rw [hnw] at hnw'
  obtain rfl := Option.some.inj hnw'
  exact hhost

/-- A change to the addresses and the allocator of one network. -/
theorem of_network (hnw : c.st.networkByID nw.id = some nw) (hnet : c'.st.networks = c.st.networks)
    (hother : ∀ w ≠ nw.id, c'.st.addresses w = c.st.addresses w ∧ c'.ipams w = c.ipams w)
    (hnodup : (c'.st.addresses nw.id).Nodup)
    (hhost : ∀ x ∈ c'.st.addresses nw.id, HostIn nw.v4Prefix x)
    (hipam : ∀ a, c'.ipams nw.id = some a →
      a.v4 = nw.v4Prefix.masked ∧ a.used = (c'.st.addresses nw.id).toFinset) : AddressInv c' := by
  have hnet' : ∀ w, c'.st.networkByID w = c.st.networkByID w := fun w => by
    rw [networkByID, hnet]
    rfl
  refine ⟨fun w => ?_, fun w x hx => ?_, fun w a ha => ?_, fun w a ha => ?_⟩ <;>
    by_cases hw : w = nw.id
  · rwa [hw]
  · rw [(hother w hw).1]
    exact h.nodup w
  · subst hw
    exact ⟨nw, (hnet' _).trans hnw, hhost x hx⟩
  · rw [(hother w hw).1] at hx
    rw [hnet']
    exact h.host w x hx
  · subst hw
    exact ⟨nw, (hnet' _).trans hnw, (hipam a ha).1⟩
  · rw [(hother w hw).2] at ha
    rw [hnet']
    exact h.pool w a ha
  · subst hw
    exact (hipam a ha).2
  · rw [(hother w hw).2] at ha
    rw [(hother w hw).1]
    exact h.used w a ha

/-- Fresh or not, the allocator a network gets has marked the addresses of its nodes. -/
theorem allocates (hnw : c.st.networkByID nw.id = some nw) (ha : c.Allocates nw a) :
    a.v4 = nw.v4Prefix.masked ∧ a.used = (c.st.addresses nw.id).toFinset := by
  rcases ha with hin | ⟨-, a₀, hnew, rfl⟩
  · obtain ⟨nw', hnw', hv4⟩ := h.pool _ _ hin
    rw [hnw] at hnw'
    obtain rfl := Option.some.inj hnw'
    exact ⟨hv4, h.used _ _ hin⟩
  · exact ⟨(new_ok hnew).1, used_markUsed_new hnew fun x hx => (h.hostIn hnw hx).is4⟩

/-- A row whose address the allocator just handed out. -/
theorem grow (hnw : c.st.networkByID nw.id = some nw) (ha : c.Allocates nw a)
    {v4 : Addr} (h4 : a.allocateV4.1 = .ok v4) (hnet : c'.st.networks = c.st.networks)
    (hst : ∀ w, c'.st.addresses w = c.st.addresses w ++ if nw.id = w then [v4] else [])
    (hipams : c'.ipams = Function.update c.ipams nw.id (some a.allocateV4.2)) : AddressInv c' := by
  obtain ⟨hv4, hused⟩ := h.allocates hnw ha
  obtain ⟨hmem, hfree, hmark⟩ := Allocator.allocateV4_ok h4
  have hnew : v4 ∉ c.st.addresses nw.id := by
    have := hfree.1
    rwa [hused, List.mem_toFinset] at this
  have hself : c'.st.addresses nw.id = c.st.addresses nw.id ++ [v4] := by rw [hst, if_pos rfl]
  refine h.of_network hnw hnet (fun w hw => ⟨?_, ?_⟩) ?_ ?_ ?_
  · rw [hst, if_neg (Ne.symm hw), List.append_nil]
  · rw [hipams, Function.update_of_ne hw]
  · rw [hself]
    rw [← List.concat_eq_append]
    exact (h.nodup _).concat hnew
  · intro x hx
    rw [hself, List.mem_append, List.mem_singleton] at hx
    rcases hx with hx | rfl
    · exact h.hostIn hnw hx
    · exact hostIn_of_free hv4 hmem hfree
  · intro b hb
    rw [hipams, Function.update_self] at hb
    obtain rfl := Option.some.inj hb
    refine ⟨hv4, ?_⟩
    rw [hmark, hused, hself]
    ext x
    simp only [Finset.mem_insert, List.mem_toFinset, List.mem_append, List.mem_singleton]
    exact or_comm

theorem notify (w : ℤ) : AddressInv (c.notifyNetworkLocked w) :=
  h.congr (fun w => by rw [Coordinator.st_notifyNetworkLocked])
    (fun w nw hnw => by rwa [Coordinator.st_notifyNetworkLocked])
    (fun w a ha => by rwa [Coordinator.ipams_notifyNetworkLocked] at ha)

/-- A quiet step moves no address. -/
theorem quiet (hq : Quiet c c') : AddressInv c' := by
  refine h.congr ?_ ?_ ?_
  · refine column_eq_of_map_eq hq.nodes ?_
    intro n n' he
    exact ⟨congrArg (·.networkID) he, congrArg (·.ipv4) he⟩
  · intro w nw hnw
    rw [networkByID, hq.networks]
    exact hnw
  · intro w a ha
    rwa [hq.ipams] at ha

/-- **Enrolment**, however it ends. -/
theorem enroll {now : ℤ} {req : RegisterRequest} {owner : ℤ}
    (hnw : c.st.networkByID nw.id = some nw) {res : RegisterResult × Coordinator}
    (hres : Coordinator.EnrollResult c now req nw owner res) : AddressInv res.2 := by
  -- the new row ends the column of its network, whatever its IPv6 address
  have hrow : ∀ {v4 : Addr} {st : Store} {n : Node},
      c.st.createNode now (Coordinator.enrolledNode c.st req nw owner v4) = some (st, n) →
      st.networks = c.st.networks ∧
        ∀ w, st.addresses w = c.st.addresses w ++ if nw.id = w then [v4] else [] := by
    intro v4 st n hn
    obtain ⟨rfl, -, -, hnet, -⟩ := createNode_spec hn
    exact ⟨hnet, fun w => column_createNode hn⟩
  cases hres with
  | refused _ => exact h
  | exhausted ha h4 =>
    obtain ⟨-, halloc⟩ := Coordinator.allocatorFor_ok ha
    obtain ⟨hv4, hused⟩ := h.allocates hnw halloc
    rw [(Allocator.allocateV4_error h4).2]
    refine h.of_network hnw rfl (fun w hw => ⟨rfl, Function.update_of_ne hw _ _⟩) (h.nodup _)
      (fun x hx => h.hostIn hnw hx) ?_
    intro b hb
    simp only [Function.update_self, Option.some.injEq] at hb
    subst hb
    exact ⟨hv4, hused⟩
  | halfBuilt ha h4 hn h6 =>
    obtain ⟨-, halloc⟩ := Coordinator.allocatorFor_ok ha
    obtain ⟨hnet, hst⟩ := hrow hn
    exact h.grow hnw halloc h4 hnet hst rfl
  | enrolled ha h4 hn h6 hnodes hnetworks hkeys hacl hroutes =>
    obtain ⟨-, halloc⟩ := Coordinator.allocatorFor_ok ha
    obtain ⟨hnet, hst⟩ := hrow hn
    refine (h.grow hnw halloc h4 (hnetworks.trans hnet) ?_ rfl).notify _
    intro w
    rw [← hst w]
    exact (column_congr hnodes).trans (column_updateNodeIPv6 fun _ => rfl)

/-- Every call of `Register` keeps the invariant. -/
theorem register (now : ℤ) (req : RegisterRequest) : AddressInv (c.register now req).2 := by
  generalize hres : c.register now req = res
  have hout := Coordinator.register_spec c now req
  rw [hres] at hout
  cases hout with
  | rejected _ => exact h
  | @returning routes n hroutes hn =>
    obtain ⟨st, name, nw, -, hnodes, -, hnet, -, -, -, heq⟩ :=
      Coordinator.reRegister_spec req routes (nodeByMachineKey_eq_some_iff.mp hn).1
    rw [heq]
    have hc : AddressInv { c with st := st } := by
      refine h.congr ?_ ?_ fun _ _ => id
      · intro w
        exact (column_congr hnodes).trans (column_updateNodeOnRegister fun _ => rfl)
      · intro w nw hnw
        rw [networkByID, hnet]
        exact hnw
    exact hc.notify _
  | @enrolling routes k nw _ hroutes hmk hkey hread hnw hres =>
    have hc : AddressInv { c with st := c.st.chargeSetupKey k } :=
      h.congr (fun _ => rfl) (fun _ _ => id) fun _ _ => id
    refine hc.enroll ?_ hres
    rw [(AutoTable.byId_eq_some_iff.mp hnw).2]
    exact hnw

/-- The allocator a deletion finds has marked the addresses that remain. If it was there before, it
has the deleted one as well. -/
theorem allocates_deleted (hnw : c.st.networkByID nw.id = some nw) {st : Store}
    {y : Addr} (hst : ∀ x, x ∈ st.addresses nw.id ↔ x ∈ c.st.addresses nw.id ∧ x ≠ y)
    (ha : ({ c with st := st } : Coordinator).Allocates nw a) :
    a.v4 = nw.v4Prefix.masked ∧ ∀ x ≠ y, x ∈ a.used ↔ x ∈ st.addresses nw.id := by
  rcases ha with hin | ⟨-, a₀, hnew, rfl⟩
  · obtain ⟨hv4, hused⟩ := h.allocates hnw (.inl hin)
    refine ⟨hv4, ?_⟩
    intro x hx
    rw [hused, List.mem_toFinset, hst]
    exact (and_iff_left hx).symm
  · refine ⟨(new_ok hnew).1, ?_⟩
    intro x _
    rw [← List.mem_toFinset]
    exact Finset.ext_iff.mp (used_markUsed_new hnew fun x hx =>
      (h.hostIn hnw ((hst x).mp hx).1).is4) x

/-- **Deletion** frees the address of the node and no other, whether the allocator was there
before or is seeded after the row is gone. -/
theorem deleteNode (id : ℤ) : AddressInv (c.deleteNode id).2 := by
  rcases Coordinator.deleteNode_spec c id with
    ⟨-, heq⟩ | ⟨n, st, nw, ipams, hn, hst, hnw, hipams, heq⟩
  · rw [heq]
    exact h
  rw [heq]
  apply AddressInv.notify
  have hnet := (deleteNode_spec hst).2.1
  obtain ⟨-, hid⟩ := AutoTable.byId_eq_some_iff.mp hnw
  have hnw' : c.st.networkByID nw.id = some nw := by
    rw [hid, ← hnw, networkByID, ← hnet]
    rfl
  have hown : n.ipv4 ∈ c.st.addresses nw.id :=
    mem_column.mpr ⟨n, (nodeByID_eq_some_iff.mp hn).1, hid.symm, rfl⟩
  have hleft : ∀ x, x ∈ st.addresses nw.id ↔ x ∈ c.st.addresses nw.id ∧ x ≠ n.ipv4 := by
    intro x
    rw [addresses, mem_column_deleteNode hst hn (h.nodup _)]
    simp only [hid, true_and]
    rfl
  refine h.of_network hnw' hnet (fun w hw => ⟨?_, ?_⟩) ?_ ?_ ?_
  · exact column_deleteNode_of_ne hst hn (by rwa [← hid])
  · rcases hipams with ⟨-, rfl⟩ | ⟨a, -, rfl⟩
    · rfl
    · exact Function.update_of_ne hw _ _
  · exact (h.nodup _).sublist (column_deleteNode_sublist hst)
  · intro x hx
    exact h.hostIn hnw' ((hleft x).mp hx).1
  · intro b hb
    dsimp only at hb ⊢
    rcases hipams with ⟨hnone, rfl⟩ | ⟨a, halloc, rfl⟩
    · rw [hnone] at hb
      cases hb
    · rw [Function.update_self] at hb
      obtain rfl := Option.some.inj hb
      obtain ⟨hv4, hused⟩ := h.allocates_deleted hnw' hleft halloc
      refine ⟨hv4, ?_⟩
      ext x
      rw [Allocator.mem_used_release, unmap_of_is4 (h.hostIn hnw' hown).is4, List.mem_toFinset]
      constructor
      · rintro ⟨hne, hx⟩
        exact (hused x hne).mp hx
      · intro hx
        have hne := ((hleft x).mp hx).2
        exact ⟨hne, (hused x hne).mpr hx⟩

/-- A restart forgets the allocators. -/
theorem restart (stunServers relays : List String) (dnsBase : String) :
    AddressInv (Coordinator.new c.st stunServers relays dnsBase) :=
  h.congr (fun _ => rfl) (fun _ _ => id) fun _ _ ha => by cases ha

theorem ensureNetwork (name : String) (v4 v6 : Prefix) :
    AddressInv { c with st := c.st.ensureNetwork name v4 v6 } := by
  refine h.congr (fun w => column_congr ?_) ?_ fun _ _ => id
  · exact nodes_ensureNetwork
  · intro w nw hnw
    exact networkByID_ensureNetwork hnw

end AddressInv

/-- **Every step keeps the invariant.** -/
theorem addressInv_step (s : System) (op : Op) (h : AddressInv s.c) : AddressInv (s.step op).c := by
  rcases step_cases s op with hq | ⟨now, req, -, heq⟩ | ⟨id, -, heq⟩ | ⟨name, v4, v6, -, heq⟩ | heq
  · exact h.quiet hq
  · rw [heq]
    exact h.register now req
  · rw [heq]
    exact h.deleteNode id
  · rw [heq]
    exact h.ensureNetwork name v4 v6
  · rw [heq]
    exact h.restart _ _ _

theorem addressInv_start (stunServers relays : List String) (dnsBase : String) :
    AddressInv (System.start .empty stunServers relays dnsBase).c := by
  refine ⟨fun w => List.nodup_nil, ?_, ?_, ?_⟩
  · intro w x hx
    cases hx
  · intro w a ha
    cases ha
  · intro w a ha
    cases ha

/-- **Address assignment over whole runs.** Whatever happens to a server that starts on an empty
database, the nodes of each network have distinct IPv4 addresses, each inside the prefix of the
network and neither its first nor its last address, and the used set of an allocator is the set of
addresses of the nodes of its network. -/
theorem addressInv_run (stunServers relays : List String) (dnsBase : String) (ops : List Op) :
    AddressInv (run System.step (System.start .empty stunServers relays dnsBase) ops).c :=
  run_induction (P := fun s : System => AddressInv s.c) (addressInv_start _ _ _)
    addressInv_step ops

/-! ### Both families -/

/-- Every row has an IPv4 address, and an IPv6 address or its stand-in. -/
def AddressedInv (st : Store) : Prop := ∀ n ∈ st.nodes.rows, n.Addressed

theorem addressedInv_step (s : System) (op : Op) (h : AddressedInv s.c.st) :
    AddressedInv (s.step op).c.st := by
  intro n' hn'
  have hrows := step_rows s op
  generalize (s.step op).c.st.nodes.rows = rows at hrows hn'
  cases hrows with
  | quiet hstable =>
    obtain ⟨n, hn, he⟩ := exists_stable_eq hstable hn'
    have h4 : n.ipv4 = n'.ipv4 := congrArg (·.ipv4) he
    have h6 : n.ipv6 = n'.ipv6 := congrArg (·.ipv6) he
    have haddr := h n hn
    rwa [Node.Addressed, h4, h6] at haddr
  | returned now req hn =>
    obtain ⟨n, hn, rfl⟩ := List.mem_map.mp hn'
    split_ifs
    · rw [Node.Addressed, Node.ipv4_returned, Node.ipv6_returned]
      exact h n hn
    · exact h n hn
  | @enrolled now ownerID req nw k a v4 v6 _ _ _ _ h4 h6 =>
    rcases List.mem_append.mp hn' with hn' | hn'
    · exact h n' hn'
    · rw [List.mem_singleton.mp hn']
      refine ⟨(a.pool.contains_iff.mp (Allocator.allocateV4_ok h4).1).1, h6.imp id fun h6 => ?_⟩
      obtain ⟨his6, hzone, -⟩ := Allocator.allocateV6For_ok h6
      exact ⟨his6, hzone⟩
  | deleted id => exact h n' (List.mem_of_mem_filter hn')

/-- **Nodes are addressed** as the compiler of access rules assumes, in every run from an empty
database. -/
theorem addressed_run (stunServers relays : List String) (dnsBase : String) (ops : List Op) :
    AddressedInv
      (run System.step (System.start .empty stunServers relays dnsBase) ops).c.st := by
  refine run_induction (P := fun s : System => AddressedInv s.c.st) ?_ addressedInv_step ops
  intro n hn
  cases hn

end OverMesh
