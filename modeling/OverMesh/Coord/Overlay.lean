import OverMesh.Coord.Addresses
import OverMesh.Coord.Rows
import OverMesh.Policy

/-!
# Distinct overlay addresses

The compiler of access rules identifies a device with its two overlay addresses. IPv4 addresses are
distinct because the allocator keeps track of them. IPv6 addresses are computed from the row id, and
they are distinct because the prefix leaves room for every id.

The latter depends on the prefix, so this is about the networks there are: `main` makes one, with
the default prefixes.

## Main definitions

* `Op.ByMain` — networks are made by `main` only
* `OverlayInv` — the IPv6 address of a node is computed from its id

## Main result

* `addressing_run` — **in every run of the server the nodes are addressed as the compiler of access
  rules assumes**
-/

namespace OverMesh

open Netip Ipam Runs

/-- The step does not make a network, or it is the one that `main` makes. -/
def Op.ByMain : Op → Prop
  | .ensureNetwork name v4 v6 =>
    name = "default" ∧ v4 = defaultIPv4Prefix ∧ v6 = defaultIPv6Prefix
  | _ => True

instance : (op : Op) → Decidable op.ByMain
  | .ensureNetwork name v4 v6 => inferInstanceAs
      (Decidable (name = "default" ∧ v4 = defaultIPv4Prefix ∧ v6 = defaultIPv6Prefix))
  | .register .. | .updateEndpoints .. | .subscribe .. | .unsubscribe .. | .recv _ | .deleteNode _
  | .setRouteApproved .. | .setACL .. | .aclChanged _ | .signalSubscribe _ | .signalUnsubscribe _
  | .routeSignal .. | .recvSignal _ | .newSetupKey .. | .revokeSetupKey _ | .restart =>
    isTrue trivial

/-- The IPv6 address of the node was computed from its id, or the IPv4 address still stands in. -/
def Node.Derived (n : Node) : Prop :=
  n.ipv6 = n.ipv4 ∨ ∃ a : Allocator, a.v6 = defaultIPv6Prefix.masked ∧
    a.allocateV6For n.id.toNat = .ok n.ipv6

theorem Node.Derived.congr {n m : Node} (h : n.Derived) (hid : m.id = n.id)
    (h4 : m.ipv4 = n.ipv4) (h6 : m.ipv6 = n.ipv6) : m.Derived := by
  rw [Node.Derived, hid, h4, h6]
  exact h

/-- The one network, its allocator and its nodes. -/
structure OverlayInv (c : Coordinator) : Prop where
  networks : ∀ nw ∈ c.st.networks.rows, nw.name = "default" ∧ nw.v6Prefix = defaultIPv6Prefix
  pool : ∀ w a, c.ipams w = some a → a.v6 = defaultIPv6Prefix.masked
  rows : ∀ n ∈ c.st.nodes.rows, n.Derived

/-! ### Networks and allocators -/

/-- The step makes no network, and the allocators there are have the IPv6 prefix they had or the one
of their network. -/
structure KeepsPools (c c' : Coordinator) : Prop where
  networks : c'.st.networks = c.st.networks
  pool : ∀ w a', c'.ipams w = some a' → (∃ a, c.ipams w = some a ∧ a'.v6 = a.v6) ∨
    ∃ nw ∈ c.st.networks.rows, a'.v6 = nw.v6Prefix.masked

namespace KeepsPools

variable {c c' : Coordinator}

theorem of_eq (hnet : c'.st.networks = c.st.networks) (hipams : c'.ipams = c.ipams) :
    KeepsPools c c' where
  networks := hnet
  pool w a' ha := .inl ⟨a', by rwa [hipams] at ha, rfl⟩

/-- Where the IPv6 prefix of an allocator comes from. -/
theorem v6_of_allocates {nw : Network} {a b : Allocator} (hnw : nw ∈ c.st.networks.rows)
    (ha : c.Allocates nw a) (hb : b.v6 = a.v6) : (∃ a, c.ipams nw.id = some a ∧ b.v6 = a.v6) ∨
      ∃ w ∈ c.st.networks.rows, b.v6 = w.v6Prefix.masked := by
  rcases ha with hin | ⟨-, a₀, hnew, rfl⟩
  · exact .inl ⟨a, hin, hb⟩
  · exact .inr ⟨nw, hnw, hb.trans (new_ok hnew).2.1⟩

/-- The allocator of one network is replaced. -/
theorem update {w : ℤ} {b : Allocator} (hnet : c'.st.networks = c.st.networks)
    (hipams : c'.ipams = Function.update c.ipams w (some b))
    (hb : (∃ a, c.ipams w = some a ∧ b.v6 = a.v6) ∨
      ∃ nw ∈ c.st.networks.rows, b.v6 = nw.v6Prefix.masked) : KeepsPools c c' where
  networks := hnet
  pool v a' ha' := by
    rw [hipams] at ha'
    by_cases hv : v = w
    · subst hv
      rw [Function.update_self, Option.some.injEq] at ha'
      rw [← ha']
      exact hb
    · rw [Function.update_of_ne hv] at ha'
      exact .inl ⟨a', ha', rfl⟩

theorem notify (h : KeepsPools c c') (w : ℤ) : KeepsPools c (c'.notifyNetworkLocked w) where
  networks := by
    rw [Coordinator.st_notifyNetworkLocked]
    exact h.networks
  pool v a' ha := by
    rw [Coordinator.ipams_notifyNetworkLocked] at ha
    exact h.pool v a' ha

theorem enroll {now ownerID : ℤ} {req : RegisterRequest} {nw : Network}
    {res : RegisterResult × Coordinator} (hnw : nw ∈ c.st.networks.rows)
    (h : Coordinator.EnrollResult c now req nw ownerID res) : KeepsPools c res.2 := by
  cases h with
  | refused _ => exact .of_eq rfl rfl
  | exhausted ha _ =>
    exact .update rfl rfl (v6_of_allocates hnw (Coordinator.allocatorFor_ok ha).2
      Allocator.v6_allocateV4)
  | halfBuilt ha _ hn _ =>
    exact .update (Store.createNode_spec hn).2.2.2.1 rfl
      (v6_of_allocates hnw (Coordinator.allocatorFor_ok ha).2 Allocator.v6_allocateV4)
  | enrolled ha _ hn _ _ hnet =>
    refine (update (hnet.trans (Store.createNode_spec hn).2.2.2.1) rfl ?_).notify _
    exact v6_of_allocates hnw (Coordinator.allocatorFor_ok ha).2 Allocator.v6_allocateV4

theorem register (c : Coordinator) (now : ℤ) (req : RegisterRequest) :
    KeepsPools c (c.register now req).2 := by
  have hspec := Coordinator.register_spec c now req
  generalize c.register now req = res at hspec ⊢
  cases hspec with
  | rejected _ => exact .of_eq rfl rfl
  | returning _ hn =>
    obtain ⟨st, name, nw, -, -, -, hnet, -, -, -, heq⟩ :=
      Coordinator.reRegister_spec req _ (Store.nodeByMachineKey_eq_some_iff.mp hn).1
    rw [heq]
    have hkeep : KeepsPools c { c with st := st } := .of_eq hnet rfl
    exact hkeep.notify _
  | @enrolling _ k _ _ _ _ _ _ hnw hres =>
    have h := enroll (c := { c with st := c.st.chargeSetupKey k })
      (AutoTable.byId_eq_some_iff.mp hnw).1 hres
    exact ⟨h.networks, h.pool⟩

theorem deleteNode (c : Coordinator) (id : ℤ) : KeepsPools c (c.deleteNode id).2 := by
  rcases c.deleteNode_spec id with ⟨-, heq⟩ | ⟨n, st, nw, ipams, -, hst, hnw, hipams, heq⟩
  · rw [heq]
    exact .of_eq rfl rfl
  · rw [heq]
    apply KeepsPools.notify
    have hnet := (Store.deleteNode_spec hst).2.1
    have hmem : nw ∈ c.st.networks.rows := by
      rw [← hnet]
      exact (AutoTable.byId_eq_some_iff.mp hnw).1
    rcases hipams with ⟨-, rfl⟩ | ⟨a, ha, rfl⟩
    · exact .of_eq hnet rfl
    · refine .update hnet rfl ?_
      have hv6 := v6_of_allocates (c := { c with st := st }) (by rw [hnet]; exact hmem) ha
        (Allocator.v6_release n.ipv4)
      rwa [hnet] at hv6

end KeepsPools

/-! ### Steps -/

namespace OverlayInv

variable {c c' : Coordinator}

theorem v6_of_keepsPools (h : OverlayInv c) {w : ℤ} {b : Allocator}
    (hb : (∃ a, c.ipams w = some a ∧ b.v6 = a.v6) ∨
      ∃ nw ∈ c.st.networks.rows, b.v6 = nw.v6Prefix.masked) : b.v6 = defaultIPv6Prefix.masked := by
  rcases hb with ⟨a, ha, hv6⟩ | ⟨nw, hnw, hv6⟩
  · exact hv6.trans (h.pool w a ha)
  · rw [hv6, (h.networks nw hnw).2]

/-- New rows are derived, and what changes of the others is not their addresses. -/
theorem derived_of_rowChange (h : OverlayInv c) {op : Op} {rows : List Node}
    (hrows : RowChange c op rows) : ∀ n ∈ rows, n.Derived := by
  cases hrows with
  | quiet hstable =>
    intro n hn
    obtain ⟨m, hm, he⟩ := exists_stable_eq hstable hn
    exact (h.rows m hm).congr (congrArg (·.id) he).symm (congrArg (·.ipv4) he).symm
      (congrArg (·.ipv6) he).symm
  | returned now req hn =>
    intro n hn'
    obtain ⟨m, hm, rfl⟩ := List.mem_map.mp hn'
    split_ifs
    · exact (h.rows m hm).congr Node.id_returned Node.ipv4_returned Node.ipv6_returned
    · exact h.rows m hm
  | @enrolled now ownerID req nw k a v4 v6 hmk hread hnw ha h4 h6 =>
    have hv6 := h.v6_of_keepsPools (KeepsPools.v6_of_allocates
      (AutoTable.byId_eq_some_iff.mp hnw).1 ha Allocator.v6_allocateV4)
    intro n hn
    rcases List.mem_append.mp hn with hn | hn
    · exact h.rows n hn
    · rw [List.mem_singleton.mp hn]
      exact h6.imp_right fun h6 => ⟨a.allocateV4.2, hv6, h6⟩
  | deleted id =>
    intro n hn
    exact h.rows n (List.mem_of_mem_filter hn)

theorem of_keepsPools (h : OverlayInv c) (hk : KeepsPools c c')
    {op : Op} (hrows : RowChange c op c'.st.nodes.rows) : OverlayInv c' where
  networks := by
    rw [hk.networks]
    exact h.networks
  pool w a ha := h.v6_of_keepsPools (hk.pool w a ha)
  rows := h.derived_of_rowChange hrows

theorem ensureNetwork (h : OverlayInv c) : OverlayInv { c with
      st := c.st.ensureNetwork "default" defaultIPv4Prefix defaultIPv6Prefix } where
  networks nw hnw := by
    rw [Store.ensureNetwork] at hnw
    split at hnw
    · exact h.networks nw hnw
    · next t ht =>
      rcases (AutoTable.mem_insert? ht).mp hnw with hnw | rfl
      · exact h.networks nw hnw
      · exact ⟨rfl, rfl⟩
  pool := h.pool
  rows n hn := by
    rw [Store.nodes_ensureNetwork] at hn
    exact h.rows n hn

theorem step {s : System} {op : Op} (h : OverlayInv s.c) (hop : op.ByMain) :
    OverlayInv (s.step op).c := by
  have hrows := step_rows s op
  rcases step_cases s op with hq | ⟨now, req, -, heq⟩ | ⟨id, -, heq⟩ |
    ⟨name, v4, v6, rfl, heq⟩ | heq
  · exact h.of_keepsPools (.of_eq hq.networks hq.ipams) hrows
  · rw [heq] at hrows ⊢
    exact h.of_keepsPools (.register s.c now req) hrows
  · rw [heq] at hrows ⊢
    exact h.of_keepsPools (.deleteNode s.c id) hrows
  · obtain ⟨rfl, rfl, rfl⟩ := hop
    rw [heq]
    exact h.ensureNetwork
  · rw [heq]
    exact ⟨h.networks, fun w a ha => (by cases ha), h.rows⟩

/-- There is one network, so all nodes are in it. -/
theorem networkID_eq (h : OverlayInv c) {n m : Node} (hn : n ∈ c.st.nodes.rows)
    (hm : m ∈ c.st.nodes.rows) : n.networkID = m.networkID := by
  obtain ⟨v, hv, hvn⟩ := c.st.nodes_fk n hn
  obtain ⟨w, hw, hwm⟩ := c.st.nodes_fk m hm
  have hvw := c.st.networks.eq_of_uniq_eq hv hw (b := "default") (congrArg some (h.networks v hv).1)
    (congrArg some (h.networks w hw).1)
  rw [← hvn, ← hwm, hvw]

end OverlayInv

/-! ### Distinct addresses -/

section Distinct

variable {c : Coordinator}

/-- Two nodes with one IPv6 address are one node. -/
theorem OverlayInv.eq_of_ipv6_eq (h : OverlayInv c)
    (hids : ∀ n ∈ c.st.nodes.rows, n.id < 2 ^ 63) {n m : Node} (hn : n ∈ c.st.nodes.rows)
    (hm : m ∈ c.st.nodes.rows) (hn4 : n.ipv6 ≠ n.ipv4) (hm4 : m.ipv6 ≠ m.ipv4)
    (heq : n.ipv6 = m.ipv6) : n = m := by
  obtain ⟨a, ha, hna⟩ := (h.rows n hn).resolve_left hn4
  obtain ⟨b, hb, hmb⟩ := (h.rows m hm).resolve_left hm4
  rw [← heq] at hmb
  have hbits : a.v6.bits ≤ 64 := by
    rw [ha]
    decide
  have hid : n.id.toNat = m.id.toNat := by
    have hnid := hids n hn
    have hmid := hids m hm
    exact Allocator.allocateV6For_inj (ha.trans hb.symm) hbits (by omega) (by omega) hna hmb
  have hpos : ∀ k ∈ c.st.nodes.rows, 0 < k.id := fun k hk => c.st.nodes.id_pos k hk
  have hnpos := hpos n hn
  have hmpos := hpos m hm
  exact c.st.nodes.eq_of_id_eq hn hm (by omega)

/-- Two nodes of a network with one IPv4 address are one node. -/
theorem AddressInv.eq_of_ipv4_eq (h : AddressInv c) {w : ℤ} {n m : Node}
    (hn : n ∈ c.st.nodesInNetwork w) (hm : m ∈ c.st.nodesInNetwork w) (heq : n.ipv4 = m.ipv4) :
    n = m :=
  List.inj_on_of_nodup_map (h.nodup w) hn hm heq

theorem distinctOverlay (h4 : AddressInv c) (haddr : AddressedInv c.st) (h6 : OverlayInv c)
    (hids : ∀ n ∈ c.st.nodes.rows, n.id < 2 ^ 63) (w : ℤ) :
    DistinctOverlay (c.st.nodesInNetwork w) := by
  intro n hn m hm a han ham
  have hnrow := (Store.mem_nodesInNetwork.mp hn).1
  have hmrow := (Store.mem_nodesInNetwork.mp hm).1
  -- An address of the one family is not one of the other.
  have hmixed : ∀ {k l : Node}, k ∈ c.st.nodes.rows → l ∈ c.st.nodes.rows → l.ipv6 ≠ l.ipv4 →
      k.ipv4 ≠ l.ipv6 := by
    intro k l hk hl hne heq
    have his4 := (haddr k hk).1
    have his6 := ((haddr l hl).2.resolve_left hne).1
    rw [heq] at his4
    cases hv : l.ipv6 <;> simp_all [Addr.is6]
  rw [Node.overlayIPs, List.mem_cons, List.mem_singleton] at han ham
  by_cases hn4 : n.ipv6 = n.ipv4 <;> by_cases hm4 : m.ipv6 = m.ipv4
  · rw [hn4, or_self] at han
    rw [hm4, or_self] at ham
    exact h4.eq_of_ipv4_eq hn hm (han.symm.trans ham)
  · rw [hn4, or_self] at han
    rcases ham with ham | ham
    · exact h4.eq_of_ipv4_eq hn hm (han.symm.trans ham)
    · exact absurd (han.symm.trans ham) (hmixed hnrow hmrow hm4)
  · rw [hm4, or_self] at ham
    rcases han with han | han
    · exact h4.eq_of_ipv4_eq hn hm (han.symm.trans ham)
    · exact absurd (ham.symm.trans han) (hmixed hmrow hnrow hn4)
  · rcases han with han | han <;> rcases ham with ham | ham
    · exact h4.eq_of_ipv4_eq hn hm (han.symm.trans ham)
    · exact absurd (han.symm.trans ham) (hmixed hnrow hmrow hm4)
    · exact absurd (ham.symm.trans han) (hmixed hmrow hnrow hn4)
    · exact h6.eq_of_ipv6_eq hids hnrow hmrow hn4 hm4 (han.symm.trans ham)

end Distinct

/-! ### Runs -/

theorem overlayInv_run (stunServers relays : List String) (dnsBase : String) {ops : List Op}
    (hmain : ∀ op ∈ ops, op.ByMain) :
    OverlayInv (run System.step (System.start .empty stunServers relays dnsBase) ops).c := by
  refine run_induction_along (P := fun s : System => OverlayInv s.c) ?_ ?_
    (along_of_forall (C := fun _ op => op.ByMain) (fun op hop _ => hmain op hop) _)
  · exact ⟨fun _ h => absurd h List.not_mem_nil, fun w a ha => (by cases ha),
      fun _ h => absurd h List.not_mem_nil⟩
  · intro s op h hop
    exact h.step hop

/-- **Nodes are addressed** as the compiler of access rules assumes, in every run of the server from
an empty database, as long as row ids are 64-bit numbers. -/
theorem addressing_run (stunServers relays : List String) (dnsBase : String) {ops : List Op}
    (hmain : ∀ op ∈ ops, op.ByMain) {st : Store}
    (hst : st = (run System.step (System.start .empty stunServers relays dnsBase) ops).c.st)
    (hids : ∀ n ∈ st.nodes.rows, n.id < 2 ^ 63) (w : ℤ) : Addressing (st.nodesInNetwork w) := by
  subst hst
  have haddr := addressed_run stunServers relays dnsBase ops
  have hinv := run_induction (P := fun s : System => AddressInv s.c)
    (addressInv_start stunServers relays dnsBase) addressInv_step ops
  refine ⟨AutoTable.ascending _ |>.filter _, ?_, ?_⟩
  · intro n hn
    exact haddr n (Store.mem_nodesInNetwork.mp hn).1
  · exact distinctOverlay hinv haddr (overlayInv_run stunServers relays dnsBase hmain) hids w

end OverMesh
