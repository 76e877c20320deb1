import OverMesh.Coord.System

/-!
# What a step does to the node rows

Every invariant of the rows of the node table asks the same thing of a step of the server: which
rows are new, which have changed, and how. `RowChange` answers it once. Most steps change endpoints
and times at most; a known machine that registers has its row renamed and rekeyed; an enrolment
appends a row, with an IPv6 address derived from the row id or with its IPv4 address standing in;
a deletion takes a row away.

## Main result

* `step_rows` — every step changes the rows in one of these ways
-/

namespace OverMesh

open Netip Ipam

/-- The row of a node whose machine has registered again. -/
def Node.returned (n : Node) (st : Store) (req : RegisterRequest) : Node :=
  { n with
    nodeKey := req.nkey.string
    hostname := Coordinator.newName st n (sanitizeHostname req.hostname)
    os := req.osName }

section Returned

variable {n : Node} {st : Store} {req : RegisterRequest}

@[simp] theorem Node.id_returned : (n.returned st req).id = n.id := by rw [Node.returned]

@[simp] theorem Node.networkID_returned : (n.returned st req).networkID = n.networkID := by
  rw [Node.returned]

@[simp] theorem Node.machineKey_returned : (n.returned st req).machineKey = n.machineKey := by
  rw [Node.returned]

@[simp] theorem Node.nodeKey_returned : (n.returned st req).nodeKey = req.nkey.string := by
  rw [Node.returned]

@[simp] theorem Node.ipv4_returned : (n.returned st req).ipv4 = n.ipv4 := by rw [Node.returned]

@[simp] theorem Node.ipv6_returned : (n.returned st req).ipv6 = n.ipv6 := by rw [Node.returned]

@[simp] theorem Node.hostname_returned : (n.returned st req).hostname =
    Coordinator.newName st n (sanitizeHostname req.hostname) := by rw [Node.returned]

end Returned

/-- **What a step can do to the rows of the nodes.** -/
inductive RowChange (c : Coordinator) : Op → List Node → Prop
  /-- Endpoints and times change at most. -/
  | quiet {op : Op} {rows : List Node}
    (h : rows.map Node.stable = c.st.nodes.rows.map Node.stable) : RowChange c op rows
  /-- A known machine has registered. -/
  | returned (now : ℤ) (req : RegisterRequest) {n : Node}
    (hn : c.st.nodeByMachineKey req.mkey.string = some n) :
    RowChange c (.register now req)
      (c.st.nodes.rows.map fun m => if m.id = n.id then m.returned c.st req else m)
  /-- A machine was enrolled, completely or up to its IPv6 address. -/
  | enrolled (now ownerID : ℤ) (req : RegisterRequest) {nw : Network} {k : SetupKey}
    {a : Allocator} {v4 v6 : Addr} (hmk : c.st.nodeByMachineKey req.mkey.string = none)
    (hread : c.st.readSetupKey now req.setupKey = .ok k)
    (hnw : c.st.networkByID k.networkID = some nw) (ha : c.Allocates nw a)
    (h4 : a.allocateV4.1 = .ok v4)
    (h6 : v6 = v4 ∨ a.allocateV4.2.allocateV6For (c.st.nodes.seq + 1).toNat = .ok v6) :
    RowChange c (.register now req) (c.st.nodes.rows ++
      [{ Store.nodeRow now (Coordinator.enrolledNode c.st req nw ownerID v4) (c.st.nodes.seq + 1)
          with ipv6 := v6 }])
  | deleted (id : ℤ) : RowChange c (.deleteNode id) (c.st.nodes.rows.filter (·.id ≠ id))

namespace RowChange

variable {c : Coordinator}

theorem refl (c : Coordinator) (op : Op) : RowChange c op c.st.nodes.rows := .quiet rfl

/-- A returning machine. Its row is the only one with its id. -/
theorem reRegister (now : ℤ) (req : RegisterRequest) (routes : List String) {n : Node}
    (hn : c.st.nodeByMachineKey req.mkey.string = some n) :
    RowChange c (.register now req) (c.reRegister req routes n).2.st.nodes.rows := by
  have hmem := (Store.nodeByMachineKey_eq_some_iff.mp hn).1
  have hrows : (c.reRegister req routes n).2.st.nodes.rows = c.st.nodes.rows.map fun m =>
      if m.id = n.id then m.returned c.st req else m := by
    obtain ⟨st, name, nw, -, hnodes, hname, -, -, -, -, heq⟩ :=
      Coordinator.reRegister_spec req routes hmem
    rw [heq, Coordinator.st_notifyNetworkLocked, hnodes, Store.updateNodeOnRegister,
      Store.rows_nodes_updateNode]
    refine List.map_congr_left fun m hm => ?_
    split_ifs with hid
    · obtain rfl := c.st.nodes.eq_of_id_eq hm hmem hid
      rw [hname]
      rfl
    · rfl
  rw [hrows]
  exact .returned now req hn

/-- A row is appended, and may be given its IPv6 address. -/
theorem rows_enroll {now ownerID : ℤ} {req : RegisterRequest} {nw : Network}
    {res : RegisterResult × Coordinator} (h : Coordinator.EnrollResult c now req nw ownerID res) :
    res.2.st.nodes.rows = c.st.nodes.rows ∨
      ∃ (a : Allocator) (v4 v6 : Addr), c.Allocates nw a ∧ a.allocateV4.1 = .ok v4 ∧
        (v6 = v4 ∨ a.allocateV4.2.allocateV6For (c.st.nodes.seq + 1).toNat = .ok v6) ∧
        res.2.st.nodes.rows = c.st.nodes.rows ++
          [{ Store.nodeRow now (Coordinator.enrolledNode c.st req nw ownerID v4)
              (c.st.nodes.seq + 1) with ipv6 := v6 }] := by
  cases h with
  | refused _ => exact .inl rfl
  | exhausted _ _ => exact .inl rfl
  | halfBuilt ha h4 hn h6 =>
    obtain ⟨-, halloc⟩ := Coordinator.allocatorFor_ok ha
    obtain ⟨rfl, hrows, -⟩ := Store.createNode_spec hn
    exact .inr ⟨_, _, _, halloc, h4, .inl rfl, hrows⟩
  | @enrolled a _ v4 v6 st st' n ha h4 hn h6 hnodes =>
    obtain ⟨-, halloc⟩ := Coordinator.allocatorFor_ok ha
    obtain ⟨rfl, hrows, -⟩ := Store.createNode_spec hn
    refine .inr ⟨_, _, v6, halloc, h4, .inr h6, ?_⟩
    rw [Coordinator.st_notifyNetworkLocked, hnodes]
    change (st.updateNodeIPv6 (c.st.nodes.seq + 1) v6).nodes.rows = _
    rw [Store.updateNodeIPv6, Store.rows_nodes_updateNode, hrows, List.map_append]
    congr 1
    · -- The ids of the other rows are smaller.
      refine (List.map_congr_left fun m hm => if_neg ?_).trans (List.map_id _)
      have := c.st.nodes.id_le m hm
      omega
    · exact congrArg (fun m => [m]) (if_pos rfl)

theorem register (c : Coordinator) (now : ℤ) (req : RegisterRequest) :
    RowChange c (.register now req) (c.register now req).2.st.nodes.rows := by
  have hspec := Coordinator.register_spec c now req
  generalize c.register now req = res at hspec ⊢
  cases hspec with
  | rejected _ => exact .refl c _
  | returning _ hn => exact .reRegister now req _ hn
  | @enrolling _ k _ res _ hmk _ hread hnw hres =>
    -- Charging the key does not touch the rows, the networks or the allocators.
    rcases rows_enroll hres with heq | ⟨a, v4, v6, ha, h4, h6, heq⟩
    · rw [heq]
      exact .refl c _
    · rw [heq]
      exact .enrolled now k.ownerUserID req hmk hread hnw ha h4 h6

theorem deleteNode (c : Coordinator) (id : ℤ) :
    RowChange c (.deleteNode id) (c.deleteNode id).2.st.nodes.rows := by
  rcases c.deleteNode_spec id with ⟨-, heq⟩ | ⟨n, st, nw, ipams, -, hst, -, -, heq⟩
  · rw [heq]
    exact .refl c _
  · rw [heq, Coordinator.st_notifyNetworkLocked]
    have hrows : st.nodes.rows = c.st.nodes.rows.filter (·.id ≠ id) := by
      rw [(Store.deleteNode_spec hst).1, AutoTable.rows_delete]
      simp
    change RowChange c _ st.nodes.rows
    rw [hrows]
    exact .deleted id

end RowChange

/-- **Every step** changes the rows of the nodes in one of these ways. -/
theorem step_rows (s : System) (op : Op) : RowChange s.c op (s.step op).c.st.nodes.rows := by
  rcases step_cases s op with hq | ⟨now, req, rfl, heq⟩ | ⟨id, rfl, heq⟩ | ⟨name, v4, v6, -, heq⟩ |
    heq
  · exact .quiet hq.nodes
  · rw [heq]
    exact .register s.c now req
  · rw [heq]
    exact .deleteNode s.c id
  · rw [heq]
    refine .quiet ?_
    rw [Store.nodes_ensureNetwork]
  · rw [heq]
    exact .refl s.c _

end OverMesh
