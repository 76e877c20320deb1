import OverMesh.Store.Acl
import OverMesh.Store.SetupKeys

/-!
# What a statement changes, network by network

A netmap shows a node its network: the nodes with their approved routes, and the access rules.
`Store.Changes w` says of two databases that, as far as netmaps go, at most network `w` differs.
Each statement of the control plane changes one network in this sense or none, and changes compose.

## Main definitions

* `Store.Changes`

## Main results

* `Changes.updateNode`, `Changes.routes_of`, `Changes.createNode`, `Changes.deleteNode`,
  `Changes.setRouteApproved`, `Changes.setACL` — the statements that change one network
* `Changes.of_eq` — the ones that change none
-/

namespace OverMesh

namespace Store

/-- From `st` to `st'` at most network `w` has changed. Rows keep their network, and new rows have
new ids. -/
structure Changes (w : ℤ) (st st' : Store) : Prop where
  seq : st.nodes.seq ≤ st'.nodes.seq
  rows : ∀ n' ∈ st'.nodes.rows, st.nodes.seq < n'.id ∨
    ∃ n ∈ st.nodes.rows, n.id = n'.id ∧ n.networkID = n'.networkID
  network : ∀ v nw, st.networkByID v = some nw → st'.networkByID v = some nw
  nodes : ∀ v ≠ w, st'.nodesInNetwork v = st.nodesInNetwork v
  routes : ∀ v ≠ w, ∀ n ∈ st.nodesInNetwork v,
    st'.approvedNodeRoutes n.id = st.approvedNodeRoutes n.id
  acl : ∀ v ≠ w, st'.acl v = st.acl v

namespace Changes

variable {st st' st'' : Store} {w : ℤ}

theorem trans (h : Changes w st st') (h' : Changes w st' st'') : Changes w st st'' where
  seq := h.seq.trans h'.seq
  rows n'' hn'' := by
    rcases h'.rows n'' hn'' with hnew | ⟨n', hn', hid', hnw'⟩
    · exact .inl (h.seq.trans_lt hnew)
    · rcases h.rows n' hn' with hnew | ⟨n, hn, hid, hnw⟩
      · exact .inl (hid' ▸ hnew)
      · exact .inr ⟨n, hn, hid.trans hid', hnw.trans hnw'⟩
  network v nw hv := h'.network v nw (h.network v nw hv)
  nodes v hv := (h'.nodes v hv).trans (h.nodes v hv)
  routes v hv n hn := by
    have hn' : n ∈ st'.nodesInNetwork v := by rwa [h.nodes v hv]
    exact (h'.routes v hv n hn').trans (h.routes v hv n hn)
  acl v hv := (h'.acl v hv).trans (h.acl v hv)

/-- A row keeps its network. -/
theorem networkID_eq (h : Changes w st st') {n m : Node} (hn : n ∈ st.nodes.rows)
    (hm : m ∈ st'.nodes.rows) (hid : m.id = n.id) : m.networkID = n.networkID := by
  rcases h.rows m hm with hnew | ⟨m', hm', hid', hnw'⟩
  · exact absurd (st.nodes.id_le n hn) (not_le_of_gt (hid ▸ hnew))
  · rw [← hnw', st.nodes.eq_of_id_eq hm' hn (hid'.trans hid)]

/-- A statement that leaves the nodes alone changes what it does to routes and rules. -/
theorem of_nodes (hnodes : st'.nodes = st.nodes)
    (hnet : ∀ v nw, st.networkByID v = some nw → st'.networkByID v = some nw)
    (hroutes : ∀ n ∈ st.nodes.rows, n.networkID ≠ w →
      st'.approvedNodeRoutes n.id = st.approvedNodeRoutes n.id)
    (hacl : ∀ v ≠ w, st'.acl v = st.acl v) : Changes w st st' where
  seq := by rw [hnodes]
  rows n' hn' := by
    rw [hnodes] at hn'
    exact .inr ⟨n', hn', rfl, rfl⟩
  network := hnet
  nodes v _ := by
    rw [nodesInNetwork, hnodes]
    rfl
  routes v hv n hn := by
    obtain ⟨hrow, rfl⟩ := mem_nodesInNetwork.mp hn
    exact hroutes n hrow hv
  acl := hacl

/-- A statement on other tables changes no network. -/
theorem of_eq (hnodes : st'.nodes = st.nodes) (hroutes : st'.routeTable = st.routeTable)
    (hacl : st'.aclRules = st.aclRules)
    (hnet : ∀ v nw, st.networkByID v = some nw → st'.networkByID v = some nw) (w : ℤ) :
    Changes w st st' :=
  of_nodes hnodes hnet (fun _ _ _ => approvedNodeRoutes_congr (by rw [hroutes]))
    fun _ _ => acl_congr hacl

theorem refl (st : Store) (w : ℤ) : Changes w st st := of_eq rfl rfl rfl (fun _ _ => id) w

/-- An update of a row of network `w`. -/
theorem updateNode {n : Node} {f : Node → Node} {hid hmk hnw} (hn : n ∈ st.nodes.rows) :
    Changes n.networkID st (st.updateNode n.id f hid hmk hnw) where
  seq := le_refl _
  rows n' hn' := by
    rw [rows_nodes_updateNode] at hn'
    obtain ⟨m, hm, rfl⟩ := List.mem_map.mp hn'
    refine .inr ⟨m, hm, ?_⟩
    split
    · exact ⟨(hid m).symm, (hnw m).symm⟩
    · exact ⟨rfl, rfl⟩
  network _ _ h := h
  nodes v hv := by
    rw [nodesInNetwork, rows_nodes_updateNode]
    refine AutoTable.filter_map_ite ?_
    intro m hm hmid
    rw [hnw, st.nodes.eq_of_id_eq hm hn hmid]
    simp [Ne.symm hv]
  routes _ _ _ _ := rfl
  acl _ _ := rfl

theorem touchNode {n : Node} (hn : n ∈ st.nodes.rows) (now : ℤ) :
    Changes n.networkID st (st.touchNode n.id now) := by
  rw [Store.touchNode]
  exact updateNode hn

theorem updateNodeEndpoints {n : Node} (hn : n ∈ st.nodes.rows) (endpoints : List String) :
    Changes n.networkID st (st.updateNodeEndpoints n.id endpoints) := by
  rw [Store.updateNodeEndpoints]
  exact updateNode hn

theorem updateNodeIPv6 {n : Node} (hn : n ∈ st.nodes.rows) (addr : Netip.Addr) :
    Changes n.networkID st (st.updateNodeIPv6 n.id addr) := by
  rw [Store.updateNodeIPv6]
  exact updateNode hn

theorem updateNodeOnRegister {n : Node} (hn : n ∈ st.nodes.rows) (key name os : String) :
    Changes n.networkID st (st.updateNodeOnRegister n.id key name os) := by
  rw [Store.updateNodeOnRegister]
  exact updateNode hn

/-- After a change, also the routes of a node of the same network. -/
theorem routes_of {id : ℤ} (h : Changes w st st') (hid : ∀ m ∈ st'.nodes.rows, m.id = id →
      m.networkID = w) (hnodes : st''.nodes = st'.nodes) (hnet : st''.networks = st'.networks)
    (hacl : st''.aclRules = st'.aclRules)
    (hroutes : ∀ i ≠ id, st''.approvedNodeRoutes i = st'.approvedNodeRoutes i) :
    Changes w st st'' := by
  refine h.trans (of_nodes hnodes ?_ ?_
    fun _ _ => acl_congr hacl)
  · intro v nw hv
    rw [networkByID, hnet]
    exact hv
  · intro m hm hne
    exact hroutes m.id fun he => hne (hid m hm he)

theorem setRouteApproved {n : Node} {route : String} {approved : Bool} (hn : n ∈ st.nodes.rows)
    (h : st.setRouteApproved n.id route approved = some st') : Changes n.networkID st st' := by
  obtain ⟨hnodes, hnet, -, hacl, -⟩ := setRouteApproved_spec h
  refine (refl st _).routes_of ?_ hnodes hnet hacl
    fun _ hid => approvedNodeRoutes_setRouteApproved h hid
  intro m hm hid
  rw [st.nodes.eq_of_id_eq hm hn hid]

/-- The insertion of a node. -/
theorem createNode {now : ℤ} {n m : Node} (h : st.createNode now n = some (st', m)) :
    Changes m.networkID st st' := by
  obtain ⟨rfl, hrows, hseq, hnet, -, hroutes, hacl, -⟩ := createNode_spec h
  refine ⟨?_, ?_, ?_, ?_, ?_, ?_⟩
  · rw [hseq]
    exact Int.le_add_one (le_refl _)
  · intro n' hn'
    rw [hrows, List.mem_append, List.mem_singleton] at hn'
    rcases hn' with hn' | rfl
    · exact .inr ⟨n', hn', rfl, rfl⟩
    · exact .inl (Int.lt_succ _)
  · intro v nw hv
    rw [networkByID, hnet]
    exact hv
  · intro v hv
    rw [nodesInNetwork, hrows, List.filter_append]
    simp [nodesInNetwork, Ne.symm hv]
  · intro v _ m hm
    exact approvedNodeRoutes_congr (by rw [hroutes])
  · intro v _
    exact acl_congr hacl

/-- The deletion of a node. -/
theorem deleteNode {id : ℤ} {n : Node} (hn : st.nodeByID id = some n)
    (h : st.deleteNode id = some st') : Changes n.networkID st st' := by
  obtain ⟨hnodes, hnet, -, -, hacl, -⟩ := deleteNode_spec h
  obtain ⟨hmem, rfl⟩ := nodeByID_eq_some_iff.mp hn
  refine ⟨?_, ?_, ?_, ?_, ?_, ?_⟩
  · rw [hnodes, AutoTable.seq_delete]
  · intro n' hn'
    rw [hnodes] at hn'
    exact .inr ⟨n', (AutoTable.mem_delete.mp hn').1, rfl, rfl⟩
  · intro v nw hv
    rw [networkByID, hnet]
    exact hv
  · intro v hv
    simpa [column] using column_deleteNode_of_ne (f := fun n => n) h hn hv
  · intro v hv m hm
    obtain ⟨hm', rfl⟩ := mem_nodesInNetwork.mp hm
    refine approvedNodeRoutes_deleteNode h fun hid => hv ?_
    rw [st.nodes.eq_of_id_eq hm' hmem hid]
  · intro v _
    exact acl_congr hacl

/-- New rules for a network. -/
theorem setACL {rules : List ACLRule} (h : st.setACL w rules = .ok st') : Changes w st st' := by
  obtain ⟨hnodes, hnet, -, hroutes, -⟩ := nodes_setACL h
  refine of_nodes hnodes ?_ (fun _ _ _ => approvedNodeRoutes_congr ?_)
    fun v hv => acl_setACL_of_ne h hv
  · intro v nw hv
    rw [networkByID, hnet]
    exact hv
  · rw [hroutes]

theorem ensureNetwork (name : String) (v4 v6 : Netip.Prefix) (w : ℤ) :
    Changes w st (st.ensureNetwork name v4 v6) := by
  refine of_eq nodes_ensureNetwork ?_ ?_ (fun _ _ => networkByID_ensureNetwork) w
  · rw [Store.ensureNetwork]
    split <;> rfl
  · rw [Store.ensureNetwork]
    split <;> rfl

/-- Setup keys are in no netmap. -/
theorem of_setupKeys {t fk} (w : ℤ) :
    Changes w st { st with setupKeys := t, setupKeys_fk := fk } := by
  refine of_eq ?_ ?_ ?_ ?_ w
  · rfl
  · rfl
  · rfl
  · exact fun _ _ h => h

theorem chargeSetupKey (k : SetupKey) (w : ℤ) : Changes w st (st.chargeSetupKey k) :=
  of_setupKeys w

theorem newSetupKey (now : ℤ) (raw : List UInt8) (nw : ℤ) (reusable : Bool)
    (expiresAt : Option ℤ) (owner w : ℤ) :
    Changes w st ((st.newSetupKey now raw nw reusable expiresAt owner).getD st) := by
  rw [Store.newSetupKey]
  split
  · split
    · exact refl st w
    · rw [Option.getD_some]
      exact of_setupKeys w
  · exact refl st w

theorem revokeSetupKey (id w : ℤ) : Changes w st ((st.revokeSetupKey id).getD st) := by
  rw [Store.revokeSetupKey]
  split
  · exact refl st w
  · rw [Option.getD_some]
    exact of_setupKeys w

end Changes

/-! ### Rows that stay -/

/-- No row of `st` is gone in `st'`. -/
def KeepsRows (st st' : Store) : Prop := ∀ n ∈ st.nodes.rows, ∃ n' ∈ st'.nodes.rows, n'.id = n.id

section KeepsRows

variable {st st' st'' : Store}

theorem keepsRows_of_eq (h : st'.nodes = st.nodes) : KeepsRows st st' := fun n hn =>
  ⟨n, by rwa [h], rfl⟩

theorem KeepsRows.trans (h : KeepsRows st st') (h' : KeepsRows st' st'') : KeepsRows st st'' := by
  intro n hn
  obtain ⟨n', hn', hid⟩ := h n hn
  obtain ⟨n'', hn'', hid'⟩ := h' n' hn'
  exact ⟨n'', hn'', hid'.trans hid⟩

theorem keepsRows_updateNode {id : ℤ} {f : Node → Node} {hid hmk hnw} :
    KeepsRows st (st.updateNode id f hid hmk hnw) := by
  intro n hn
  rw [rows_nodes_updateNode]
  refine ⟨_, List.mem_map_of_mem hn, ?_⟩
  split
  · exact hid n
  · rfl

theorem keepsRows_createNode {now : ℤ} {n m : Node} (h : st.createNode now n = some (st', m)) :
    KeepsRows st st' := by
  obtain ⟨-, hrows, -⟩ := createNode_spec h
  intro n hn
  exact ⟨n, by rw [hrows]; exact List.mem_append_left _ hn, rfl⟩

end KeepsRows

end Store

end OverMesh
