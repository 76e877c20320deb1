import OverMesh.Internal.AutoTable
import OverMesh.Internal.NetipText
import OverMesh.Key
import Mathlib.Data.List.AList
import Mathlib.Data.List.Sort

/-!
# The control plane's database

`internal/store`: the tables of the SQLite database as one value, with the statements on networks,
nodes and node routes. `Store` carries the constraints the schema declares, so that a statement
either keeps them or fails: primary keys and `UNIQUE` columns are the business of `AutoTable`, the
foreign keys and the primary key of `node_routes` are fields.

Columns that hold text encodings are kept decoded. Addresses are `Netip.Addr` and prefixes
`Netip.Prefix`, whose text forms are read back by `Netip.parseChars_chars`; id lists, port lists
and endpoint lists are lists. The audit log is left out: it is written everywhere and read by
nothing but the audit page.

## Main definitions

* `Node`, `Network`, `SetupKey`, `NodeRoute`, `AclRow`, `UserRow` — the rows
* `Store` — the database
* `Store.createNode`, `Store.deleteNode`, `Store.updateNode`, `Store.setAdvertisedRoutes`

## Conventions

Times are Unix times. Columns hold whole seconds, the clock handed to a function is in
nanoseconds.
-/

namespace OverMesh

open Netip

/-! ### Rows -/

/-- A mesh network. -/
structure Network where
  id : ℤ
  name : String
  v4Prefix : Prefix
  v6Prefix : Prefix
  deriving DecidableEq

/-- A registered device. `ownerUserID` is the account whose setup key enrolled it. -/
structure Node where
  id : ℤ
  networkID : ℤ
  hostname : String
  machineKey : String
  nodeKey : String
  ipv4 : Addr
  ipv6 : Addr
  os : String
  endpoints : List String
  createdAt : ℤ
  lastSeen : ℤ
  ownerUserID : ℤ
  deriving DecidableEq

/-- A pre-auth key. `expiresAt` is the column: the key never expires unless it is positive. -/
structure SetupKey where
  id : ℤ
  networkID : ℤ
  key : String
  reusable : Bool
  revoked : Bool
  expiresAt : ℤ
  usedCount : ℕ
  createdAt : ℤ
  ownerUserID : ℤ
  deriving DecidableEq

/-- A row of `node_routes`: a route a node offers, and whether an admin has approved it. -/
structure NodeRoute where
  nodeID : ℤ
  route : String
  approved : Bool
  deriving DecidableEq

/-- One ordered access rule. Empty lists and the empty protocol mean "any". -/
structure ACLRule where
  id : ℤ
  action : String
  srcIDs : List ℤ
  dstIDs : List ℤ
  protocol : String
  ports : List String
  deriving DecidableEq

/-- A row of `acl_rules`. -/
structure AclRow where
  networkID : ℤ
  position : ℕ
  rule : ACLRule
  deriving DecidableEq

/-- `RoleAdmin` and `RoleMember`. Every statement that writes a role checks that it is one of the
two. -/
inductive Role where
  | admin
  | member
  deriving DecidableEq

/-- A row of `users`. -/
structure UserRow where
  id : ℤ
  username : String
  passwordHash : String
  role : Role
  disabled : Bool
  createdAt : ℤ
  deriving DecidableEq

/-- `time.Time.Unix` of a time in nanoseconds. -/
def unixSeconds (ns : ℤ) : ℤ := ns / 10 ^ 9

/-- `PRIMARY KEY (node_id, route)`. -/
def RoutesPK (rs : List NodeRoute) : Prop :=
  rs.Pairwise fun r r' => ¬ (r.nodeID = r'.nodeID ∧ r.route = r'.route)

/-- The database. -/
structure Store where
  networks : AutoTable Network Network.id fun w => some w.name
  nodes : AutoTable Node Node.id fun n => some n.machineKey
  setupKeys : AutoTable SetupKey SetupKey.id fun k => some k.key
  routeTable : List NodeRoute
  aclRules : AutoTable AclRow (fun r => r.rule.id) fun _ => (none : Option Unit)
  users : AutoTable UserRow UserRow.id fun u => some u.username
  settings : AList fun _ : String => String
  nodes_fk : ∀ n ∈ nodes.rows, ∃ w ∈ networks.rows, w.id = n.networkID
  setupKeys_fk : ∀ k ∈ setupKeys.rows, ∃ w ∈ networks.rows, w.id = k.networkID
  aclRules_fk : ∀ r ∈ aclRules.rows, ∃ w ∈ networks.rows, w.id = r.networkID
  routeTable_fk : ∀ r ∈ routeTable, ∃ n ∈ nodes.rows, n.id = r.nodeID
  routeTable_pk : RoutesPK routeTable

namespace Store

/-- A freshly created database. -/
def empty : Store where
  networks := .empty
  nodes := .empty
  setupKeys := .empty
  routeTable := []
  aclRules := .empty
  users := .empty
  settings := ∅
  nodes_fk := by simp
  setupKeys_fk := by simp
  aclRules_fk := by simp
  routeTable_fk := by simp
  routeTable_pk := .nil

/-! ### Networks -/

/-- `NetworkByID`. -/
def networkByID (s : Store) (id : ℤ) : Option Network := s.networks.byId id

/-- `EnsureNetwork`: `INSERT OR IGNORE`, so an existing network of that name stays as it is. -/
def ensureNetwork (s : Store) (name : String) (v4 v6 : Prefix) : Store :=
  match h : s.networks.insert? (fun id => ⟨id, name, v4, v6⟩) (fun _ => rfl) with
  | none => s
  | some t =>
    have hmem : ∀ w ∈ s.networks.rows, w ∈ t.rows := fun _ hw =>
      (AutoTable.mem_insert? h).mpr (.inl hw)
    { s with
      networks := t
      nodes_fk := fun n hn => (s.nodes_fk n hn).imp fun _ hw => ⟨hmem _ hw.1, hw.2⟩
      setupKeys_fk := fun k hk => (s.setupKeys_fk k hk).imp fun _ hw => ⟨hmem _ hw.1, hw.2⟩
      aclRules_fk := fun r hr => (s.aclRules_fk r hr).imp fun _ hw => ⟨hmem _ hw.1, hw.2⟩ }

@[simp] theorem nodes_ensureNetwork {s : Store} {name : String} {v4 v6 : Prefix} :
    (s.ensureNetwork name v4 v6).nodes = s.nodes := by
  rw [ensureNetwork]
  split <;> rfl

@[simp] theorem setupKeys_ensureNetwork {s : Store} {name : String} {v4 v6 : Prefix} :
    (s.ensureNetwork name v4 v6).setupKeys = s.setupKeys := by
  rw [ensureNetwork]
  split <;> rfl

theorem networkByID_ensureNetwork {s : Store} {name : String} {v4 v6 : Prefix} {id : ℤ}
    {nw : Network} (h : s.networkByID id = some nw) :
    (s.ensureNetwork name v4 v6).networkByID id = some nw := by
  obtain ⟨hrow, hid⟩ := AutoTable.byId_eq_some_iff.mp h
  rw [ensureNetwork]
  split
  · exact h
  · next t ht =>
    exact AutoTable.byId_eq_some_iff.mpr ⟨(AutoTable.mem_insert? ht).mpr (.inl hrow), hid⟩

/-! ### Nodes -/

/-- `NodeByMachineKey`. -/
def nodeByMachineKey (s : Store) (mkey : String) : Option Node := s.nodes.byUniq mkey

/-- `NodeByID`. -/
def nodeByID (s : Store) (id : ℤ) : Option Node := s.nodes.byId id

/-- `NodesInNetwork`, in id order. -/
def nodesInNetwork (s : Store) (networkID : ℤ) : List Node :=
  s.nodes.rows.filter (·.networkID = networkID)

/-- `HostnameTaken`. -/
def hostnameTaken (s : Store) (networkID : ℤ) (hostname : String) : Bool :=
  s.nodes.rows.any fun n => n.networkID = networkID ∧ n.hostname = hostname

/-- The row `CreateNode` writes for `n`. -/
def nodeRow (now : ℤ) (n : Node) (id : ℤ) : Node :=
  { n with id := id, createdAt := unixSeconds now, lastSeen := 0 }

/-- `CreateNode`. The id and the times of `n` are filled in; `none` is a failed constraint. -/
def createNode (s : Store) (now : ℤ) (n : Node) : Option (Store × Node) :=
  if hfk : ∃ w ∈ s.networks.rows, w.id = n.networkID then
    match h : s.nodes.insert? (nodeRow now n) (fun _ => rfl) with
    | none => none
    | some t => some ({ s with
        nodes := t
        nodes_fk := fun m hm => by
          rcases (AutoTable.mem_insert? h).mp hm with hm | rfl
          · exact s.nodes_fk m hm
          · exact hfk
        routeTable_fk := fun r hr => (s.routeTable_fk r hr).imp fun m hm =>
          ⟨(AutoTable.mem_insert? h).mpr (.inl hm.1), hm.2⟩ }, nodeRow now n (s.nodes.seq + 1))
  else none

/-- An `UPDATE nodes SET … WHERE id = ?`. -/
def updateNode (s : Store) (id : ℤ) (f : Node → Node) (hid : ∀ n, (f n).id = n.id)
    (hmk : ∀ n, (f n).machineKey = n.machineKey) (hnw : ∀ n, (f n).networkID = n.networkID) :
    Store :=
  { s with
    nodes := s.nodes.update (·.id = id) f hid fun n => by rw [hmk]
    nodes_fk := fun n hn => by
      obtain ⟨n₀, hn₀, rfl⟩ := AutoTable.mem_update.mp hn
      obtain ⟨w, hw, hwn⟩ := s.nodes_fk n₀ hn₀
      refine ⟨w, hw, hwn.trans ?_⟩
      split <;> simp [hnw]
    routeTable_fk := fun r hr => by
      obtain ⟨n₀, hn₀, hid₀⟩ := s.routeTable_fk r hr
      refine ⟨_, AutoTable.mem_update.mpr ⟨n₀, hn₀, rfl⟩, ?_⟩
      split <;> simp [hid, hid₀] }

/-- `UpdateNodeEndpoints`. -/
def updateNodeEndpoints (s : Store) (id : ℤ) (endpoints : List String) : Store :=
  s.updateNode id ({ · with endpoints := endpoints }) (fun _ => rfl) (fun _ => rfl) fun _ => rfl

/-- `UpdateNodeIPv6`. -/
def updateNodeIPv6 (s : Store) (id : ℤ) (addr : Addr) : Store :=
  s.updateNode id ({ · with ipv6 := addr }) (fun _ => rfl) (fun _ => rfl) fun _ => rfl

/-- `UpdateNodeOnRegister`. -/
def updateNodeOnRegister (s : Store) (id : ℤ) (nodeKey hostname osName : String) : Store :=
  s.updateNode id ({ · with nodeKey := nodeKey, hostname := hostname, os := osName })
    (fun _ => rfl) (fun _ => rfl) fun _ => rfl

/-- `TouchNode`. -/
def touchNode (s : Store) (id : ℤ) (now : ℤ) : Store :=
  s.updateNode id ({ · with lastSeen := unixSeconds now }) (fun _ => rfl) (fun _ => rfl)
    fun _ => rfl

/-- `DeleteNode`, with the cascade to `node_routes`. `none` is `ErrNotFound`. -/
def deleteNode (s : Store) (id : ℤ) : Option Store :=
  if s.nodeByID id = none then none
  else some { s with
    nodes := s.nodes.delete (·.id = id)
    routeTable := s.routeTable.filter (·.nodeID ≠ id)
    nodes_fk := fun n hn => s.nodes_fk n (AutoTable.mem_delete.mp hn).1
    routeTable_fk := fun r hr => by
      obtain ⟨hr, hne⟩ := List.mem_filter.mp hr
      obtain ⟨n, hn, hid⟩ := s.routeTable_fk r hr
      refine ⟨n, AutoTable.mem_delete.mpr ⟨hn, ?_⟩, hid⟩
      simpa [hid] using hne
    routeTable_pk := List.Pairwise.filter _ s.routeTable_pk }

section Nodes

variable {s s' : Store} {now id : ℤ} {n m : Node}

theorem nodeByID_eq_some_iff : s.nodeByID id = some n ↔ n ∈ s.nodes.rows ∧ n.id = id :=
  AutoTable.byId_eq_some_iff

theorem nodeByMachineKey_eq_some_iff {mkey : String} :
    s.nodeByMachineKey mkey = some n ↔ n ∈ s.nodes.rows ∧ n.machineKey = mkey := by
  rw [nodeByMachineKey, AutoTable.byUniq_eq_some_iff, Option.some.injEq]

theorem nodeByMachineKey_eq_none_iff {mkey : String} :
    s.nodeByMachineKey mkey = none ↔ ∀ n ∈ s.nodes.rows, n.machineKey ≠ mkey := by
  simp [nodeByMachineKey, AutoTable.byUniq_eq_none_iff]

@[simp] theorem mem_nodesInNetwork {networkID : ℤ} :
    n ∈ s.nodesInNetwork networkID ↔ n ∈ s.nodes.rows ∧ n.networkID = networkID := by
  simp [nodesInNetwork]

/-- The network of a node is in the database. -/
theorem exists_networkByID (hn : n ∈ s.nodes.rows) :
    ∃ nw, s.networkByID n.networkID = some nw ∧ nw.id = n.networkID := by
  obtain ⟨w, hw, hid⟩ := s.nodes_fk n hn
  exact ⟨w, AutoTable.byId_eq_some_iff.mpr ⟨hw, hid⟩, hid⟩

/-- What `CreateNode` does to the database. -/
theorem createNode_spec (h : s.createNode now n = some (s', m)) :
    m = nodeRow now n (s.nodes.seq + 1) ∧
      s'.nodes.rows = s.nodes.rows ++ [m] ∧ s'.nodes.seq = s.nodes.seq + 1 ∧
      s'.networks = s.networks ∧ s'.setupKeys = s.setupKeys ∧ s'.routeTable = s.routeTable ∧
      s'.aclRules = s.aclRules ∧ s'.users = s.users ∧ s'.settings = s.settings := by
  rw [createNode] at h
  split at h
  · split at h
    · cases h
    · next t ht =>
      obtain ⟨rfl, rfl⟩ := Prod.mk.inj (Option.some.inj h)
      exact ⟨rfl, AutoTable.rows_insert? ht, AutoTable.seq_insert? ht, rfl, rfl, rfl, rfl, rfl, rfl⟩
  · cases h

/-- A node of an existing network with a fresh machine key can be inserted. -/
theorem exists_createNode (now : ℤ) (hnw : ∃ w ∈ s.networks.rows, w.id = n.networkID)
    (hmk : s.nodeByMachineKey n.machineKey = none) : ∃ s' m, s.createNode now n = some (s', m) := by
  have hfresh : (s.nodes.insert? (nodeRow now n) fun _ => rfl).isSome :=
    AutoTable.isSome_insert? fun b hb r hr he =>
      nodeByMachineKey_eq_none_iff.mp hmk r hr (Option.some.inj (he.trans hb.symm))
  rw [createNode]
  rw [dif_pos hnw]
  split
  · next hnone => rw [hnone] at hfresh; cases hfresh
  · exact ⟨_, _, rfl⟩

/-- What a successful `DeleteNode` does to the database. -/
theorem deleteNode_spec (h : s.deleteNode id = some s') :
    s'.nodes = s.nodes.delete (·.id = id) ∧ s'.networks = s.networks ∧
      s'.setupKeys = s.setupKeys ∧ s'.routeTable = s.routeTable.filter (·.nodeID ≠ id) ∧
      s'.aclRules = s.aclRules ∧ s'.users = s.users ∧ s'.settings = s.settings := by
  rw [deleteNode] at h
  split at h
  · cases h
  · obtain rfl := Option.some.inj h
    exact ⟨rfl, rfl, rfl, rfl, rfl, rfl, rfl⟩

theorem exists_deleteNode (h : s.nodeByID id = some n) : ∃ s', s.deleteNode id = some s' := by
  unfold deleteNode
  rw [if_neg (by simp [h])]
  exact ⟨_, rfl⟩

section Update

variable {f : Node → Node} {hid : ∀ n, (f n).id = n.id}
  {hmk : ∀ n, (f n).machineKey = n.machineKey} {hnw : ∀ n, (f n).networkID = n.networkID}

@[simp] theorem rows_nodes_updateNode : (s.updateNode id f hid hmk hnw).nodes.rows =
      s.nodes.rows.map fun n => if n.id = id then f n else n := by
  simp [updateNode, AutoTable.rows_update]

end Update

end Nodes

/-! ### Columns of a network -/

/-- What `f` reads of the nodes of one network. -/
def column {α : Type*} (s : Store) (f : Node → α) (networkID : ℤ) : List α :=
  (s.nodesInNetwork networkID).map f

section Column

variable {α : Type*} {s s' : Store} {f : Node → α} {now id w : ℤ} {n m : Node} {x : α}

theorem mem_column : x ∈ s.column f w ↔ ∃ n ∈ s.nodes.rows, n.networkID = w ∧ f n = x := by
  simp [column, and_assoc]

theorem column_congr (h : s'.nodes = s.nodes) : s'.column f w = s.column f w := by
  rw [column, nodesInNetwork, h]
  rfl

/-- A column is a function of the rows, and of no more of them than it reads. -/
theorem column_eq_of_map_eq {β : Type*} {g : Node → β}
    (h : s'.nodes.rows.map g = s.nodes.rows.map g)
    (hg : ∀ n n', g n = g n' → n.networkID = n'.networkID ∧ f n = f n') (w : ℤ) :
    s'.column f w = s.column f w := by
  have hrows : List.Forall₂ (fun n' n => g n' = g n) s'.nodes.rows s.nodes.rows :=
    List.forall₂_map_left_iff.mp (List.forall₂_map_right_iff.mp (h ▸ List.forall₂_same.mpr
      fun _ _ => rfl))
  unfold column nodesInNetwork
  generalize s'.nodes.rows = rows', s.nodes.rows = rows at hrows
  induction hrows with
  | nil => rfl
  | cons hn _ ih =>
    obtain ⟨hnw, hf⟩ := hg _ _ hn
    rw [List.filter_cons, List.filter_cons, hnw]
    split
    · rw [List.map_cons, List.map_cons, hf, ih]
    · exact ih

theorem column_updateNode {g : Node → Node} {hid hmk hnw} (hg : ∀ n, f (g n) = f n) (w : ℤ) :
    (s.updateNode id g hid hmk hnw).column f w = s.column f w := by
  refine column_eq_of_map_eq (g := fun n => (n.networkID, f n)) ?_ (fun _ _ => Prod.mk.inj) w
  rw [rows_nodes_updateNode, List.map_map]
  refine List.map_congr_left ?_
  intro n _
  simp only [Function.comp_apply]
  split
  · rw [hnw, hg]
  · rfl

theorem column_updateNodeIPv6 {addr : Addr} (hf : ∀ n : Node, f { n with ipv6 := addr } = f n) :
    (s.updateNodeIPv6 id addr).column f w = s.column f w := by
  rw [updateNodeIPv6]
  exact column_updateNode hf w

theorem column_updateNodeOnRegister {nodeKey hostname osName : String}
    (hf : ∀ n : Node, f { n with nodeKey := nodeKey, hostname := hostname, os := osName } = f n) :
    (s.updateNodeOnRegister id nodeKey hostname osName).column f w = s.column f w := by
  rw [updateNodeOnRegister]
  exact column_updateNode hf w

/-- A new row ends the column of its network. -/
theorem column_createNode (h : s.createNode now n = some (s', m)) :
    s'.column f w = s.column f w ++ if m.networkID = w then [f m] else [] := by
  obtain ⟨-, hrows, -⟩ := createNode_spec h
  rw [column, nodesInNetwork, hrows, List.filter_append, List.map_append, column, nodesInNetwork]
  congr 1
  split_ifs with hw <;> simp [hw]

theorem column_deleteNode_sublist (h : s.deleteNode id = some s') :
    (s'.column f w).Sublist (s.column f w) := by
  obtain ⟨hnodes, -⟩ := deleteNode_spec h
  rw [column, nodesInNetwork]
  rw [hnodes, AutoTable.rows_delete]
  exact (List.filter_sublist.filter _).map f

theorem column_deleteNode_of_ne (h : s.deleteNode id = some s') (hn : s.nodeByID id = some n)
    (hw : w ≠ n.networkID) : s'.column f w = s.column f w := by
  obtain ⟨hnodes, -⟩ := deleteNode_spec h
  obtain ⟨hmem, rfl⟩ := nodeByID_eq_some_iff.mp hn
  rw [column, nodesInNetwork]
  rw [hnodes, AutoTable.rows_delete, List.filter_filter]
  refine congrArg (List.map f) (List.filter_congr ?_)
  intro m hm
  by_cases hid : m.id = n.id
  · rw [s.nodes.eq_of_id_eq hm hmem hid]
    simp [Ne.symm hw]
  · simp [hid]

/-- A deleted row takes its value out of a column without repetitions. -/
theorem mem_column_deleteNode (h : s.deleteNode id = some s') (hn : s.nodeByID id = some n)
    (hnodup : (s.column f n.networkID).Nodup) :
    x ∈ s'.column f w ↔ x ∈ s.column f w ∧ ¬ (w = n.networkID ∧ x = f n) := by
  obtain ⟨hnodes, -⟩ := deleteNode_spec h
  obtain ⟨hmem, rfl⟩ := nodeByID_eq_some_iff.mp hn
  simp only [mem_column, hnodes, AutoTable.mem_delete, decide_eq_false_iff_not]
  constructor
  · rintro ⟨m, ⟨hm, hne⟩, rfl, rfl⟩
    refine ⟨⟨m, hm, rfl, rfl⟩, fun ⟨hw, hf⟩ => hne ?_⟩
    rw [List.inj_on_of_nodup_map hnodup (mem_nodesInNetwork.mpr ⟨hm, hw⟩)
      (mem_nodesInNetwork.mpr ⟨hmem, rfl⟩) hf]
  · rintro ⟨⟨m, hm, rfl, rfl⟩, hne⟩
    refine ⟨m, ⟨hm, fun hid => hne ?_⟩, rfl, rfl⟩
    rw [s.nodes.eq_of_id_eq hm hmem hid]
    exact ⟨rfl, rfl⟩

end Column

/-! ### Routes -/

/-- `INSERT OR IGNORE INTO node_routes`. -/
def insertRoute (nodeID : ℤ) (rs : List NodeRoute) (route : String) : List NodeRoute :=
  if rs.any fun r => r.nodeID = nodeID ∧ r.route = route then rs else rs ++ [⟨nodeID, route, false⟩]

theorem insertRoute_pk {nodeID : ℤ} {rs : List NodeRoute} {route : String} (h : RoutesPK rs) :
    RoutesPK (insertRoute nodeID rs route) := by
  rw [insertRoute]
  split
  · exact h
  · next hany =>
    refine List.pairwise_append.mpr ⟨h, List.pairwise_singleton _ _, fun r hr r' hr' he => hany ?_⟩
    rw [List.mem_singleton.mp hr'] at he
    exact List.any_eq_true.mpr ⟨r, hr, by simpa using he⟩

theorem mem_insertRoute {nodeID : ℤ} {rs : List NodeRoute} {route : String} {r : NodeRoute}
    (h : r ∈ insertRoute nodeID rs route) : r ∈ rs ∨ r = ⟨nodeID, route, false⟩ := by
  rw [insertRoute] at h
  split at h
  · exact .inl h
  · simpa using h

theorem foldl_insertRoute_pk {nodeID : ℤ} (routes : List String) {rs : List NodeRoute}
    (h : RoutesPK rs) : RoutesPK (routes.foldl (insertRoute nodeID) rs) := by
  induction routes generalizing rs with
  | nil => exact h
  | cons route routes ih => exact ih (insertRoute_pk h)

theorem nodeID_of_mem_foldl_insertRoute {nodeID : ℤ} (routes : List String) {rs : List NodeRoute}
    {r : NodeRoute} (h : r ∈ routes.foldl (insertRoute nodeID) rs) :
    r ∈ rs ∨ r.nodeID = nodeID := by
  induction routes generalizing rs with
  | nil => exact .inl h
  | cons route routes ih =>
    rcases ih h with hr | hr
    · rcases mem_insertRoute hr with hr | rfl
      · exact .inl hr
      · exact .inr rfl
    · exact .inr hr

/-- `SetAdvertisedRoutes`: the offered routes are added unapproved unless they are there already,
then the node's other routes are dropped. `none` is a failed foreign key. -/
def setAdvertisedRoutes (s : Store) (nodeID : ℤ) (routes : List String) : Option Store :=
  if h : ∃ n ∈ s.nodes.rows, n.id = nodeID then
    some { s with
      routeTable := (routes.foldl (insertRoute nodeID) s.routeTable).filter fun r =>
        r.nodeID ≠ nodeID ∨ r.route ∈ routes
      routeTable_fk := fun r hr => by
        rcases nodeID_of_mem_foldl_insertRoute routes (List.mem_of_mem_filter hr) with hr | hid
        · exact s.routeTable_fk r hr
        · rw [hid]
          exact h
      routeTable_pk := List.Pairwise.filter _ (foldl_insertRoute_pk routes s.routeTable_pk) }
  else if routes = [] then some s else none

/-- `SetAdvertisedRoutes` touches `node_routes` only. -/
theorem setAdvertisedRoutes_spec {s s' : Store} {nodeID : ℤ} {routes : List String}
    (h : s.setAdvertisedRoutes nodeID routes = some s') :
    s'.nodes = s.nodes ∧ s'.networks = s.networks ∧ s'.setupKeys = s.setupKeys ∧
      s'.aclRules = s.aclRules ∧ s'.users = s.users ∧ s'.settings = s.settings := by
  rw [setAdvertisedRoutes] at h
  split at h
  · obtain rfl := Option.some.inj h
    exact ⟨rfl, rfl, rfl, rfl, rfl, rfl⟩
  · split at h
    · obtain rfl := Option.some.inj h
      exact ⟨rfl, rfl, rfl, rfl, rfl, rfl⟩
    · cases h

theorem exists_setAdvertisedRoutes {s : Store} {nodeID : ℤ} (routes : List String)
    (h : ∃ n ∈ s.nodes.rows, n.id = nodeID) : ∃ s', s.setAdvertisedRoutes nodeID routes = some s' :=
  ⟨_, by rw [setAdvertisedRoutes, dif_pos h]⟩

/-- `NodeRoutes`, in the order of the route texts. -/
def nodeRoutes (s : Store) (nodeID : ℤ) : List NodeRoute :=
  (s.routeTable.filter (·.nodeID = nodeID)).insertionSort fun r r' => r.route ≤ r'.route

/-- `ApprovedNodeRoutes`. -/
def approvedNodeRoutes (s : Store) (nodeID : ℤ) : List String :=
  ((s.nodeRoutes nodeID).filter (·.approved)).map (·.route)

/-- `SetRouteApproved`. `none` is `ErrNotFound`. -/
def setRouteApproved (s : Store) (nodeID : ℤ) (route : String) (approved : Bool) : Option Store :=
  if s.routeTable.any fun r => r.nodeID = nodeID ∧ r.route = route then some { s with
    routeTable := s.routeTable.map fun r =>
      if r.nodeID = nodeID ∧ r.route = route then { r with approved := approved } else r
    routeTable_fk := fun r hr => by
      obtain ⟨r₀, hr₀, rfl⟩ := List.mem_map.mp hr
      obtain ⟨n, hn, hid⟩ := s.routeTable_fk r₀ hr₀
      refine ⟨n, hn, hid.trans ?_⟩
      split <;> rfl
    routeTable_pk := List.pairwise_map.mpr (s.routeTable_pk.imp fun hne => by
      split <;> split <;> exact hne) }
  else none

/-- `SetRouteApproved` touches `node_routes` only. -/
theorem setRouteApproved_spec {s s' : Store} {nodeID : ℤ} {route : String} {approved : Bool}
    (h : s.setRouteApproved nodeID route approved = some s') :
    s'.nodes = s.nodes ∧ s'.networks = s.networks ∧ s'.setupKeys = s.setupKeys ∧
      s'.aclRules = s.aclRules ∧ s'.users = s.users ∧ s'.settings = s.settings := by
  rw [setRouteApproved] at h
  split at h
  · obtain rfl := Option.some.inj h
    exact ⟨rfl, rfl, rfl, rfl, rfl, rfl⟩
  · cases h

section RouteFrame

variable {s s' : Store} {id nodeID : ℤ}

theorem approvedNodeRoutes_congr
    (h : s'.routeTable.filter (·.nodeID = id) = s.routeTable.filter (·.nodeID = id)) :
    s'.approvedNodeRoutes id = s.approvedNodeRoutes id := by
  rw [approvedNodeRoutes, nodeRoutes, h]
  rfl

theorem filter_foldl_insertRoute (routes : List String) (rs : List NodeRoute) (hid : id ≠ nodeID) :
    (routes.foldl (insertRoute nodeID) rs).filter (·.nodeID = id) =
      rs.filter (·.nodeID = id) := by
  induction routes generalizing rs with
  | nil => rfl
  | cons route routes ih =>
    rw [List.foldl_cons, ih, insertRoute]
    split
    · rfl
    · simp [List.filter_append, Ne.symm hid]

theorem approvedNodeRoutes_setAdvertisedRoutes {routes : List String}
    (h : s.setAdvertisedRoutes nodeID routes = some s') (hid : id ≠ nodeID) :
    s'.approvedNodeRoutes id = s.approvedNodeRoutes id := by
  rw [setAdvertisedRoutes] at h
  split at h
  · obtain rfl := Option.some.inj h
    refine approvedNodeRoutes_congr ?_
    rw [← filter_foldl_insertRoute routes s.routeTable hid, List.filter_filter]
    refine List.filter_congr ?_
    intro r _
    by_cases hr : r.nodeID = id
    · simp [hr, hid]
    · simp [hr]
  · split at h
    · obtain rfl := Option.some.inj h
      rfl
    · cases h

theorem approvedNodeRoutes_setRouteApproved {route : String} {approved : Bool}
    (h : s.setRouteApproved nodeID route approved = some s') (hid : id ≠ nodeID) :
    s'.approvedNodeRoutes id = s.approvedNodeRoutes id := by
  rw [setRouteApproved] at h
  split at h
  · obtain rfl := Option.some.inj h
    -- the approved row belongs to the other node, before and after
    refine approvedNodeRoutes_congr (AutoTable.filter_map_ite ?_)
    intro r _ hr
    simp [hr.1, Ne.symm hid]
  · cases h

theorem approvedNodeRoutes_deleteNode (h : s.deleteNode nodeID = some s') (hid : id ≠ nodeID) :
    s'.approvedNodeRoutes id = s.approvedNodeRoutes id := by
  obtain ⟨-, -, -, hroutes, -⟩ := deleteNode_spec h
  refine approvedNodeRoutes_congr ?_
  rw [hroutes, List.filter_filter]
  refine List.filter_congr ?_
  intro r _
  by_cases hr : r.nodeID = id
  · simp [hr, hid]
  · simp [hr]

end RouteFrame

end Store

end OverMesh
