import OverMesh.AdminApi.Requests
import OverMesh.Store.Routes

/-!
# What members can do and see

A member owns the devices that were enrolled with their setup keys, the routes of these devices, and
the setup keys. Requests of a member write these rows only, and the two lists of the interface are
made from these rows only: whatever else is in the database, a member gets the same reply.

## Main definitions

* `Confined` — the rows of others are as before
* `SameView` — two servers agree on what a member owns

## Main results

* `serve_member` — what a request of a member can write, over the whole route table
* `member_confined` — **members are confined to what they own**, in what they write and in what they
  are shown
-/

namespace OverMesh

namespace AdminApi

/-- The three requests that begin and end sessions. -/
def Request.isSession : Request → Bool
  | .login _ | .signup _ | .logout => true
  | _ => false

/-- What a request of the member `uid` can do to the database. -/
inductive MemberWrite (uid : ℤ) (st : Store) : Store → Prop
  | nothing : MemberWrite uid st st
  | deleteNode {n : Node} {st' : Store} (hn : n ∈ st.nodes.rows) (howner : n.ownerUserID = uid)
      (h : st.deleteNode n.id = some st') : MemberWrite uid st st'
  | newSetupKey {now nw : ℤ} {raw : List UInt8} {reusable : Bool} {exp : Option ℤ} {st' : Store}
      (h : st.newSetupKey now raw nw reusable exp uid = some st') : MemberWrite uid st st'
  | revokeSetupKey {k : SetupKey} {st' : Store} (hk : k ∈ st.setupKeys.rows)
      (howner : k.ownerUserID = uid) (h : st.revokeSetupKey k.id = some st') :
      MemberWrite uid st st'

/-- **The rows of others are as before**, and new setup keys are the member's own. -/
structure Confined (uid : ℤ) (st st' : Store) : Prop where
  nodes : ∀ n : Node, n.ownerUserID ≠ uid → (n ∈ st'.nodes.rows ↔ n ∈ st.nodes.rows)
  routes : ∀ r : NodeRoute, (∀ n ∈ st.nodes.rows, n.id = r.nodeID → n.ownerUserID ≠ uid) →
    (r ∈ st'.routeTable ↔ r ∈ st.routeTable)
  setupKeys : ∀ k : SetupKey, k.ownerUserID ≠ uid →
    (k ∈ st'.setupKeys.rows ↔ k ∈ st.setupKeys.rows)
  users : st'.users = st.users
  settings : st'.settings = st.settings
  aclRules : st'.aclRules = st.aclRules
  newKeys : ∀ k ∈ st'.setupKeys.rows, (∀ k₀ ∈ st.setupKeys.rows, k₀.id ≠ k.id) →
    k.ownerUserID = uid

/-- **The two servers agree on what a member owns**: the rows of their devices, of the routes of
these and of their setup keys, their account, and which of the devices are online. -/
structure SameView (uid : ℤ) (s s' : AdminServer) : Prop where
  nw : s.nw.id = s'.nw.id
  nodes : ∀ n : Node, n.ownerUserID = uid → (n ∈ s.c.st.nodes.rows ↔ n ∈ s'.c.st.nodes.rows)
  routes : ∀ n ∈ s.c.st.nodes.rows, n.ownerUserID = uid → ∀ r : NodeRoute, r.nodeID = n.id →
    (r ∈ s.c.st.routeTable ↔ r ∈ s'.c.st.routeTable)
  setupKeys : ∀ k : SetupKey, k.ownerUserID = uid →
    (k ∈ s.c.st.setupKeys.rows ↔ k ∈ s'.c.st.setupKeys.rows)
  account : s.c.st.users.byId uid = s'.c.st.users.byId uid
  online : ∀ n ∈ s.c.st.nodes.rows, n.ownerUserID = uid → s.c.online n.id = s'.c.online n.id

/-! ### What is written -/

section Confined

variable {uid : ℤ} {st st' : Store}

theorem Confined.of_deleteNode {n : Node} (hn : n ∈ st.nodes.rows) (howner : n.ownerUserID = uid)
    (h : st.deleteNode n.id = some st') : Confined uid st st' := by
  obtain ⟨hnodes, -, hkeys, hroutes, hacl, husers, hsettings⟩ := Store.deleteNode_spec h
  -- A row with the id that is deleted is the row of the device.
  have hid : ∀ m ∈ st.nodes.rows, m.ownerUserID ≠ uid → m.id ≠ n.id := by
    intro m hm hother heq
    rw [st.nodes.eq_of_id_eq hm hn heq] at hother
    exact hother howner
  refine ⟨?_, ?_, fun k _ => by rw [hkeys], husers, hsettings, hacl, ?_⟩
  · intro m hother
    rw [hnodes, AutoTable.mem_delete, and_iff_left_iff_imp, decide_eq_false_iff_not]
    exact fun hm => hid m hm hother
  · intro r hother
    rw [hroutes, List.mem_filter, and_iff_left_iff_imp, decide_eq_true_iff]
    exact fun _ hr => hother n hn hr.symm howner
  · intro k hk hnew
    rw [hkeys] at hk
    exact absurd rfl (hnew k hk)

theorem Confined.of_newSetupKey {now nw : ℤ} {raw : List UInt8} {reusable : Bool} {exp : Option ℤ}
    (h : st.newSetupKey now raw nw reusable exp uid = some st') : Confined uid st st' := by
  obtain ⟨⟨key, howner, hrows⟩, hnodes, hroutes, hacl, husers, hsettings⟩ :=
    Store.newSetupKey_spec h
  refine ⟨fun n _ => by rw [hnodes], fun r _ => by rw [hroutes], ?_, husers, hsettings, hacl,
    ?_⟩
  · intro k hother
    rw [hrows, List.mem_append, List.mem_singleton, or_iff_left_iff_imp]
    rintro rfl
    exact absurd howner hother
  · intro k hk hnew
    rw [hrows, List.mem_append, List.mem_singleton] at hk
    rcases hk with hold | rfl
    · exact absurd rfl (hnew k hold)
    · exact howner

theorem Confined.of_revokeSetupKey {key : SetupKey} (hkey : key ∈ st.setupKeys.rows)
    (howner : key.ownerUserID = uid) (h : st.revokeSetupKey key.id = some st') :
    Confined uid st st' := by
  obtain ⟨hrows, hnodes, hroutes, hacl, husers, hsettings⟩ := Store.revokeSetupKey_spec h
  -- The row that is changed is the member's, before and after.
  have hmem : ∀ k, k ∈ st'.setupKeys.rows → k ∈ st.setupKeys.rows ∨ k.ownerUserID = uid := by
    intro k hk
    rw [hrows] at hk
    obtain ⟨k₀, hk₀, rfl⟩ := List.mem_map.mp hk
    split_ifs with hid
    · rw [st.setupKeys.eq_of_id_eq hk₀ hkey hid]
      exact .inr howner
    · exact .inl hk₀
  refine ⟨fun n _ => by rw [hnodes], fun r _ => by rw [hroutes], ?_, husers, hsettings, hacl,
    ?_⟩
  · intro k hother
    constructor
    · intro hk
      exact (hmem k hk).resolve_right hother
    · intro hk
      rw [hrows]
      refine List.mem_map.mpr ⟨k, hk, if_neg ?_⟩
      intro hid
      rw [st.setupKeys.eq_of_id_eq hk hkey hid] at hother
      exact hother howner
  · intro k hk hnew
    exact (hmem k hk).resolve_left fun hold => hnew k hold rfl

theorem MemberWrite.confined (h : MemberWrite uid st st') : Confined uid st st' := by
  cases h with
  | nothing =>
    exact ⟨fun _ _ => .rfl, fun _ _ => .rfl, fun _ _ => .rfl, rfl, rfl, rfl,
      fun k hk hnew => absurd rfl (hnew k hk)⟩
  | deleteNode hn howner h => exact .of_deleteNode hn howner h
  | newSetupKey h => exact .of_newSetupKey h
  | revokeSetupKey hk howner h => exact .of_revokeSetupKey hk howner h

end Confined

namespace AdminServer

variable {s : AdminServer} {u : User} {now : ℤ} {cookie : Option String}

/-- A member sees what is their own. -/
theorem visible_iff (hm : u.role = .member) {owner : ℤ} :
    visible u owner = true ↔ owner = u.id := by
  simp [visible, hm]

theorem write_handleDeleteDevice (hm : u.role = .member) (pathID : String) :
    MemberWrite u.id s.c.st (s.handleDeleteDevice pathID u).2.c.st := by
  rw [handleDeleteDevice]
  split
  · exact .nothing
  · next id hid =>
    split
    · exact .nothing
    · next n hn =>
      split_ifs with hown
      · obtain ⟨hrow, rfl⟩ := Store.nodeByID_eq_some_iff.mp hn
        rcases s.c.deleteNode_spec n.id with
          ⟨hnone, -⟩ | ⟨_, st, nw, ipams, -, hst, -, -, hdelete⟩
        · rw [hn] at hnone
          cases hnone
        · rw [hdelete]
          refine .deleteNode hrow ((visible_iff hm).mp hown) (hst.trans (congrArg some ?_))
          change _ = (Coordinator.notifyNetworkLocked _ _).st
          rw [Coordinator.st_notifyNetworkLocked]
      · exact .nothing

theorem write_handleCreateSetupKey (raw : Option (List UInt8)) (body : Option KeyRequest) :
    MemberWrite u.id s.c.st (s.handleCreateSetupKey now raw body u).2.c.st := by
  cases body with
  | none => exact .nothing
  | some req =>
    cases raw with
    | none => exact .nothing
    | some raw =>
      rw [handleCreateSetupKey]
      split
      · exact .nothing
      · next st hst => exact .newSetupKey hst

theorem write_handleRevokeSetupKey (hm : u.role = .member) (pathID : String) :
    MemberWrite u.id s.c.st (s.handleRevokeSetupKey pathID u).2.c.st := by
  rw [handleRevokeSetupKey]
  split
  · exact .nothing
  · split
    · exact .nothing
    · next k hk =>
      split_ifs with hown
      · split
        · exact .nothing
        · next st hst =>
          obtain ⟨hrow, rfl⟩ := AutoTable.byId_eq_some_iff.mp hk
          exact .revokeSetupKey hrow ((visible_iff hm).mp hown) hst
      · exact .nothing

section Session

variable (hu : s.api.sessionUser now cookie = some u)

include hu

theorem auth_eq (next : User → Except Failure Body × AdminServer) :
    s.auth now cookie next = next u := by
  rw [auth, Api.auth, hu]

variable (hm : u.role = .member)

include hm

theorem api_admin_eq : s.api.admin now cookie = .error .adminRequired := by
  rw [Api.admin, hu]
  simp [hm]

theorem admin_eq (next : User → Except Failure Body × AdminServer) :
    s.admin now cookie next = (.error (.api .adminRequired), s) := by
  rw [admin, api_admin_eq hu hm]

/-- **What a request of a member can write**: nothing, or it takes away a device of theirs, or makes
or revokes a setup key of theirs. -/
theorem serve_member (b : Bcrypt) (rand : Task → Option (List UInt8)) (raw : Option (List UInt8))
    {req : Request} (hreq : req.isSession = false) :
    MemberWrite u.id s.c.st (s.serve b now rand raw cookie req).2.c.st := by
  cases req with
  | login body | signup body | logout => cases hreq
  | authInfo => exact .nothing
  | status | devices | setupKeys =>
    rw [serve, auth_eq hu]
    exact .nothing
  | deleteDevice pathID =>
    rw [serve, auth_eq hu]
    exact write_handleDeleteDevice hm pathID
  | createSetupKey body =>
    rw [serve, auth_eq hu]
    exact write_handleCreateSetupKey raw body
  | revokeSetupKey pathID =>
    rw [serve, auth_eq hu]
    exact write_handleRevokeSetupKey hm pathID
  | setRouteApproval pathID body | getACL | setACL body | checkACL body | users | audit =>
    rw [serve, admin_eq hu hm]
    exact .nothing
  | createUser body =>
    rw [serve, Api.handleCreateUser, api_admin_eq hu hm]
    exact .nothing
  | updateUser pathID body =>
    rw [serve, Api.handleUpdateUser, api_admin_eq hu hm]
    exact .nothing
  | deleteUser pathID =>
    rw [serve, Api.handleDeleteUser, api_admin_eq hu hm]
    exact .nothing
  | signupToggle body =>
    rw [serve, Api.handleSignupToggle, api_admin_eq hu hm]
    exact .nothing

end Session

/-! ### What is shown -/

/-- The table holds the name of the owner for each id in it. -/
structure Named (st : Store) (names : AList fun _ : ℤ => String) : Prop where
  zero_mem : 0 ∈ names
  lookup : ∀ id ∈ names, names.lookup id = some (ownerName st id)

variable {st : Store} {names : AList fun _ : ℤ => String}

theorem named_admin (st : Store) : Named st (AList.insert 0 "admin" ∅) := by
  refine ⟨(AList.mem_insert _).mpr (.inl rfl), ?_⟩
  intro id hid
  obtain rfl | hid := (AList.mem_insert _).mp hid
  · rw [AList.lookup_insert, ownerName, if_pos rfl]
  · exact absurd hid (AList.notMem_empty id)

theorem mem_addOwner {id i : ℤ} : i ∈ addOwner st names id ↔ i = id ∨ i ∈ names := by
  rw [addOwner]
  split_ifs with hid
  · exact ⟨.inr, fun h => h.elim (fun heq => heq ▸ hid) fun h => h⟩
  · exact AList.mem_insert _

theorem Named.addOwner (h : Named st names) (id : ℤ) : Named st (addOwner st names id) := by
  rw [AdminServer.addOwner]
  split_ifs with hid
  · exact h
  · -- The administrator is in the table from the beginning.
    have hzero : id ≠ 0 := fun hz => hid (hz ▸ h.zero_mem)
    refine ⟨(AList.mem_insert _).mpr (.inr h.zero_mem), ?_⟩
    intro i hi
    by_cases heq : i = id
    · subst heq
      rw [AList.lookup_insert, ownerName, if_neg hzero]
    · rw [AList.lookup_insert_ne heq]
      exact h.lookup i (((AList.mem_insert _).mp hi).resolve_left heq)

theorem Named.getD (h : Named st names) {id : ℤ} (hid : id ∈ names) :
    (names.lookup id).getD "" = ownerName st id := by
  rw [h.lookup id hid]
  rfl

theorem named_foldl_addOwner (nodes : List Node) (h : Named st names) :
    Named st (nodes.foldl (fun names n => AdminServer.addOwner st names n.ownerUserID) names) ∧
      ∀ id, (id ∈ names ∨ ∃ n ∈ nodes, n.ownerUserID = id) →
        id ∈ nodes.foldl (fun names n => AdminServer.addOwner st names n.ownerUserID) names := by
  induction nodes generalizing names with
  | nil =>
    refine ⟨h, fun id hid => hid.elim (fun h => h) fun ⟨n, hn, _⟩ => ?_⟩
    exact absurd hn List.not_mem_nil
  | cons n nodes ih =>
    obtain ⟨hnamed, hmem⟩ := ih (h.addOwner n.ownerUserID)
    refine ⟨hnamed, ?_⟩
    rintro id (hid | ⟨m, hm, rfl⟩)
    · exact hmem id (.inl (mem_addOwner.mpr (.inr hid)))
    · rcases List.mem_cons.mp hm with rfl | hm
      · exact hmem _ (.inl (mem_addOwner.mpr (.inl rfl)))
      · exact hmem _ (.inr ⟨m, hm, rfl⟩)

/-- The devices that are listed are those of the member, each with the name of its owner. -/
theorem handleDevices_eq (s : AdminServer) (u : User) : s.handleDevices u =
      ((s.c.st.nodesInNetwork s.nw.id).filter fun n => visible u n.ownerUserID).map fun n =>
        s.deviceJSON (ownerName s.c.st n.ownerUserID) n := by
  obtain ⟨hnamed, hmem⟩ :=
    named_foldl_addOwner (s.c.st.nodesInNetwork s.nw.id) (named_admin s.c.st)
  refine List.map_congr_left fun n hn => ?_
  rw [ownerNames, hnamed.getD (hmem _ (.inr ⟨n, (List.mem_filter.mp hn).1, rfl⟩))]

theorem foldl_setupKeysTurn (u : User) (ks : List SetupKey) (h : Named st names)
    (acc : List SetupKeyJSON) : (ks.foldl (setupKeysTurn st now u) (names, acc)).2 =
      acc ++ (ks.filter fun k => visible u k.ownerUserID).map fun k =>
        setupKeyJSON now (ownerName st k.ownerUserID) k := by
  induction ks generalizing names acc with
  | nil => rw [List.foldl_nil, List.filter_nil, List.map_nil, List.append_nil]
  | cons k ks ih =>
    rw [List.foldl_cons, setupKeysTurn]
    split_ifs with hown
    · have hname := (h.addOwner k.ownerUserID).getD (mem_addOwner.mpr (.inl rfl))
      rw [ih (h.addOwner k.ownerUserID), hname, List.filter_cons,
        if_pos hown, List.map_cons, List.append_assoc, List.singleton_append]
    · rw [ih h, List.filter_cons, if_neg hown]

/-- The setup keys that are listed are those of the member, each with the name of its owner. -/
theorem handleSetupKeys_eq (s : AdminServer) (u : User) : s.handleSetupKeys now u =
      ((s.c.st.setupKeysIn s.nw.id).filter fun k => visible u k.ownerUserID).map fun k =>
        setupKeyJSON now (ownerName s.c.st k.ownerUserID) k := by
  rw [handleSetupKeys, foldl_setupKeysTurn u _ (named_admin s.c.st), List.nil_append]

end AdminServer

namespace SameView

open AdminServer

variable {s s' : AdminServer} {u u' : User} (h : SameView u.id s s') (hm : u.role = .member)
  (hm' : u'.role = .member) (hid : u'.id = u.id)

include h

theorem ownerName_eq : ownerName s.c.st u.id = ownerName s'.c.st u.id := by
  rw [ownerName, ownerName, Store.userByID, Store.userByID, h.account]

theorem deviceJSON_eq {n : Node} (hn : n ∈ s.c.st.nodes.rows) (howner : n.ownerUserID = u.id)
    (owner : String) : s.deviceJSON owner n = s'.deviceJSON owner n := by
  rw [deviceJSON, deviceJSON, h.online n hn howner,
    Store.nodeRoutes_eq_of_mem_iff (h.routes n hn howner)]

include hm hm' hid

theorem handleDevices_eq : s.handleDevices u = s'.handleDevices u' := by
  have hrows : ((s.c.st.nodesInNetwork s.nw.id).filter fun n => visible u n.ownerUserID) =
      (s'.c.st.nodesInNetwork s'.nw.id).filter fun n => visible u' n.ownerUserID := by
    simp only [Store.nodesInNetwork, List.filter_filter, ← h.nw, visible, hm, hm', hid]
    refine AutoTable.filter_eq_of_mem_iff fun n hn => h.nodes n ?_
    simpa using (Bool.and_eq_true_iff.mp hn).1
  rw [AdminServer.handleDevices_eq, AdminServer.handleDevices_eq, ← hrows]
  refine List.map_congr_left fun n hn => ?_
  obtain ⟨hn, hown⟩ := List.mem_filter.mp hn
  have howner := (visible_iff hm).mp hown
  rw [howner, h.ownerName_eq]
  exact h.deviceJSON_eq (List.mem_filter.mp hn).1 howner _

theorem handleSetupKeys_eq (now : ℤ) : s.handleSetupKeys now u = s'.handleSetupKeys now u' := by
  have hrows : ((s.c.st.setupKeysIn s.nw.id).filter fun k => visible u k.ownerUserID) =
      (s'.c.st.setupKeysIn s'.nw.id).filter fun k => visible u' k.ownerUserID := by
    simp only [Store.setupKeysIn, List.filter_reverse, List.filter_filter, ← h.nw, visible, hm, hm',
      hid]
    refine congrArg List.reverse (AutoTable.filter_eq_of_mem_iff fun k hk => h.setupKeys k ?_)
    simpa using (Bool.and_eq_true_iff.mp hk).1
  rw [AdminServer.handleSetupKeys_eq, AdminServer.handleSetupKeys_eq, ← hrows]
  refine List.map_congr_left fun k hk => ?_
  rw [(visible_iff hm).mp (List.mem_filter.mp hk).2, h.ownerName_eq]

end SameView

/-! ### Members are confined -/

/-- **Members are confined to what they own.** Whatever the database holds, a request of a member
leaves the rows of others as they are and the keys it makes are the member's; and the two lists are
determined by the rows of the member. -/
theorem member_confined (b : Bcrypt) {s : AdminServer} {now : ℤ} {cookie : Option String} {u : User}
    (hu : s.api.sessionUser now cookie = some u) (hm : u.role = .member) :
    (∀ rand raw req, req.isSession = false →
      Confined u.id s.c.st (s.serve b now rand raw cookie req).2.c.st) ∧
    ∀ (s' : AdminServer) (cookie' : Option String) (u' : User),
      s'.api.sessionUser now cookie' = some u' → u'.role = .member → u'.id = u.id →
      SameView u.id s s' → ∀ rand raw,
        (s.serve b now rand raw cookie .devices).1 = (s'.serve b now rand raw cookie' .devices).1 ∧
        (s.serve b now rand raw cookie .setupKeys).1 =
          (s'.serve b now rand raw cookie' .setupKeys).1 := by
  constructor
  · intro rand raw req hreq
    exact (AdminServer.serve_member hu hm b rand raw hreq).confined
  · intro s' cookie' u' hu' hm' hid hview rand raw
    constructor
    · rw [AdminServer.serve, AdminServer.serve, AdminServer.auth_eq hu, AdminServer.auth_eq hu',
        hview.handleDevices_eq hm hm' hid]
    · rw [AdminServer.serve, AdminServer.serve, AdminServer.auth_eq hu, AdminServer.auth_eq hu',
        hview.handleSetupKeys_eq hm hm' hid]

/-- The member `mia`. -/
def sampleMember : User := ⟨2, "mia", .member, false, 0⟩

/-- A network, the administrator `root` and the member `mia`. -/
def sampleMembers : Store :=
  let add (s : Store) (name role : String) : Store :=
    match s.createUser sampleBcrypt 0 (some []) name "password" role with
    | .error _ => s
    | .ok (s, _) => s
  add (add (Store.empty.ensureNetwork "default" Coordinator.samplePrefix4
    Coordinator.samplePrefix6) "root" "admin") "mia" "member"

/-- The database after setup keys of the owners `ids` were made. -/
def sampleKeys (ids : List ℤ) : Store :=
  ids.foldl (fun st id =>
    (st.newSetupKey 0 [UInt8.ofNat id.toNat] 1 true none id).getD st) sampleMembers

/-- `mia` is logged in. -/
def sampleServer (st : Store) : AdminServer where
  c := .new st [] [] "mesh"
  nw := ⟨1, "default", Coordinator.samplePrefix4, Coordinator.samplePrefix6⟩
  sessions := [("01", ⟨sampleMember, sessionTTL⟩)]
  version := "dev"

/-- `mia` revokes their key, and is not shown the key that `root` makes. -/
theorem member_confined_mia :
    Confined 2 (sampleKeys [2, 1])
        ((sampleServer (sampleKeys [2, 1])).serve sampleBcrypt 0 (fun _ => none) none (some "01")
          (.revokeSetupKey "1")).2.c.st ∧
      ((sampleServer (sampleKeys [2])).serve sampleBcrypt 0 (fun _ => none) none (some "01")
          .setupKeys).1 =
        ((sampleServer (sampleKeys [2, 1])).serve sampleBcrypt 0 (fun _ => none) none (some "01")
          .setupKeys).1 := by
  have hu : ∀ st, (sampleServer st).api.sessionUser 0 (some "01") = some sampleMember :=
    fun st => by rw [Api.sessionUser, sampleServer]; rfl
  have hview : SameView 2 (sampleServer (sampleKeys [2])) (sampleServer (sampleKeys [2, 1])) := by
    have hnodes : (sampleKeys [2]).nodes.rows = [] ∧ (sampleKeys [2, 1]).nodes.rows = [] := by
      decide +kernel
    have hkeys : (sampleKeys [2, 1]).setupKeys.rows =
        (sampleKeys [2]).setupKeys.rows ++ [⟨2, 1, "sk-01", true, false, 0, 0, 0, 1⟩] := by
      decide +kernel
    have haccount : (sampleKeys [2]).users.byId 2 = (sampleKeys [2, 1]).users.byId 2 := by
      decide +kernel
    refine ⟨rfl, ?_, ?_, ?_, haccount, ?_⟩
    · intro n _
      change n ∈ (sampleKeys [2]).nodes.rows ↔ n ∈ (sampleKeys [2, 1]).nodes.rows
      rw [hnodes.1, hnodes.2]
    · intro n hn
      change n ∈ (sampleKeys [2]).nodes.rows at hn
      rw [hnodes.1] at hn
      exact absurd hn List.not_mem_nil
    · intro k howner
      change k ∈ (sampleKeys [2]).setupKeys.rows ↔ k ∈ (sampleKeys [2, 1]).setupKeys.rows
      rw [hkeys, List.mem_append, List.mem_singleton, iff_self_or]
      rintro rfl
      cases howner
    · intro n hn
      change n ∈ (sampleKeys [2]).nodes.rows at hn
      rw [hnodes.1] at hn
      exact absurd hn List.not_mem_nil
  exact ⟨(member_confined sampleBcrypt (hu _) rfl).1 _ _ _ rfl,
    ((member_confined sampleBcrypt (hu _) rfl).2 _ _ _ (hu _) rfl rfl hview _ _).2⟩

end AdminApi

end OverMesh
