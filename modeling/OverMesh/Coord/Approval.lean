import OverMesh.Coord.System
import OverMesh.Internal.History
import OverMesh.Store.Routes

/-!
# Approval follows the offer

Whether a route of a node is handed out is a matter of the past: what the node offered, and what an
administrator said about it since. Here the calls that succeed are written down as events, and a
book kept from the events alone is compared with the route table, once by a fold and once by the
history.

## Main definitions

* `RouteEvent`, `RouteEvent.apply` — the events and the book they keep
* `Approved` — approval as a statement about the history

## Main results

* `routeState_step` — the route table is the book of its events
* `routeBook_eq_some_true_iff` — the book says what the history says
* `netmap_routes_run` — the routes in the netmaps of a run
-/

namespace OverMesh

open Runs Coordinator

/-! ### Events -/

/-- A call that succeeded and is about the routes of a node. -/
inductive RouteEvent where
  | offered (id : ℤ) (routes : List String)
  | approval (id : ℤ) (route : String) (approved : Bool)
  | deleted (id : ℤ)
  deriving DecidableEq

/-- A book of routes: what is offered, and whether it is approved. -/
abbrev RouteBook := ℤ → String → Option Bool

/-- The book after an event. -/
def RouteEvent.apply (book : RouteBook) : RouteEvent → RouteBook
  | .offered i routes => fun id r =>
    if id = i then if r ∈ routes then some ((book id r).getD false) else none else book id r
  | .approval i route approved => fun id r =>
    if id = i ∧ r = route then (book id r).map fun _ => approved else book id r
  | .deleted i => fun id r => if id = i then none else book id r

/-- The event of a registration: the offer, with its routes normalised. -/
def registerEvents (req : RegisterRequest) (res : RegisterResult) : List RouteEvent :=
  match res, normalizeRoutes req.advertisedRoutes with
  | .ok (n, _), .ok routes => [.offered n.id routes]
  | _, _ => []

/-- The event of an approval or its withdrawal. -/
def approvalEvents (nodeID : ℤ) (route : String) (approved : Bool) (res : Except RouteError Unit) :
    List RouteEvent :=
  match res with
  | .ok _ => (normalizeRoute route).toList.map (.approval nodeID · approved)
  | .error _ => []

theorem registerEvents_ok {req : RegisterRequest} {routes : List String} (n : Node) (nw : Network)
    (h : normalizeRoutes req.advertisedRoutes = .ok routes) :
    registerEvents req (.ok (n, nw)) = [.offered n.id routes] := by
  simp only [registerEvents, h]

theorem approvalEvents_ok {route norm : String} (nodeID : ℤ) (approved : Bool)
    (h : normalizeRoute route = some norm) :
    approvalEvents nodeID route approved (.ok ()) = [.approval nodeID norm approved] := by
  rw [approvalEvents, h]
  rfl

/-- The events of a step. -/
def routeEvents (s : System) : Op → List RouteEvent
  | .register now req => registerEvents req (s.c.register now req).1
  | .setRouteApproved nodeID route approved =>
    approvalEvents nodeID route approved (s.c.setRouteApproved nodeID route approved).1
  | .deleteNode id => if (s.c.deleteNode id).1 then [.deleted id] else []
  | _ => []

/-! ### The route table keeps the book -/

section Table

variable {c : Coordinator}

theorem routeState_reRegister {req : RegisterRequest} {routes : List String} {n : Node}
    (hn : n ∈ c.st.nodes.rows) : (c.reRegister req routes n).2.st.routeState =
      RouteEvent.apply c.st.routeState (.offered n.id routes) := by
  rw [reRegister]
  set st := c.st.updateNodeOnRegister n.id req.nkey.string
    (newName c.st n (sanitizeHostname req.hostname)) req.osName with hst
  have hrow : ∃ m ∈ st.nodes.rows, m.id = n.id := by
    rw [hst, Store.updateNodeOnRegister, Store.rows_nodes_updateNode]
    exact ⟨_, List.mem_map_of_mem hn, by rw [if_pos rfl]⟩
  obtain ⟨st', hst'⟩ := Store.exists_setAdvertisedRoutes routes hrow
  have hstate : st'.routeState = RouteEvent.apply c.st.routeState (.offered n.id routes) := by
    funext id r
    rw [Store.routeState_setAdvertisedRoutes hst' hrow]
    rfl
  simp only [hst']
  split
  · exact hstate
  · rw [st_notifyNetworkLocked]
    exact hstate

/-- The routes of a node that was just inserted: its number is new, so nothing was offered under
it. -/
theorem routeState_of_createNode {st st' st'' : Store} {now : ℤ} {n₀ n : Node} {v6 : Netip.Addr}
    {routes : List String} (hn : st.createNode now n₀ = some (st', n))
    (h : (if routes = [] then some (st'.updateNodeIPv6 n.id v6)
      else (st'.updateNodeIPv6 n.id v6).setAdvertisedRoutes n.id routes) = some st'') :
    st''.routeState = RouteEvent.apply st.routeState (.offered n.id routes) := by
  obtain ⟨hid, hrows, -, -, -, htable, -⟩ := Store.createNode_spec hn
  have hstate : (st'.updateNodeIPv6 n.id v6).routeState = st.routeState :=
    Store.routeState_congr htable
  have hnew : ∀ r, st.routeState n.id r = none := by
    intro r
    refine Store.routeState_of_forall_ne ?_
    intro m hm he
    have hle := st.nodes.id_le m hm
    rw [he, hid] at hle
    exact absurd hle (by simp [Store.nodeRow])
  funext id r
  split_ifs at h with hnil
  · obtain rfl := Option.some.inj h
    rw [hstate, hnil]
    by_cases hi : id = n.id
    · simp [RouteEvent.apply, hi, hnew]
    · simp [RouteEvent.apply, hi]
  · have hrow : ∃ m ∈ (st'.updateNodeIPv6 n.id v6).nodes.rows, m.id = n.id := by
      rw [Store.updateNodeIPv6, Store.rows_nodes_updateNode, hrows]
      exact ⟨_, List.mem_map_of_mem (List.mem_append_right _ (List.mem_singleton_self n)),
        by rw [if_pos rfl]⟩
    rw [Store.routeState_setAdvertisedRoutes h hrow, hstate]
    rfl

theorem routeState_enroll {now : ℤ} {req : RegisterRequest} {routes : List String} {nw : Network}
    {ownerID : ℤ} (hroutes : normalizeRoutes req.advertisedRoutes = .ok routes) :
    (c.enroll now req routes nw ownerID).2.st.routeState =
      (registerEvents req (c.enroll now req routes nw ownerID).1).foldl RouteEvent.apply
        c.st.routeState := by
  rw [enroll]
  split
  · rfl
  · next alloc c' halloc =>
    obtain ⟨rfl, -⟩ := allocatorFor_ok halloc
    split
    · rfl
    · next v4 alloc' _ =>
      split
      · rfl
      · next st n hn =>
        obtain ⟨-, -, -, -, -, htable, -⟩ := Store.createNode_spec hn
        simp only
        split
        · exact Store.routeState_congr htable
        · next v6 _ =>
          split
          · exact Store.routeState_congr htable
          · next st' hst' =>
            simp only [st_notifyNetworkLocked, registerEvents_ok _ _ hroutes, List.foldl_cons,
              List.foldl_nil]
            exact routeState_of_createNode hn hst'

theorem routeState_register (now : ℤ) (req : RegisterRequest) :
    (c.register now req).2.st.routeState =
      (registerEvents req (c.register now req).1).foldl RouteEvent.apply c.st.routeState := by
  rw [register]
  split
  · rfl
  · next routes hroutes =>
    split
    · next n hn =>
      have hrow := (Store.nodeByMachineKey_eq_some_iff.mp hn).1
      obtain ⟨st, name, nw, -, -, -, -, -, -, -, hres⟩ := reRegister_spec (c := c) req routes hrow
      rw [routeState_reRegister hrow, hres, registerEvents_ok _ _ hroutes]
      rfl
    · split
      · rfl
      · cases hread : c.st.readSetupKey now req.setupKey with
        | error e =>
          rw [Store.useSetupKey_of_error hread]
          rfl
        | ok k =>
          obtain ⟨nw, -, huse⟩ := Store.useSetupKey_of_ok hread
          rw [huse]
          exact routeState_enroll hroutes

theorem routeState_approve (nodeID : ℤ) (route : String) (approved : Bool) :
    (c.setRouteApproved nodeID route approved).2.st.routeState =
      (approvalEvents nodeID route approved (c.setRouteApproved nodeID route approved).1).foldl
        RouteEvent.apply c.st.routeState := by
  rw [setRouteApproved]
  split
  · rfl
  · split
    · rfl
    · next norm hnorm =>
      split
      · rfl
      · next st hst =>
        rw [approvalEvents_ok _ _ hnorm, st_notifyNetworkLocked]
        funext id r
        rw [Store.routeState_setRouteApproved hst]
        rfl

theorem routeState_delete (id : ℤ) : (c.deleteNode id).2.st.routeState =
      (if (c.deleteNode id).1 then [RouteEvent.deleted id] else []).foldl RouteEvent.apply
        c.st.routeState := by
  rcases deleteNode_spec c id with ⟨-, hres⟩ | ⟨n, st, nw, ipams, -, hst, -, -, hres⟩
  · rw [hres]
    rfl
  · rw [hres, st_notifyNetworkLocked, if_pos rfl]
    funext i r
    exact Store.routeState_deleteNode hst

/-- **The route table is the book of its events.** -/
theorem routeState_step (s : System) (op : Op) :
    (s.step op).c.st.routeState = (routeEvents s op).foldl RouteEvent.apply s.c.st.routeState := by
  cases op with
  | register now req => exact routeState_register now req
  | setRouteApproved nodeID route approved => exact routeState_approve nodeID route approved
  | deleteNode id => exact routeState_delete id
  | updateEndpoints mkey endpoints =>
    rw [System.step]
    rcases s.c.updateEndpoints_cases mkey endpoints with heq | ⟨n, -, heq⟩
    · rw [heq]
      rfl
    · rw [heq, st_notifyNetworkLocked]
      rfl
  | subscribe now mkey =>
    simp only [System.step, subscribe]
    split
    · rfl
    · rw [st_notifyNetworkLocked]
      rfl
  | unsubscribe now i =>
    simp only [System.step, unsubscribe]
    split
    · rfl
    · split
      · rw [st_notifyNetworkLocked]
        rfl
      · rfl
  | recv ch => rfl
  | setACL nw rules =>
    simp only [System.step]
    split
    · rfl
    · next st hst =>
      obtain ⟨-, -, -, htable, -⟩ := Store.nodes_setACL hst
      exact Store.routeState_congr htable
  | aclChanged nw =>
    simp only [System.step, aclChanged, st_notifyNetworkLocked]
    rfl
  | signalSubscribe mkey =>
    obtain ⟨_, _, _, h⟩ := signalsOnly_signalSubscribe s mkey
    rw [h]
    rfl
  | signalUnsubscribe i =>
    obtain ⟨_, _, _, h⟩ := signalsOnly_signalUnsubscribe s i
    rw [h]
    rfl
  | routeSignal i env =>
    obtain ⟨_, _, _, h⟩ := signalsOnly_routeSignal s i env
    rw [h]
    rfl
  | recvSignal ch => rfl
  | ensureNetwork name v4 v6 =>
    refine Store.routeState_congr ?_
    simp only [System.step, System.withStore, Store.ensureNetwork]
    split <;> rfl
  | newSetupKey now raw nw reusable expiresAt owner =>
    refine Store.routeState_congr ?_
    simp only [System.step, System.withStore, Store.newSetupKey]
    split
    · split <;> rfl
    · rfl
  | revokeSetupKey id =>
    refine Store.routeState_congr ?_
    simp only [System.step, System.withStore, Store.revokeSetupKey]
    split <;> rfl
  | restart => rfl

end Table

/-! ### What the history says -/

/-- The routes of a node's most recent offer. -/
def latestOffer (h : List RouteEvent) (id : ℤ) : List String :=
  h.foldl (fun offer e => match e with
    | .offered i routes => if i = id then routes else offer
    | .approval .. => offer
    | .deleted i => if i = id then [] else offer) []

/-- The route newly enters the offer of the node. -/
def Enters (id : ℤ) (r : String) (h : List RouteEvent) (e : RouteEvent) : Prop :=
  ∃ routes, e = .offered id routes ∧ r ∈ routes ∧ r ∉ latestOffer h id

theorem enters_offered_iff {id i : ℤ} {r : String} {h : List RouteEvent} {routes : List String} :
    Enters id r h (.offered i routes) ↔ i = id ∧ r ∈ routes ∧ r ∉ latestOffer h id := by
  constructor
  · rintro ⟨_, he, hr⟩
    obtain ⟨rfl, rfl⟩ := RouteEvent.offered.inj he
    exact ⟨rfl, hr⟩
  · rintro ⟨rfl, hr⟩
    exact ⟨routes, rfl, hr⟩

/-- **Approval, as the history has it.** The route is in the most recent offer, and it was approved
at a time since which it did not newly enter the offer and was not refused. -/
def Approved (h : List RouteEvent) (id : ℤ) (r : String) : Prop :=
  r ∈ latestOffer h id ∧
    Since (fun h e => ¬ Enters id r h e ∧ e ≠ .approval id r false)
      (fun _ e => e = .approval id r true) h

/-- The book of a history. -/
def routeBook (h : List RouteEvent) : RouteBook := h.foldl RouteEvent.apply fun _ _ => none

section Book

variable (h : List RouteEvent) (id : ℤ) (r : String)

theorem isSome_routeBook_iff : (routeBook h id r).isSome ↔ r ∈ latestOffer h id := by
  induction h using List.reverseRecOn with
  | nil => simp [routeBook, latestOffer]
  | append_singleton h e ih =>
    rw [routeBook, latestOffer, List.foldl_concat, List.foldl_concat, ← routeBook, ← latestOffer]
    cases e with
    | offered i routes =>
      simp only [RouteEvent.apply, eq_comm (a := i)]
      split_ifs with hid hr
      · simp [hr]
      · simp [hr]
      · exact ih
    | approval i route approved =>
      simp only [RouteEvent.apply]
      split_ifs
      · rw [Option.isSome_map, ih]
      · exact ih
    | deleted i =>
      simp only [RouteEvent.apply, eq_comm (a := i)]
      split_ifs
      · simp
      · exact ih

/-- **The book says what the history says.** The induction takes the history from its end, where the
last event decides. -/
theorem routeBook_eq_some_true_iff : routeBook h id r = some true ↔ Approved h id r := by
  induction h using List.reverseRecOn with
  | nil => simp [routeBook, Approved, latestOffer]
  | append_singleton h e ih =>
    have hsome := isSome_routeBook_iff h id r
    have hsome' := isSome_routeBook_iff (h ++ [e]) id r
    rw [Approved, since_concat, ← hsome']
    rw [Approved, ← hsome] at ih
    rw [routeBook, List.foldl_concat, ← routeBook]
    cases e with
    | offered i routes =>
      rw [enters_offered_iff]
      simp only [reduceCtorEq, false_or, ne_eq, not_false_eq_true, and_true, RouteEvent.apply] at *
      split_ifs with hid hr
      · subst hid
        cases hb : routeBook h id r with
        | none =>
          -- the route newly enters the offer
          have hnot : r ∉ latestOffer h id := by simp [← hsome, hb]
          simp [hr, hnot]
        | some b =>
          have hmem : r ∈ latestOffer h id := by simp [← hsome, hb]
          rw [hb] at ih
          simpa [hr, hmem] using ih
      · simp
      · rw [ih]
        simp [Ne.symm hid]
    | approval i route approved =>
      have hkeep : ¬ Enters id r h (.approval i route approved) := by
        rintro ⟨routes, he, -⟩
        cases he
      simp only [hkeep, not_false_eq_true, true_and, RouteEvent.apply, RouteEvent.approval.injEq]
      split_ifs with hkey
      · obtain ⟨rfl, rfl⟩ := hkey
        cases hb : routeBook h id r with
        | none => simp
        | some b => cases approved <;> simp
      · have hne : ¬ (i = id ∧ route = r) := fun he => hkey ⟨he.1.symm, he.2.symm⟩
        rw [ih]
        simp [← and_assoc, hne]
    | deleted i =>
      have hkeep : ¬ Enters id r h (.deleted i) := by
        rintro ⟨routes, he, -⟩
        cases he
      simp only [hkeep, RouteEvent.apply]
      split_ifs with hid
      · simp
      · rw [ih]
        simp

/-- A new offer keeps the approvals of the routes it keeps and grants none. So a route that was
withdrawn and is offered again has to be approved again. -/
theorem approved_concat_offered (routes : List String) :
    Approved (h ++ [.offered id routes]) id r ↔ r ∈ routes ∧ Approved h id r := by
  rw [← routeBook_eq_some_true_iff, ← routeBook_eq_some_true_iff, routeBook, List.foldl_concat,
    ← routeBook]
  simp only [RouteEvent.apply, if_true]
  split_ifs with hr
  · cases routeBook h id r <;> simp [hr]
  · simp [hr]

end Book

/-! ### Netmaps -/

section Netmaps

variable {c : Coordinator} {n : Node} {nm : Proto.NetMap}

theorem approvedRoutes_of_build (h : c.buildNetMapLocked n = some nm) :
    nm.self.approvedRoutes = c.st.approvedNodeRoutes n.id := by
  obtain ⟨nw, -, rfl⟩ := Option.map_eq_some_iff.mp h
  rfl

/-- The entry of a peer has the routes of the node with the number of the entry. -/
theorem allowedRoutes_of_build (h : c.buildNetMapLocked n = some nm) {p : Proto.Peer}
    (hp : p ∈ nm.peers) : p.allowedRoutes = c.st.approvedNodeRoutes p.nodeID := by
  obtain ⟨nw, -, rfl⟩ := Option.map_eq_some_iff.mp h
  obtain ⟨m, hm, hentry⟩ := List.mem_filterMap.mp hp
  obtain ⟨key, -, rfl⟩ := Option.map_eq_some_iff.mp hentry
  have hrow := (Store.mem_nodesInNetwork.mp (List.mem_of_mem_filter hm)).1
  have hpos := c.st.nodes.id_pos m hrow
  rw [Int.toNat_of_nonneg hpos.le]

end Netmaps

theorem routeState_run {st : Store} (stunServers relays : List String) (dnsBase : String)
    (hst : st.routeTable = []) (ops : List Op) :
    (run System.step (System.start st stunServers relays dnsBase) ops).c.st.routeState =
      routeBook (history System.step routeEvents (System.start st stunServers relays dnsBase)
        ops) := by
  have hnone : st.routeState = fun _ _ => none := by
    funext id r
    rw [Store.routeState, hst]
    rfl
  rw [history_foldl (fun s : System => s.c.st.routeState) routeState_step, routeBook,
    ← hnone]
  rfl

/-- **Approval follows the offer.** In the netmaps built after any run, the routes of every node are
those that the history of the run has as approved, its own as well as those of its peers. An offer
keeps approvals and grants none. -/
theorem netmap_routes_run {st : Store} (stunServers relays : List String) (dnsBase : String)
    (hst : st.routeTable = []) (ops : List Op) {n : Node}
    (hn : n ∈ (run System.step (System.start st stunServers relays dnsBase) ops).c.st.nodes.rows) :
    ∃ nm, (run System.step (System.start st stunServers relays dnsBase) ops).c.buildNetMapLocked n =
        some nm ∧
      (∀ r, r ∈ nm.self.approvedRoutes ↔ Approved (history System.step routeEvents
        (System.start st stunServers relays dnsBase) ops) n.id r) ∧
      (∀ p ∈ nm.peers, ∀ r, r ∈ p.allowedRoutes ↔ Approved (history System.step routeEvents
        (System.start st stunServers relays dnsBase) ops) p.nodeID r) ∧
      ∀ routes r, Approved (history System.step routeEvents
          (System.start st stunServers relays dnsBase) ops ++ [.offered n.id routes]) n.id r ↔
        r ∈ routes ∧ Approved (history System.step routeEvents
          (System.start st stunServers relays dnsBase) ops) n.id r := by
  have hbook := routeState_run stunServers relays dnsBase hst ops
  obtain ⟨nw, hnw, -⟩ := Store.exists_networkByID hn
  obtain ⟨nm, hnm⟩ : ∃ nm, (run System.step (System.start st stunServers relays dnsBase)
      ops).c.buildNetMapLocked n = some nm := ⟨_, by rw [buildNetMapLocked, hnw]; rfl⟩
  refine ⟨nm, hnm, ?_, ?_, fun routes r => approved_concat_offered _ _ _ _⟩
  · intro r
    rw [approvedRoutes_of_build hnm, Store.mem_approvedNodeRoutes, hbook,
      routeBook_eq_some_true_iff]
  · intro p hp r
    rw [allowedRoutes_of_build hnm hp, Store.mem_approvedNodeRoutes, hbook,
      routeBook_eq_some_true_iff]

/-- The first machine of the sample mesh, offering a network. -/
def routedRequest : RegisterRequest :=
  { sampleRequest 1 "sk-01" with advertisedRoutes := ["10.1.0.7/24"] }

/-- It joins, and its offer is approved. -/
def approvalOps : List Op :=
  [.register 0 routedRequest, .setRouteApproved 1 "10.1.0.0/24" true]

theorem sampleStore_routes : sampleStore.routeTable = [] := by decide +kernel

theorem netmap_routes_approved :
    ∃ nm, (run System.step (System.start sampleStore [] [] "mesh") approvalOps).c.buildNetMapLocked
        (sampleNode 1 "host") = some nm ∧ "10.1.0.0/24" ∈ nm.self.approvedRoutes ∧
      Approved (history System.step routeEvents (System.start sampleStore [] [] "mesh")
        approvalOps) 1 "10.1.0.0/24" := by
  obtain ⟨nm, hnm, hself, -, -⟩ := netmap_routes_run [] [] "mesh" sampleStore_routes approvalOps
    (n := sampleNode 1 "host") (by decide +kernel)
  have hmem : "10.1.0.0/24" ∈ nm.self.approvedRoutes := by
    rw [approvedRoutes_of_build hnm]
    decide +kernel
  exact ⟨nm, hnm, hmem, (hself _).mp hmem⟩

end OverMesh
