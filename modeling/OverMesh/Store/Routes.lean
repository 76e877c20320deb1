import OverMesh.Store.Basic

/-!
# The route table

What `node_routes` says about one route of one node: nothing, offered, or offered and approved.
`routeState` reads that off, and each statement on the table has one equation for it.

## Main results

* `mem_approvedNodeRoutes` — the routes that are handed out are the approved ones
* `routeState_setAdvertisedRoutes` — an offer keeps the approval of the routes it keeps, and starts
  new ones unapproved
-/

namespace OverMesh

namespace Store

/-- What the table says about a route of a node: `none` if it is not offered, else its approval. -/
def routeState (s : Store) (nodeID : ℤ) (route : String) : Option Bool :=
  (s.routeTable.find? fun r => r.nodeID = nodeID ∧ r.route = route).map (·.approved)

variable {s s' : Store} {id nodeID : ℤ} {route r : String} {b : Bool}

/-- Two rows with one key are the same row. -/
theorem eq_of_routesPK {rs : List NodeRoute} (hpk : RoutesPK rs) {x y : NodeRoute} (hx : x ∈ rs)
    (hy : y ∈ rs) (hkey : x.nodeID = y.nodeID ∧ x.route = y.route) : x = y := by
  by_contra hne
  have hsymm : Std.Symm fun a b : NodeRoute => ¬ (a.nodeID = b.nodeID ∧ a.route = b.route) :=
    ⟨fun _ _ h he => h ⟨he.1.symm, he.2.symm⟩⟩
  exact List.Pairwise.forall hpk hx hy hne hkey

theorem routeState_eq_some_iff : s.routeState id r = some b ↔ ⟨id, r, b⟩ ∈ s.routeTable := by
  rw [routeState, Option.map_eq_some_iff]
  constructor
  · rintro ⟨⟨i, r', b'⟩, hfind, rfl⟩
    have hkey := List.find?_some hfind
    simp only [decide_eq_true_eq] at hkey
    obtain ⟨rfl, rfl⟩ := hkey
    exact List.mem_of_find?_eq_some hfind
  · intro hmem
    cases hfind : s.routeTable.find? fun x => x.nodeID = id ∧ x.route = r with
    | none => exact absurd (List.find?_eq_none.mp hfind _ hmem) (by simp)
    | some x =>
      have hkey := List.find?_some hfind
      simp only [decide_eq_true_eq] at hkey
      have hx := eq_of_routesPK s.routeTable_pk (List.mem_of_find?_eq_some hfind) hmem hkey
      exact ⟨x, rfl, by rw [hx]⟩

theorem routeState_eq_none_iff : s.routeState id r = none ↔ ∀ b, ⟨id, r, b⟩ ∉ s.routeTable := by
  rw [Option.eq_none_iff_forall_ne_some]
  exact forall_congr' fun b => not_congr routeState_eq_some_iff

theorem routeState_congr (h : s'.routeTable = s.routeTable) : s'.routeState = s.routeState := by
  funext id r
  rw [routeState, h]
  rfl

/-- The list of the routes of a node is determined by its rows. -/
theorem nodeRoutes_eq_of_mem_iff
    (h : ∀ r : NodeRoute, r.nodeID = id → (r ∈ s.routeTable ↔ r ∈ s'.routeTable)) :
    s.nodeRoutes id = s'.nodeRoutes id := by
  have htotal : Std.Total fun r r' : NodeRoute => r.route ≤ r'.route :=
    ⟨fun r r' => String.le_total r.route r'.route⟩
  have htrans : IsTrans NodeRoute fun r r' => r.route ≤ r'.route := ⟨fun _ _ _ => String.le_trans⟩
  have hnodup : ∀ t : Store, (t.routeTable.filter (·.nodeID = id)).Nodup := by
    intro t
    have hrows : t.routeTable.Nodup := t.routeTable_pk.imp (by rintro r _ hne rfl; simp at hne)
    exact hrows.filter _
  have hperm : (s.nodeRoutes id).Perm (s'.nodeRoutes id) := by
    refine (List.perm_insertionSort _ _).trans (.trans ?_ (List.perm_insertionSort _ _).symm)
    refine (List.perm_ext_iff_of_nodup (hnodup s) (hnodup s')).mpr ?_
    intro r
    rw [List.mem_filter, List.mem_filter, decide_eq_true_iff]
    exact and_congr_left (h r)
  refine List.Perm.eq_of_pairwise ?_ (List.pairwise_insertionSort _ _)
    (List.pairwise_insertionSort _ _) hperm
  intro r r' hr hr' hle hge
  rw [hperm.mem_iff] at hr
  obtain ⟨hr, hid⟩ := List.mem_filter.mp ((List.perm_insertionSort _ _).mem_iff.mp hr)
  obtain ⟨hr', hid'⟩ := List.mem_filter.mp ((List.perm_insertionSort _ _).mem_iff.mp hr')
  rw [decide_eq_true_iff] at hid hid'
  exact eq_of_routesPK s'.routeTable_pk hr hr' ⟨hid.trans hid'.symm, String.le_antisymm hle hge⟩

/-- **The routes that are handed out** are those that are offered and approved. -/
theorem mem_approvedNodeRoutes : r ∈ s.approvedNodeRoutes id ↔ s.routeState id r = some true := by
  rw [routeState_eq_some_iff, approvedNodeRoutes, nodeRoutes, List.mem_map]
  constructor
  · rintro ⟨⟨i, r', b⟩, hx, rfl⟩
    obtain ⟨hx, hb⟩ := List.mem_filter.mp hx
    rw [List.mem_insertionSort, List.mem_filter] at hx
    obtain ⟨hx, hi⟩ := hx
    simp only [decide_eq_true_eq] at hi hb
    rw [← hi, ← hb]
    exact hx
  · intro hmem
    refine ⟨⟨id, r, true⟩, ?_, rfl⟩
    rw [List.mem_filter, List.mem_insertionSort, List.mem_filter]
    exact ⟨⟨hmem, by simp⟩, rfl⟩

/-! ### Statements -/

theorem mem_foldl_insertRoute (routes : List String) (rs : List NodeRoute) {x : NodeRoute} :
    x ∈ routes.foldl (insertRoute nodeID) rs ↔
      x ∈ rs ∨ x.nodeID = nodeID ∧ x.route ∈ routes ∧ x.approved = false ∧
        ∀ b, ⟨nodeID, x.route, b⟩ ∉ rs := by
  induction routes generalizing rs with
  | nil => simp
  | cons route routes ih =>
    rw [List.foldl_cons, ih, insertRoute]
    split
    · next hany =>
      -- the row is there already
      obtain ⟨y, hy, hkey⟩ := List.any_eq_true.mp hany
      rw [decide_eq_true_eq] at hkey
      refine or_congr_right (and_congr_right fun _ => ?_)
      constructor
      · rintro ⟨hmem, hb, hno⟩
        exact ⟨List.mem_cons_of_mem _ hmem, hb, hno⟩
      · rintro ⟨hmem, hb, hno⟩
        refine ⟨(List.mem_cons.mp hmem).resolve_left fun he => hno y.approved ?_, hb, hno⟩
        rw [he, ← hkey.1, ← hkey.2]
        exact hy
    · next hany =>
      have hnone : ∀ b, ⟨nodeID, route, b⟩ ∉ rs := by
        intro b hb
        exact hany (List.any_eq_true.mpr ⟨_, hb, by simp⟩)
      obtain ⟨i, r', b⟩ := x
      simp only [List.mem_append, NodeRoute.mk.injEq, List.mem_cons, List.not_mem_nil, or_false]
      constructor
      · rintro ((hx | ⟨rfl, rfl, rfl⟩) | ⟨rfl, hmem, rfl, hno⟩)
        · exact .inl hx
        · exact .inr ⟨rfl, .inl rfl, rfl, hnone⟩
        · exact .inr ⟨rfl, .inr hmem, rfl, fun b hb => hno b (.inl hb)⟩
      · rintro (hx | ⟨rfl, hmem, rfl, hno⟩)
        · exact .inl (.inl hx)
        · by_cases he : r' = route
          · exact .inl (.inr ⟨rfl, he, rfl⟩)
          · refine .inr ⟨rfl, hmem.resolve_left he, rfl, ?_⟩
            rintro b (hb | hb)
            · exact hno b hb
            · exact he hb.2.1

/-- **An offer** keeps the approval of the routes it keeps. New routes start unapproved, the others
go. -/
theorem routeState_setAdvertisedRoutes {routes : List String}
    (h : s.setAdvertisedRoutes nodeID routes = some s') (hn : ∃ n ∈ s.nodes.rows, n.id = nodeID) :
    s'.routeState id r =
      if id = nodeID then
        if r ∈ routes then some ((s.routeState id r).getD false) else none
      else s.routeState id r := by
  rw [setAdvertisedRoutes, dif_pos hn] at h
  obtain rfl := Option.some.inj h
  refine Option.ext fun b => ?_
  rw [routeState_eq_some_iff]
  simp only [List.mem_filter, mem_foldl_insertRoute]
  split_ifs with hid hr
  · subst hid
    rw [Option.some.injEq]
    cases hst : s.routeState id r with
    | none =>
      have hno := routeState_eq_none_iff.mp hst
      simp [hr, hno, eq_comm]
    | some b' =>
      have hrow := routeState_eq_some_iff.mp hst
      have hiff : ⟨id, r, b⟩ ∈ s.routeTable ↔ b' = b := by
        rw [← routeState_eq_some_iff, hst, Option.some.injEq]
      simp only [hiff, Option.getD_some, hr, true_and, or_true, decide_true, and_true]
      constructor
      · rintro (hb | ⟨-, hno⟩)
        · exact hb
        · exact absurd hrow (hno b')
      · exact .inl
  · simp [hid, hr]
  · rw [← routeState_eq_some_iff]
    simp [hid]

/-- **An approval** is about a route that is offered. -/
theorem routeState_setRouteApproved {approved : Bool}
    (h : s.setRouteApproved nodeID route approved = some s') : s'.routeState id r =
      if id = nodeID ∧ r = route then (s.routeState id r).map fun _ => approved
      else s.routeState id r := by
  rw [setRouteApproved] at h
  split at h
  · obtain rfl := Option.some.inj h
    refine Option.ext fun b => ?_
    rw [routeState_eq_some_iff]
    simp only [List.mem_map]
    split_ifs with hkey
    · obtain ⟨rfl, rfl⟩ := hkey
      rw [Option.map_eq_some_iff]
      constructor
      · rintro ⟨⟨i, r', b'⟩, hx, heq⟩
        split_ifs at heq with hkey
        · obtain ⟨rfl, rfl⟩ := hkey
          simp only [NodeRoute.mk.injEq, true_and] at heq
          exact ⟨b', routeState_eq_some_iff.mpr hx, heq⟩
        · simp only [NodeRoute.mk.injEq] at heq
          exact absurd ⟨heq.1, heq.2.1⟩ hkey
      · rintro ⟨b', hst, rfl⟩
        exact ⟨_, routeState_eq_some_iff.mp hst, by simp⟩
    · rw [routeState_eq_some_iff]
      constructor
      · rintro ⟨⟨i, r', b'⟩, hx, heq⟩
        split_ifs at heq with hkey'
        · simp only [NodeRoute.mk.injEq] at heq
          obtain ⟨rfl, rfl, -⟩ := heq
          exact absurd hkey' hkey
        · rw [← heq]
          exact hx
      · intro hx
        exact ⟨_, hx, by rw [if_neg hkey]⟩
  · cases h

/-- The routes of a node go with it. -/
theorem routeState_deleteNode (h : s.deleteNode nodeID = some s') :
    s'.routeState id r = if id = nodeID then none else s.routeState id r := by
  obtain ⟨-, -, -, hroutes, -⟩ := deleteNode_spec h
  refine Option.ext fun b => ?_
  rw [routeState_eq_some_iff, hroutes, List.mem_filter]
  split_ifs with hid
  · simp [hid]
  · rw [routeState_eq_some_iff]
    simp [hid]

/-- A node that is not there has no routes. -/
theorem routeState_of_forall_ne (h : ∀ n ∈ s.nodes.rows, n.id ≠ id) : s.routeState id r = none := by
  rw [routeState_eq_none_iff]
  intro b hb
  obtain ⟨n, hn, hid⟩ := s.routeTable_fk _ hb
  exact h n hn hid

end Store

end OverMesh
