import OverMesh.Coord.Process

/-!
# What a sequence number says

A client that reconnects may one day say which netmap it has and be spared a copy of it. For that a
sequence number has to stand for one map. The number of a network is raised by each notification,
before the maps are built; a map is also built for a client that subscribes, without raising it.

In one channel the numbers always rise. But the map a client is sent when it comes back may differ
from the one it was sent under the same number: rules may have been written that are not announced
yet, and a registration that failed late has left a node behind without a notification.

## Main definitions

* `SeqIdentifies` — numbers rise in each channel, and maps of a node with one number are equal
* `Unchanged` — the map of a client that comes back is the one it had under that number
* `Shows` — what maps of a node with one number have in common

## Main results

* `SeqInv.step`
* `seqIdentifies_iff` — **sequence numbers identify maps if and only if no client comes back to
  other rules or to a node that was not announced**
-/

namespace OverMesh

open Key Channel Runs Coordinator Process Store

/-- **Sequence numbers identify maps**: in each channel they rise, and two maps that were built for
a node under one number are equal. -/
def SeqIdentifies (t : Process) : Prop :=
  (∀ ch, ((t.sys.c.chans.get ch).accepted.map (·.seq)).Pairwise (· < ·)) ∧
    ∀ i nm nm', (i, nm) ∈ t.built → (i, nm') ∈ t.built → nm.seq = nm'.seq → nm = nm'

/-- The ids of the peers a node is shown. -/
def Coordinator.peerIDs (c : Coordinator) (n : Node) : List ℕ :=
  (((c.st.nodesInNetwork n.networkID).filter (·.id ≠ n.id)).filterMap c.peerEntry).map (·.nodeID)

/-- When a client subscribes for whose node a map has been built under the current number, the rules
in the database still compile to the filter of that map, and no node has come in since. -/
def Unchanged (t : Process) : Tick → Prop
  | .call (.subscribe _ mkey) => t.loop = [] →
      ∀ n, t.sys.c.st.nodeByMachineKey mkey.string = some n → ∀ nm, (n.id, nm) ∈ t.built →
        nm.seq = t.sys.c.seq n.networkID →
          compileFilterForNode t.sys.c.st n = (nm.filter, nm.filterEnabled) ∧
            t.sys.c.peerIDs n = nm.peers.map (·.nodeID)
  | _ => True

/-! ### What maps under one number have in common -/

/-- `nm'` shows what `nm` shows, perhaps with further peers and another filter. -/
def Shows (nm nm' : Proto.NetMap) : Prop :=
  ∃ more filter enabled, nm' = { nm with
    peers := nm.peers ++ more, filter := filter, filterEnabled := enabled }

theorem Shows.refl (nm : Proto.NetMap) : Shows nm nm :=
  ⟨[], nm.filter, nm.filterEnabled, by rw [List.append_nil]⟩

theorem Shows.trans {nm nm' nm'' : Proto.NetMap} (h : Shows nm nm') (h' : Shows nm' nm'') :
    Shows nm nm'' := by
  obtain ⟨more, _, _, rfl⟩ := h
  obtain ⟨more', filter, enabled, rfl⟩ := h'
  exact ⟨more ++ more', filter, enabled, by rw [← List.append_assoc]⟩

/-- They are equal if the filter is the same and no peer has been added. -/
theorem Shows.eq_iff {nm nm' : Proto.NetMap} (h : Shows nm nm') :
    nm = nm' ↔ (nm'.filter, nm'.filterEnabled) = (nm.filter, nm.filterEnabled) ∧
      nm'.peers.map (·.nodeID) = nm.peers.map (·.nodeID) := by
  constructor
  · rintro rfl
    exact ⟨rfl, rfl⟩
  · obtain ⟨more, filter, enabled, rfl⟩ := h
    rintro ⟨hfilter, hpeers⟩
    obtain ⟨rfl, rfl⟩ := Prod.mk.inj hfilter
    have hmore : more = [] := by
      rw [List.map_append, List.append_right_eq_self] at hpeers
      exact List.map_eq_nil_iff.mp hpeers
    rw [hmore, List.append_nil]

/-- **A silent step** adds to a map at most, except for the filter. -/
theorem Silent.shows {c c' : Coordinator} (h : Silent c c') {n : Node} (hn : n ∈ c.st.nodes.rows)
    {nm : Proto.NetMap} (hnm : c.buildNetMapLocked n = some nm) :
    ∃ nm', c'.buildNetMapLocked n = some nm' ∧ Shows nm nm' := by
  obtain ⟨more, hrows, -⟩ := h.store.rows
  obtain ⟨nw, hnw, -⟩ := exists_networkByID hn
  obtain ⟨extra, hpeers⟩ : ∃ extra,
      ((c'.st.nodesInNetwork n.networkID).filter (·.id ≠ n.id)).filterMap c'.peerEntry =
        ((c.st.nodesInNetwork n.networkID).filter (·.id ≠ n.id)).filterMap c.peerEntry ++
          extra := by
    rw [nodesInNetwork, hrows, List.filter_append, List.filter_append, List.filterMap_append]
    refine ⟨_, congrArg (· ++ _) (List.filterMap_congr ?_)⟩
    intro p hp
    have hp' : p ∈ c.st.nodes.rows := List.mem_of_mem_filter (List.mem_of_mem_filter hp)
    rw [peerEntry, peerEntry, h.store.routes p hp', h.online]
  rw [buildNetMapLocked, hnw, Option.map_some, Option.some.injEq] at hnm
  rw [buildNetMapLocked, h.store.network _ nw hnw, Option.map_some]
  refine ⟨_, rfl, extra, (compileFilterForNode c'.st n).1, (compileFilterForNode c'.st n).2, ?_⟩
  rw [hpeers, h.seq, h.store.routes n hn, h.config.1, h.config.2.1, h.config.2.2, ← hnm]

/-! ### The map of a client that comes back -/

section Touch

variable {c : Coordinator} {n : Node} {now : ℤ}

/-- A rule compiles to the same thing for rows that differ in times only. -/
theorem srcCidrs_map {f : Node → Node} (hid : ∀ m, (f m).id = m.id)
    (hcidrs : ∀ m, overlayCIDRs (f m) = overlayCIDRs m) (nodes : List Node) (ids : List ℤ) :
    srcCidrs (nodes.map f) ids = srcCidrs nodes ids := by
  rw [srcCidrs, srcCidrs]
  congr 1
  funext id
  have hcomp : ((fun m : Node => decide (m.id = id)) ∘ f) = fun m => decide (m.id = id) := by
    funext m
    simp only [Function.comp_apply, hid]
  rw [List.find?_map, hcomp]
  cases nodes.find? fun m => decide (m.id = id) with
  | none => rfl
  | some src => exact hcidrs src

theorem compileFilterForNode_touchNode (st : Store) (id : ℤ) (dst : Node) :
    compileFilterForNode (st.touchNode id now) dst = compileFilterForNode st dst := by
  set f : Node → Node := fun m => if m.id = id then { m with lastSeen := unixSeconds now } else m
  have hnodes : (st.touchNode id now).nodesInNetwork dst.networkID =
      (st.nodesInNetwork dst.networkID).map f := by
    rw [nodesInNetwork, touchNode, rows_nodes_updateNode, List.filter_map]
    refine congrArg (List.map f) (List.filter_congr ?_)
    intro m _
    simp only [Function.comp_apply]
    split <;> rfl
  have hsrc : ∀ ids, srcCidrs ((st.nodesInNetwork dst.networkID).map f) ids =
      srcCidrs (st.nodesInNetwork dst.networkID) ids := by
    refine srcCidrs_map (fun m => ?_) (fun m => ?_) _
    · simp only [f]
      split <;> rfl
    · simp only [f]
      split <;> rfl
  have hrule : compileRule ((st.nodesInNetwork dst.networkID).map f) dst =
      compileRule (st.nodesInNetwork dst.networkID) dst := by
    funext r
    simp only [compileRule, filterRule, hsrc]
  rw [compileFilterForNode, hnodes, hrule]
  rfl

/-- **The map a stream is primed with** is the one that would have been built before: a node does
not show in its own map. -/
theorem buildNetMapLocked_openStream :
    (c.openStream now n).buildNetMapLocked n = c.buildNetMapLocked n := by
  have hst : (c.openStream now n).st = c.st.touchNode n.id now := rfl
  have hrows : ((c.st.touchNode n.id now).nodesInNetwork n.networkID).filter (·.id ≠ n.id) =
      (c.st.nodesInNetwork n.networkID).filter (·.id ≠ n.id) := by
    rw [nodesInNetwork, nodesInNetwork, touchNode, rows_nodes_updateNode,
      List.filter_filter, List.filter_filter]
    refine AutoTable.filter_map_ite ?_
    intro m _ hid
    simp [hid]
  have hpeers : ((c.st.nodesInNetwork n.networkID).filter (·.id ≠ n.id)).filterMap
      (c.openStream now n).peerEntry =
      ((c.st.nodesInNetwork n.networkID).filter (·.id ≠ n.id)).filterMap c.peerEntry := by
    refine List.filterMap_congr ?_
    intro p hp
    have hne : p.id ≠ n.id := by simpa using (List.mem_filter.mp hp).2
    have honline : (c.openStream now n).online p.id = c.online p.id := Function.update_of_ne hne _ _
    rw [peerEntry, peerEntry, honline]
    rfl
  rw [buildNetMapLocked, hst, hrows, hpeers, compileFilterForNode_touchNode]
  rfl

end Touch

/-! ### The invariant -/

/-- Every map in the channel of a node has been recorded for it. The numbers of a network are not
behind those of the maps of its nodes, and ahead of them for the nodes that have their turn still to
come. A map with the number its network has now shows what the coordinator would show. -/
structure SeqInv (t : Process) : Prop where
  streams : StreamInv t.sys.c t.sys.streams
  loop : ∀ n ∈ t.loop, n ∈ t.sys.c.st.nodes.rows
  nodup : (t.loop.map (·.id)).Nodup
  rising : ∀ ch, ((t.sys.c.chans.get ch).accepted.map (·.seq)).Pairwise (· < ·)
  recorded : ∀ i ch, t.sys.c.subs i = some ch → ∀ nm ∈ (t.sys.c.chans.get ch).accepted,
    (i, nm) ∈ t.built
  known : ∀ p ∈ t.built, p.1 ≤ t.sys.c.st.nodes.seq
  le : ∀ n ∈ t.sys.c.st.nodes.rows, ∀ nm, (n.id, nm) ∈ t.built → nm.seq ≤ t.sys.c.seq n.networkID
  lt : ∀ n ∈ t.loop, ∀ nm, (n.id, nm) ∈ t.built → nm.seq < t.sys.c.seq n.networkID
  view : ∀ n ∈ t.sys.c.st.nodes.rows, ∀ nm, (n.id, nm) ∈ t.built →
    nm.seq = t.sys.c.seq n.networkID →
      ∃ nm', t.sys.c.buildNetMapLocked n = some nm' ∧ Shows nm nm'

theorem seqInv_start (st : Store) (stunServers relays : List String) (dnsBase : String) :
    SeqInv (.start st stunServers relays dnsBase) where
  streams := (deliveryInv_start st stunServers relays dnsBase).streams
  loop _ h := absurd h List.not_mem_nil
  nodup := .nil
  rising _ := .nil
  recorded _ _ h := absurd h (Option.some_ne_none _).symm
  known _ h := absurd h List.not_mem_nil
  le _ _ _ h := absurd h List.not_mem_nil
  lt _ h := absurd h List.not_mem_nil
  view _ _ _ h := absurd h List.not_mem_nil

/-- A push leaves the streams alone. -/
theorem StreamInv.pushNetMap {c : Coordinator} {streams : List (Node × ℕ)} (h : StreamInv c streams)
    (n : Node) : StreamInv (c.pushNetMap n) streams := by
  refine h.of_changes (w := 0) ?_ ?_ (subs_pushNetMap n) ?_ fun ch => ?_
  · rw [st_pushNetMap]
    exact .refl c.st 0
  · rw [st_pushNetMap]
    exact keepsRows_of_eq rfl
  · exact next_pushNetMap n
  · exact closed_pushNetMap n ch

/-- So does a silent step. -/
theorem StreamInv.silent {c c' : Coordinator} {streams : List (Node × ℕ)} (h : StreamInv c streams)
    (hc : Silent c c') : StreamInv c' streams := by
  obtain ⟨more, hrows, hnew⟩ := hc.store.rows
  refine ⟨?_, ?_, ?_, ?_, ?_⟩
  · intro i ch hi
    rw [hc.subs] at hi
    rw [hc.next]
    exact h.lt_next i ch hi
  · rw [hc.subs]
    exact h.inj
  · intro i ch hi
    rw [hc.subs] at hi
    rw [hc.closed]
    exact h.opened i ch hi
  · intro i ch hi
    rw [hc.subs] at hi
    obtain ⟨n, hn, hid⟩ := h.live i ch hi
    refine ⟨n, ?_, hid⟩
    rw [hrows]
    exact List.mem_append_left _ hn
  · intro p hp
    obtain ⟨hle, hcap⟩ := h.captured p hp
    refine ⟨hle.trans hc.store.seq, ?_⟩
    intro m hm hid
    rw [hrows, List.mem_append] at hm
    rcases hm with hm | hm
    · exact hcap m hm hid
    · exact absurd hle (not_le_of_gt (hid ▸ hnew m hm))

namespace SeqInv

variable {t : Process}

/-- The channel of a node that has its turn takes the new map, if it is built. -/
theorem accepted_pushNetMap (c : Coordinator) (n : Node) (ch : ℕ) :
    ((c.pushNetMap n).chans.get ch).accepted = (c.chans.get ch).accepted ∨
      ∃ nm, c.subs n.id = some ch ∧ c.buildNetMapLocked n = some nm ∧
        ((c.pushNetMap n).chans.get ch).accepted = (c.chans.get ch).accepted ++ [nm] := by
  by_cases hch : c.subs n.id = some ch
  · cases hnm : c.buildNetMapLocked n with
    | none =>
      refine .inl ?_
      simp only [pushNetMap, hch, hnm]
    | some nm =>
      rw [get_pushNetMap hch hnm, Chan.trySend]
      split_ifs
      · exact .inl rfl
      · exact .inr ⟨nm, hch, rfl, by simp [Chan.accepted]⟩
      · exact .inl rfl
  · exact .inl (congrArg Chan.accepted (get_pushNetMap_of_ne hch))

/-- What a turn records. -/
theorem mem_turnMap {c : Coordinator} {n : Node} {i : ℤ} {nm : Proto.NetMap} :
    (i, nm) ∈ c.turnMap n ↔ i = n.id ∧ (c.subs n.id).isSome = true ∧
      c.buildNetMapLocked n = some nm := by
  rw [turnMap]
  cases c.subs n.id with
  | none => simp
  | some ch =>
    cases c.buildNetMapLocked n with
    | none => simp
    | some nm' =>
      simp only [List.mem_singleton, Prod.mk.injEq, Option.isSome_some, true_and, Option.some.injEq]
      exact and_congr_right fun _ => eq_comm

section Turn

variable {n m : Node} {nm : Proto.NetMap}

/-- The new map has a higher number than those in the channel. -/
theorem rising_pushNetMap (h : SeqInv t) (hn : n ∈ t.loop) (ch : ℕ) :
    (((t.sys.c.pushNetMap n).chans.get ch).accepted.map (·.seq)).Pairwise (· < ·) := by
  rcases accepted_pushNetMap t.sys.c n ch with he | ⟨nm, hch, hnm, he⟩
  · rw [he]
    exact h.rising ch
  · rw [he, List.map_append, List.map_singleton, List.pairwise_append]
    refine ⟨h.rising ch, List.pairwise_singleton _ _, ?_⟩
    intro a ha b hb
    obtain ⟨nm₀, hnm₀, rfl⟩ := List.mem_map.mp ha
    rw [List.mem_singleton.mp hb, seq_of_buildNetMapLocked hnm]
    exact h.lt n hn nm₀ (h.recorded n.id ch hch nm₀ hnm₀)

theorem recorded_pushNetMap (h : SeqInv t) (n : Node) {i : ℤ} {ch : ℕ}
    (hi : t.sys.c.subs i = some ch) (hnm : nm ∈ ((t.sys.c.pushNetMap n).chans.get ch).accepted) :
    (i, nm) ∈ t.built ++ t.sys.c.turnMap n := by
  rcases accepted_pushNetMap t.sys.c n ch with he | ⟨nm', hch, hnm', he⟩
  · rw [he] at hnm
    exact List.mem_append_left _ (h.recorded i ch hi nm hnm)
  · rw [he, List.mem_append, List.mem_singleton] at hnm
    rcases hnm with hnm | rfl
    · exact List.mem_append_left _ (h.recorded i ch hi nm hnm)
    · obtain rfl := h.streams.inj i n.id ch hi hch
      exact List.mem_append_right _ (mem_turnMap.mpr ⟨rfl, by rw [hch]; rfl, hnm'⟩)

/-- An entry is an old one or the new one. -/
theorem mem_built_turn (hn : n ∈ t.sys.c.st.nodes.rows) (hm : m ∈ t.sys.c.st.nodes.rows)
    (hnm : (m.id, nm) ∈ t.built ++ t.sys.c.turnMap n) :
    (m.id, nm) ∈ t.built ∨ m = n ∧ t.sys.c.buildNetMapLocked n = some nm := by
  rcases List.mem_append.mp hnm with hnm | hnm
  · exact .inl hnm
  · obtain ⟨hid, -, hbuilt⟩ := mem_turnMap.mp hnm
    exact .inr ⟨t.sys.c.st.nodes.eq_of_id_eq hm hn hid, hbuilt⟩

end Turn

/-- **One turn of the loop.** The map it builds is the first of its number for the node. -/
theorem turn (h : SeqInv t) : SeqInv (t.step .turn) := by
  cases hloop : t.loop with
  | nil =>
    have heq : t.step .turn = t := by rw [step, hloop]
    rw [heq]
    exact h
  | cons n rest =>
    have heq : t.step .turn = ⟨{ t.sys with c := t.sys.c.pushNetMap n }, rest,
        t.built ++ t.sys.c.turnMap n⟩ := by rw [step, hloop]
    have hmem : n ∈ t.loop := hloop ▸ List.mem_cons_self
    have hrow := h.loop n hmem
    have hnodup := h.nodup
    rw [hloop, List.map_cons, List.nodup_cons] at hnodup
    rw [heq]
    refine ⟨h.streams.pushNetMap n, ?_, hnodup.2, h.rising_pushNetMap hmem, ?_, ?_, ?_, ?_, ?_⟩
    · intro m hm
      rw [st_pushNetMap]
      exact h.loop m (hloop ▸ List.mem_cons_of_mem n hm)
    · intro i ch hi nm hnm
      rw [subs_pushNetMap] at hi
      exact h.recorded_pushNetMap n hi hnm
    · intro p hp
      rw [st_pushNetMap]
      rcases List.mem_append.mp hp with hp | hp
      · exact h.known p hp
      · rw [(mem_turnMap.mp hp).1]
        exact t.sys.c.st.nodes.id_le n hrow
    · intro m hm nm hnm
      rw [st_pushNetMap] at hm
      rw [seq_pushNetMap]
      rcases mem_built_turn hrow hm hnm with hnm | ⟨rfl, hbuilt⟩
      · exact h.le m hm nm hnm
      · exact (seq_of_buildNetMapLocked hbuilt).le
    · intro m hm nm hnm
      have hm' : m ∈ t.loop := hloop ▸ List.mem_cons_of_mem n hm
      rw [seq_pushNetMap]
      rcases mem_built_turn hrow (h.loop m hm') hnm with hnm | ⟨rfl, -⟩
      · exact h.lt m hm' nm hnm
      · exact absurd (List.mem_map_of_mem hm) hnodup.1
    · intro m hm nm hnm hcur
      rw [st_pushNetMap] at hm
      rw [seq_pushNetMap] at hcur
      rw [buildNetMapLocked_pushNetMap]
      rcases mem_built_turn hrow hm hnm with hnm | ⟨rfl, hbuilt⟩
      · exact h.view m hm nm hnm hcur
      · exact ⟨nm, hbuilt, .refl nm⟩

/-- **A silent step.** Nodes that were added have no maps yet. -/
theorem silent (h : SeqInv t) {s : System} (hc : Silent t.sys.c s.c)
    (hstreams : s.streams = t.sys.streams) : SeqInv ⟨s, t.loop, t.built⟩ := by
  obtain ⟨more, hrows, hnew⟩ := hc.store.rows
  have hold : ∀ {n}, n ∈ s.c.st.nodes.rows → ∀ {nm}, (n.id, nm) ∈ t.built →
      n ∈ t.sys.c.st.nodes.rows := by
    intro n hn nm hnm
    rw [hrows, List.mem_append] at hn
    rcases hn with hn | hn
    · exact hn
    · exact absurd (h.known _ hnm) (not_le_of_gt (hnew n hn))
  refine ⟨?_, ?_, h.nodup, ?_, ?_, ?_, ?_, ?_, ?_⟩
  · rw [hstreams]
    exact h.streams.silent hc
  · intro n hn
    rw [hrows]
    exact List.mem_append_left _ (h.loop n hn)
  · intro ch
    rw [hc.accepted]
    exact h.rising ch
  · intro i ch hi nm hnm
    rw [hc.subs] at hi
    rw [hc.accepted] at hnm
    exact h.recorded i ch hi nm hnm
  · exact fun p hp => (h.known p hp).trans hc.store.seq
  · intro n hn nm hnm
    rw [hc.seq]
    exact h.le n (hold hn hnm) nm hnm
  · intro n hn nm hnm
    rw [hc.seq]
    exact h.lt n hn nm hnm
  · intro n hn nm hnm hcur
    rw [hc.seq] at hcur
    obtain ⟨nm', hnm', hshows⟩ := h.view n (hold hn hnm) nm hnm hcur
    obtain ⟨nm'', hnm'', hshows'⟩ := hc.shows (hold hn hnm) hnm'
    exact ⟨nm'', hnm'', hshows.trans hshows'⟩

/-- **A change to network `w`, up to the loop of its notification.** The number of the network has
been raised, so no map has it. -/
theorem announce (h : SeqInv t) {c : Coordinator} {w : ℤ} {prime : List (ℤ × Proto.NetMap)}
    {s : System} (hs : StreamInv c s.streams) (hst : Store.Changes w t.sys.c.st c.st)
    (hconfig : c.stunServers = t.sys.c.stunServers ∧ c.relays = t.sys.c.relays ∧
      c.dnsBase = t.sys.c.dnsBase)
    (hseq : c.seq = t.sys.c.seq)
    (honline : ∀ n ∈ t.sys.c.st.nodes.rows, n.networkID ≠ w → c.online n.id = t.sys.c.online n.id)
    (hrising : ∀ ch, ((c.chans.get ch).accepted.map (·.seq)).Pairwise (· < ·))
    (hrecorded : ∀ i ch, c.subs i = some ch → ∀ nm ∈ (c.chans.get ch).accepted,
      (i, nm) ∈ t.built ++ prime)
    (hprime : ∀ p ∈ prime, p.2.seq = t.sys.c.seq w ∧
      ∃ n ∈ t.sys.c.st.nodes.rows, n.id = p.1 ∧ n.networkID = w) :
    SeqInv ⟨{ s with c := c.bumped w }, c.st.nodesInNetwork w, t.built ++ prime⟩ := by
  have hknown : ∀ p ∈ t.built ++ prime, p.1 ≤ t.sys.c.st.nodes.seq := by
    intro p hp
    rcases List.mem_append.mp hp with hp | hp
    · exact h.known p hp
    · obtain ⟨-, m, hm, hid, -⟩ := hprime p hp
      rw [← hid]
      exact t.sys.c.st.nodes.id_le m hm
  -- the node of an entry was there before, in the same network
  have hold : ∀ {n}, n ∈ c.st.nodes.rows → ∀ {nm}, (n.id, nm) ∈ t.built ++ prime →
      ∃ m ∈ t.sys.c.st.nodes.rows, m.id = n.id ∧ m.networkID = n.networkID := by
    intro n hn nm hnm
    rcases hst.rows n hn with hnew | hm
    · exact absurd (hknown _ hnm) (not_le_of_gt hnew)
    · exact hm
  have hle : ∀ {n}, n ∈ c.st.nodes.rows → ∀ {nm}, (n.id, nm) ∈ t.built ++ prime →
      nm.seq ≤ t.sys.c.seq n.networkID := by
    intro n hn nm hnm
    obtain ⟨m, hm, hid, hnw⟩ := hold hn hnm
    rcases List.mem_append.mp hnm with hnm | hnm
    · rw [← hnw]
      exact h.le m hm nm (hid ▸ hnm)
    · obtain ⟨heq, m', hm', hid', rfl⟩ := hprime _ hnm
      rw [← hnw, t.sys.c.st.nodes.eq_of_id_eq hm hm' (hid.trans hid'.symm)]
      exact heq.le
  have hbump : (c.bumped w).seq = Function.update t.sys.c.seq w (t.sys.c.seq w + 1) := by
    rw [bumped, hseq]
  refine ⟨⟨hs.lt_next, hs.inj, hs.opened, hs.live, hs.captured⟩, ?_, nodup_ids c.st w,
    hrising, hrecorded, ?_, ?_, ?_, ?_⟩
  · exact fun n hn => (mem_nodesInNetwork.mp hn).1
  · exact fun p hp => (hknown p hp).trans hst.seq
  · intro n hn nm hnm
    rw [hbump, Function.update_apply]
    have := hle hn hnm
    split_ifs with hw
    · rw [← hw]
      omega
    · exact this
  · intro n hn nm hnm
    obtain ⟨hrow, rfl⟩ := mem_nodesInNetwork.mp hn
    rw [hbump, Function.update_self]
    exact Nat.lt_succ_of_le (hle hrow hnm)
  · intro n hn nm hnm hcur
    by_cases hw : n.networkID = w
    · -- the number is too large
      rw [hbump, hw, Function.update_self] at hcur
      have := hle hn hnm
      rw [hw] at this
      omega
    · rw [hbump, Function.update_of_ne hw] at hcur
      have hn' : n ∈ t.sys.c.st.nodesInNetwork n.networkID := by
        rw [← hst.nodes _ hw]
        exact mem_nodesInNetwork.mpr ⟨hn, rfl⟩
      have hrow := (mem_nodesInNetwork.mp hn').1
      have hview : SameView t.sys.c (c.bumped w) n.networkID := by
        refine ⟨hconfig, ?_, hst.network _, hst.nodes _ hw, hst.routes _ hw, ?_, hst.acl _ hw⟩
        · rw [hbump, Function.update_of_ne hw]
        · intro m hm
          obtain ⟨hm, hmw⟩ := mem_nodesInNetwork.mp hm
          exact honline m hm (by rwa [hmw])
      rw [hview.buildNetMapLocked hn']
      refine h.view n hrow nm ?_ hcur
      rcases List.mem_append.mp hnm with hnm | hnm
      · exact hnm
      · -- a map was primed for a node of the other network
        obtain ⟨-, m, hm, hid, hmw⟩ := hprime _ hnm
        rw [t.sys.c.st.nodes.eq_of_id_eq hm hrow hid] at hmw
        exact absurd hmw hw

theorem primed_of_ne {op : Op} (hop : ∀ now mkey, op ≠ .subscribe now mkey) : t.primed op = [] := by
  rw [primed]
  exact hop

/-- A new stream, primed with a map. -/
theorem opened (h : SeqInv t) {now : ℤ} {mkey : Key.MachinePublic} {n : Node}
    (hn : t.sys.c.st.nodeByMachineKey mkey.string = some n) :
    SeqInv ⟨{ t.sys.step (.subscribe now mkey) with
      c := (t.sys.c.openStream now n).bumped n.networkID },
      (t.sys.c.openStream now n).st.nodesInNetwork n.networkID,
      t.built ++ t.primed (.subscribe now mkey)⟩ := by
  have hmem := (nodeByMachineKey_eq_some_iff.mp hn).1
  have hprimed : t.primed (.subscribe now mkey) =
      ((t.sys.c.openStream now n).buildNetMapLocked n).toList.map (n.id, ·) := by
    rw [primed, hn]
  have hself : (t.sys.c.openStream now n).subs n.id = some t.sys.c.chans.next :=
    Function.update_self _ _ _
  have haccepted : ∀ ch, ch ≠ t.sys.c.chans.next →
      ((t.sys.c.openStream now n).chans.get ch).accepted = (t.sys.c.chans.get ch).accepted := by
    intro ch hch
    rw [openStream]
    dsimp only
    rw [Heap.get_alloc_of_ne (by simpa using hch), accepted_closeOld]
  have hstreams : (t.sys.step (.subscribe now mkey)).streams =
      t.sys.streams ++ [(n, t.sys.c.chans.next)] := by
    rw [System.step, subscribe, hn]
    rfl
  refine h.announce ?_ (Store.Changes.touchNode hmem now) ⟨rfl, rfl, rfl⟩ rfl ?_ ?_ ?_ ?_
  · rw [hstreams]
    exact h.streams.openStream hmem now
  · intro m hm hw
    refine Function.update_of_ne ?_ _ _
    rintro hid
    exact hw (by rw [t.sys.c.st.nodes.eq_of_id_eq hm hmem hid])
  · intro ch
    by_cases hch : ch = t.sys.c.chans.next
    · rw [hch, (StreamInv.get_openStream_self now).2]
      cases (t.sys.c.openStream now n).buildNetMapLocked n with
      | none => exact .nil
      | some nm => exact List.pairwise_singleton _ _
    · rw [haccepted ch hch]
      exact h.rising ch
  · intro i ch hi nm hnm
    by_cases hid : i = n.id
    · rw [hid, hself] at hi
      obtain rfl := Option.some.inj hi
      rw [(StreamInv.get_openStream_self now).2] at hnm
      rw [hid, hprimed]
      exact List.mem_append_right _ (List.mem_map_of_mem hnm)
    · have hother : (t.sys.c.openStream now n).subs i = t.sys.c.subs i :=
        Function.update_of_ne hid _ _
      rw [hother] at hi
      rw [haccepted ch (h.streams.lt_next i ch hi).ne] at hnm
      exact List.mem_append_left _ (h.recorded i ch hi nm hnm)
  · intro p hp
    rw [hprimed] at hp
    obtain ⟨nm, hnm, rfl⟩ := List.mem_map.mp hp
    rw [buildNetMapLocked_openStream, Option.mem_toList] at hnm
    exact ⟨seq_of_buildNetMapLocked hnm, n, hmem, rfl, rfl⟩

/-- **A call that notifies.** -/
theorem announces (h : SeqInv t) {op : Op} {c : Coordinator} {w : ℤ} (hc : Announces t.sys op c w) :
    SeqInv ⟨{ t.sys.step op with c := c.bumped w }, c.st.nodesInNetwork w,
      t.built ++ t.primed op⟩ := by
  have hold : ∀ {i ch}, t.sys.c.subs i = some ch → ∀ nm ∈ (t.sys.c.chans.get ch).accepted,
      (i, nm) ∈ t.built ++ t.primed op :=
    fun hi nm hnm => List.mem_append_left _ (h.recorded _ _ hi nm hnm)
  cases hc with
  | changed hst hrows hstreams hop =>
    rw [primed_of_ne hop] at hold ⊢
    refine h.announce ?_ hst ⟨rfl, rfl, rfl⟩ rfl (fun _ _ _ => rfl) h.rising (fun _ _ => hold)
      fun _ hp => absurd hp List.not_mem_nil
    rw [hstreams]
    exact h.streams.of_changes hst hrows rfl rfl fun _ => rfl
  | @closed _ _ id _ hst hid hrows hconfig hseq hsubs honline hnext hchans hacc hstreams hop =>
    rw [primed_of_ne hop] at hold ⊢
    refine h.announce ?_ hst hconfig hseq ?_ ?_ ?_ fun _ hp => absurd hp List.not_mem_nil
    · rw [hstreams]
      exact h.streams.drop hst hrows hsubs hnext hchans
    · intro n hn hw
      have hne : n.id ≠ id := fun he => hw (hid n hn he)
      rw [honline, Function.update_of_ne hne]
    · intro ch
      rw [hacc]
      exact h.rising ch
    · intro i ch hi nm hnm
      rw [hsubs] at hi
      rw [hacc] at hnm
      exact hold (Registered.update_none_eq_some_iff.mp hi).2 nm hnm
  | opened now mkey hn => exact h.opened hn

/-- **Every step keeps the invariant.** -/
theorem step (h : SeqInv t) (tick : Tick) : SeqInv (t.step tick) := by
  cases tick with
  | turn => exact h.turn
  | call op =>
    by_cases hop : op = .restart
    · rw [hop]
      exact seqInv_start _ _ _ _
    by_cases hlock : t.loop ≠ [] ∧ op.locked = true
    · rw [step_call t hop, if_pos hlock]
      exact h
    cases callSpec t.sys h.streams hop with
    | silent hnone hc hstreams =>
      rw [step_of_none hop hlock hnone]
      exact h.silent hc hstreams
    | announces hsome hc _ =>
      rw [step_of_some hop hlock hsome]
      exact h.announces hc

end SeqInv

/-! ### When numbers identify maps -/

/-- A step that records nothing new. -/
theorem seqIdentifies_of_built {t t' : Process} (h : SeqIdentifies t) (hinv : SeqInv t')
    (hbuilt : t'.built ⊆ t.built) : SeqIdentifies t' :=
  ⟨hinv.rising, fun i nm nm' hnm hnm' => h.2 i nm nm' (hbuilt hnm) (hbuilt hnm')⟩

/-- A turn records the first map of its number. -/
theorem seqIdentifies_turn {t : Process} (h : SeqIdentifies t) (hinv : SeqInv t) :
    SeqIdentifies (t.step .turn) := by
  refine ⟨(hinv.step .turn).rising, ?_⟩
  cases hloop : t.loop with
  | nil =>
    have heq : t.step .turn = t := by rw [step, hloop]
    rw [heq]
    exact h.2
  | cons n rest =>
    have hmem : n ∈ t.loop := hloop ▸ List.mem_cons_self
    have hbuilt : (t.step .turn).built = t.built ++ t.sys.c.turnMap n := by
      rw [step, hloop]
    have hnew : ∀ {i nm}, (i, nm) ∈ t.sys.c.turnMap n → ∀ {nm'}, (i, nm') ∈ t.built →
        nm'.seq < nm.seq := by
      intro i nm hnm nm' hnm'
      obtain ⟨rfl, -, hb⟩ := SeqInv.mem_turnMap.mp hnm
      rw [seq_of_buildNetMapLocked hb]
      exact hinv.lt n hmem nm' hnm'
    intro i nm nm' hnm hnm' heq
    rw [hbuilt] at hnm hnm'
    rcases List.mem_append.mp hnm with hnm | hnm <;> rcases List.mem_append.mp hnm' with hnm' | hnm'
    · exact h.2 i nm nm' hnm hnm' heq
    · exact absurd heq (hnew hnm' hnm).ne
    · exact absurd heq.symm (hnew hnm hnm').ne
    · have hb := (SeqInv.mem_turnMap.mp hnm).2.2
      have hb' := (SeqInv.mem_turnMap.mp hnm').2.2
      exact Option.some.inj (hb.symm.trans hb')

/-- **A client that comes back.** Its map is the one it has under that number if and only if the
filter is the same and no peer has been added. -/
theorem seqIdentifies_subscribe_iff {t : Process} (h : SeqIdentifies t) (hinv : SeqInv t) (now : ℤ)
    (mkey : MachinePublic) (hloop : t.loop = []) :
    SeqIdentifies (t.step (.call (.subscribe now mkey))) ↔
      Unchanged t (.call (.subscribe now mkey)) := by
  have hlock : ¬(t.loop ≠ [] ∧ (Op.subscribe now mkey).locked = true) := fun hl => hl.1 hloop
  have hop : Op.subscribe now mkey ≠ .restart := Op.noConfusion
  have hrising := (hinv.step (.call (.subscribe now mkey))).rising
  cases hn : t.sys.c.st.nodeByMachineKey mkey.string with
  | none =>
    have hnone : t.sys.announcement (.subscribe now mkey) = none := by
      rw [System.announcement, hn]
    refine iff_of_true ?_ ?_
    · rw [step_of_none hop hlock hnone] at hrising ⊢
      exact ⟨hrising, h.2⟩
    · intro _ n hsome
      rw [hn] at hsome
      exact absurd hsome (Option.some_ne_none n).symm
  | some n =>
    have hmem := (nodeByMachineKey_eq_some_iff.mp hn).1
    obtain ⟨prime, hprime, hseq⟩ := t.sys.c.exists_buildNetMapLocked hmem
    have hsome : t.sys.announcement (.subscribe now mkey) =
        some (t.sys.c.openStream now n, n.networkID) := by
      rw [System.announcement, hn]
    have hbuilt : (t.step (.call (.subscribe now mkey))).built = t.built ++ [(n.id, prime)] := by
      rw [step_of_some hop hlock hsome, primed, hn]
      simp only [buildNetMapLocked_openStream, hprime, Option.toList_some, List.map_singleton]
    -- what is asked of the maps with the number of the new one
    have hiff : SeqIdentifies (t.step (.call (.subscribe now mkey))) ↔
        ∀ nm, (n.id, nm) ∈ t.built → nm.seq = prime.seq → nm = prime := by
      constructor
      · intro hids nm hnm heq
        refine hids.2 n.id nm prime ?_ ?_ heq
        · rw [hbuilt]
          exact List.mem_append_left _ hnm
        · rw [hbuilt]
          exact List.mem_append_right _ (List.mem_singleton_self _)
      · intro hsame
        refine ⟨hrising, ?_⟩
        intro i nm nm' hnm hnm' heq
        rw [hbuilt, List.mem_append, List.mem_singleton, Prod.mk.injEq] at hnm hnm'
        rcases hnm with hnm | ⟨rfl, rfl⟩ <;> rcases hnm' with hnm' | ⟨hid, rfl⟩
        · exact h.2 i nm nm' hnm hnm' heq
        · exact hsame nm (hid ▸ hnm) heq
        · exact (hsame nm' hnm' heq.symm).symm
        · rfl
    have hfields : (prime.filter, prime.filterEnabled) = compileFilterForNode t.sys.c.st n ∧
        prime.peers.map (·.nodeID) = t.sys.c.peerIDs n := by
      rw [buildNetMapLocked] at hprime
      obtain ⟨nw, -, rfl⟩ := Option.map_eq_some_iff.mp hprime
      exact ⟨rfl, rfl⟩
    rw [hiff, Unchanged]
    constructor
    · intro hsame _ m hm nm hnm heq
      obtain rfl := Option.some.inj (hn.symm.trans hm)
      rw [← hfields.1, ← hfields.2, hsame nm hnm (heq.trans hseq.symm)]
      exact ⟨rfl, rfl⟩
    · intro hcond nm hnm heq
      obtain ⟨nm', hnm', hshows⟩ := hinv.view n hmem nm hnm (heq.trans hseq)
      obtain rfl := Option.some.inj (hprime.symm.trans hnm')
      refine hshows.eq_iff.mpr ?_
      rw [hfields.1, hfields.2]
      exact hcond hloop n hn nm hnm (heq.trans hseq)

theorem seqIdentifies_step_iff (t : Process) (tick : Tick) (hinv : SeqInv t)
    (h : SeqIdentifies t) : SeqIdentifies (t.step tick) ↔ Unchanged t tick := by
  cases tick with
  | turn => exact iff_of_true (seqIdentifies_turn h hinv) trivial
  | call op =>
    by_cases hsub : ∃ now mkey, op = .subscribe now mkey
    · obtain ⟨now, mkey, rfl⟩ := hsub
      by_cases hloop : t.loop = []
      · exact seqIdentifies_subscribe_iff h hinv now mkey hloop
      · -- the call waits
        refine iff_of_true ?_ fun hnil => absurd hnil hloop
        rw [step_call t Op.noConfusion, if_pos ⟨hloop, rfl⟩]
        exact h
    · push Not at hsub
      refine iff_of_true (seqIdentifies_of_built h (hinv.step _) ?_) ?_
      · by_cases hop : op = .restart
        · rw [hop]
          exact List.nil_subset _
        by_cases hlock : t.loop ≠ [] ∧ op.locked = true
        · rw [step_call t hop, if_pos hlock]
          exact List.Subset.refl _
        · rw [step_call t hop, if_neg hlock, SeqInv.primed_of_ne hsub]
          split
          · exact List.Subset.refl _
          · rw [List.append_nil]
            exact List.Subset.refl _
      · rw [Unchanged]
        · trivial
        · intro now mkey heq
          exact hsub now mkey (Tick.call.inj heq)

/-- **When sequence numbers identify maps.** In every run of a process, started on any database: the
numbers in each channel rise and a number stands for one map of each node, in every state reached,
if and only if whenever a client comes back for whose node a map has been built under the current
number, the rules still compile to the filter of that map and no node has come in without a
notification. -/
theorem seqIdentifies_iff (st : Store) (stunServers relays : List String) (dnsBase : String)
    (ticks : List Tick) :
    (∀ ticks', ticks' <+: ticks →
        SeqIdentifies (run Process.step (.start st stunServers relays dnsBase) ticks')) ↔
      Along Process.step Unchanged (.start st stunServers relays dnsBase) ticks :=
  forall_prefix_iff_along (seqInv_start st stunServers relays dnsBase)
    ⟨fun _ => .nil, fun _ _ _ h => absurd h List.not_mem_nil⟩ (fun _ tick h => h.step tick)
    seqIdentifies_step_iff ticks

/-- A machine joins and opens a stream. A rule is written, and before it is announced the machine
opens a new stream. -/
def sampleReturn : Process :=
  let machine := sampleRequest 1 "sk-01"
  run Process.step (.start sampleStore [] [] "mesh")
    [.call (.register 0 machine), .turn, .call (.subscribe 0 machine.mkey), .turn,
      .call (.setACL 1 [⟨0, "deny", [], [], "", []⟩]), .call (.subscribe 0 machine.mkey)]

/-- **One number, two maps.** The second stream is primed under the number of the last map of the
first one, and with another filter. -/
theorem one_number_two_maps :
    sampleReturn.built.map (fun p => (p.1, p.2.seq, p.2.filterEnabled)) =
        [(1, 1, false), (1, 2, false), (1, 2, true)] ∧ ¬SeqIdentifies sampleReturn := by
  have hbuilt : sampleReturn.built.map (fun p => (p.1, p.2.seq, p.2.filterEnabled)) =
      [(1, 1, false), (1, 2, false), (1, 2, true)] := by decide +kernel
  refine ⟨hbuilt, ?_⟩
  intro hids
  have hmem : ∀ b : Bool, ∃ nm, ((1 : ℤ), nm) ∈ sampleReturn.built ∧ nm.seq = 2 ∧
      nm.filterEnabled = b := by
    intro b
    have hb : ((1 : ℤ), 2, b) ∈
        sampleReturn.built.map fun p => (p.1, p.2.seq, p.2.filterEnabled) := by
      rw [hbuilt]
      cases b <;> decide
    obtain ⟨⟨i, nm⟩, hp, heq⟩ := List.mem_map.mp hb
    simp only [Prod.mk.injEq] at heq
    obtain ⟨rfl, hseq, hflag⟩ := heq
    exact ⟨nm, hp, hseq, hflag⟩
  obtain ⟨nm, hnm, hseq, hoff⟩ := hmem false
  obtain ⟨nm', hnm', hseq', hon⟩ := hmem true
  rw [hids.2 1 nm nm' hnm hnm' (hseq.trans hseq'.symm), hon] at hoff
  exact Bool.noConfusion hoff

end OverMesh
