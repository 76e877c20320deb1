import OverMesh.Coord.System
import OverMesh.Store.Changes

/-!
# Delivery of netmaps

Every change to a network is followed by a notification, which builds the netmap of each subscribed
node and pushes it into the node's channel without blocking. What a drained reader has seen last is
therefore the current map, unless the last push found the channel full: the map that is lost then is
the newest one, and the reader keeps an old map until the network changes again.

`DeliveryInv` carries this through a run. It has three parts: the channels in `subs` are open and
belong to one live node each, the sequence numbers in a channel are not ahead of the network, and a
channel whose last push was not lost ends with the current map.

## Main definitions

* `SameView` — two coordinators build the same maps for a network
* `DeliveryInv`, and `DeliveryInvExcept` for the state just before a notification
* `Announced` — a failed registration leaves no row behind

## Main results

* `Coordinator.get_notifyNetworkLocked` — a notification pushes the new map to each subscriber
* `DeliveryInvExcept.notify` — a notification brings its network up to date
* `deliveryInv_step`
* `lastReceived_eq_iff` — **a drained reader is up to date exactly if its last push was not lost**
-/

namespace OverMesh

open Channel Key Runs Coordinator Store

/-! ### One notification, channel by channel -/

namespace Coordinator

variable {c : Coordinator} {ns : List Node} {n : Node} {ch : ℕ} {nm : Proto.NetMap}

theorem get_pushNetMap_of_ne (h : c.subs n.id ≠ some ch) :
    (c.pushNetMap n).chans.get ch = c.chans.get ch := by
  rw [pushNetMap]
  split
  · next ch' nm hch' hnm =>
    have hne : ch ≠ ch' := by
      rintro rfl
      exact h hch'
    simp only [Heap.get_modify_of_ne hne]
  · rfl

theorem get_pushNetMap (hch : c.subs n.id = some ch) (hnm : c.buildNetMapLocked n = some nm) :
    (c.pushNetMap n).chans.get ch = ((c.chans.get ch).trySend nm).2 := by
  simp only [pushNetMap, hch, hnm, Heap.get_modify_self]

theorem st_pushNetMap (n : Node) : (c.pushNetMap n).st = c.st := by
  obtain ⟨_, _, h⟩ := c.pushNetMap_eq n
  rw [h]

theorem seq_pushNetMap (n : Node) : (c.pushNetMap n).seq = c.seq := by
  obtain ⟨_, _, h⟩ := c.pushNetMap_eq n
  rw [h]

theorem subs_pushNetMap (n : Node) : (c.pushNetMap n).subs = c.subs := by
  obtain ⟨_, _, h⟩ := c.pushNetMap_eq n
  rw [h]

/-- A push does not change the maps that are built after it. -/
theorem buildNetMapLocked_pushNetMap (m : Node) :
    (c.pushNetMap m).buildNetMapLocked n = c.buildNetMapLocked n := by
  obtain ⟨_, _, h⟩ := c.pushNetMap_eq m
  rw [h]
  rfl

theorem get_foldl_pushNetMap_of_ne (h : ∀ n ∈ ns, c.subs n.id ≠ some ch) :
    (ns.foldl pushNetMap c).chans.get ch = c.chans.get ch := by
  induction ns generalizing c with
  | nil => rfl
  | cons m ns ih =>
    rw [List.foldl_cons, ih fun n hn => ?_]
    · exact get_pushNetMap_of_ne (h m List.mem_cons_self)
    · rw [subs_pushNetMap]
      exact h n (List.mem_cons_of_mem _ hn)

/-- The loop pushes once into the channel of each subscribed node. -/
theorem get_foldl_pushNetMap (hinj : ∀ i j ch, c.subs i = some ch → c.subs j = some ch → i = j)
    (hnodup : (ns.map (·.id)).Nodup) (hn : n ∈ ns) (hch : c.subs n.id = some ch)
    (hnm : c.buildNetMapLocked n = some nm) :
    (ns.foldl pushNetMap c).chans.get ch = ((c.chans.get ch).trySend nm).2 := by
  induction ns generalizing c with
  | nil => cases hn
  | cons m ns ih =>
    rw [List.map_cons, List.nodup_cons] at hnodup
    rw [List.foldl_cons]
    rcases List.mem_cons.mp hn with rfl | hn
    · rw [get_foldl_pushNetMap_of_ne, get_pushNetMap hch hnm]
      intro m hm hm'
      rw [subs_pushNetMap] at hm'
      exact hnodup.1 (hinj _ _ _ hm' hch ▸ List.mem_map_of_mem hm)
    · have hne : c.subs m.id ≠ some ch := fun hm =>
        hnodup.1 (hinj _ _ _ hch hm ▸ List.mem_map_of_mem hn)
      rw [ih (by rwa [subs_pushNetMap]) hnodup.2 hn (by rwa [subs_pushNetMap])
        (by rwa [buildNetMapLocked_pushNetMap]), get_pushNetMap_of_ne hne]

theorem nodup_ids (st : Store) (w : ℤ) : ((st.nodesInNetwork w).map (·.id)).Nodup := by
  refine (List.Nodup.filter _ st.nodes.nodup_rows).map_on ?_
  intro n hn m hm he
  exact st.nodes.eq_of_id_eq (List.mem_of_mem_filter hn) (List.mem_of_mem_filter hm) he

/-- The maps of a notification are those of the state it leaves behind. -/
theorem buildNetMapLocked_notify (w : ℤ) : (c.notifyNetworkLocked w).buildNetMapLocked n =
      ({ c with
        seq := Function.update c.seq w (c.seq w + 1) } : Coordinator).buildNetMapLocked n := by
  obtain ⟨_, _, h⟩ := c.notifyNetworkLocked_eq w
  rw [h]
  rfl

/-- **A notification** pushes the new map of each subscribed node of the network. -/
theorem get_notifyNetworkLocked
    (hinj : ∀ i j ch, c.subs i = some ch → c.subs j = some ch → i = j) {w : ℤ}
    (hn : n ∈ c.st.nodesInNetwork w) (hch : c.subs n.id = some ch)
    (hnm : (c.notifyNetworkLocked w).buildNetMapLocked n = some nm) :
    (c.notifyNetworkLocked w).chans.get ch = ((c.chans.get ch).trySend nm).2 := by
  rw [buildNetMapLocked_notify] at hnm
  exact get_foldl_pushNetMap (c := { c with seq := _ }) hinj (nodup_ids _ _) hn hch hnm

theorem get_notifyNetworkLocked_of_ne {w : ℤ}
    (h : ∀ n ∈ c.st.nodesInNetwork w, c.subs n.id ≠ some ch) :
    (c.notifyNetworkLocked w).chans.get ch = c.chans.get ch :=
  get_foldl_pushNetMap_of_ne (c := { c with seq := _ }) h

theorem next_pushNetMap (n : Node) : (c.pushNetMap n).chans.next = c.chans.next := by
  rw [pushNetMap]
  split <;> rfl

theorem next_foldl_pushNetMap : (ns.foldl pushNetMap c).chans.next = c.chans.next := by
  induction ns generalizing c with
  | nil => rfl
  | cons m ns ih => rw [List.foldl_cons, ih, next_pushNetMap]

@[simp] theorem next_notifyNetworkLocked (w : ℤ) :
    (c.notifyNetworkLocked w).chans.next = c.chans.next :=
  next_foldl_pushNetMap (c := { c with seq := _ })

theorem closed_pushNetMap (n : Node) (ch : ℕ) :
    ((c.pushNetMap n).chans.get ch).closed = (c.chans.get ch).closed := by
  rw [pushNetMap]
  split
  · next ch' nm _ _ =>
    by_cases he : ch = ch'
    · rw [he, Heap.get_modify_self, Chan.closed_trySend]
    · rw [Heap.get_modify_of_ne he]
  · rfl

theorem closed_foldl_pushNetMap :
    ((ns.foldl pushNetMap c).chans.get ch).closed = (c.chans.get ch).closed := by
  induction ns generalizing c with
  | nil => rfl
  | cons m ns ih => rw [List.foldl_cons, ih, closed_pushNetMap]

/-- A notification closes no channel. -/
@[simp] theorem closed_notifyNetworkLocked (w : ℤ) :
    ((c.notifyNetworkLocked w).chans.get ch).closed = (c.chans.get ch).closed :=
  closed_foldl_pushNetMap (c := { c with seq := _ })

/-- **What a registration that succeeds has written** when it notifies. -/
theorem register_ok {now : ℤ} {req : RegisterRequest} {nw : Network}
    (h : (c.register now req).1 = .ok (n, nw)) : ∃ st ipams, (c.register now req).2 =
        ({ c with st := st, ipams := ipams } : Coordinator).notifyNetworkLocked n.networkID ∧
      Store.Changes n.networkID c.st st ∧ c.st.KeepsRows st := by
  have hspec := register_spec c now req
  generalize c.register now req = res at hspec h ⊢
  cases hspec with
  | rejected _ => cases h
  | @returning routes m hroutes hm =>
    have hmem := (nodeByMachineKey_eq_some_iff.mp hm).1
    obtain ⟨st, name, nw', -, hnodes, -, hnet, -, hacl, happroved, heq⟩ :=
      reRegister_spec req routes hmem
    rw [heq] at h ⊢
    obtain ⟨rfl, rfl⟩ := Prod.mk.inj (Except.ok.inj h)
    have hupd := Store.Changes.updateNodeOnRegister hmem req.nkey.string name req.osName
    refine ⟨st, c.ipams, rfl, ?_, ?_⟩
    · exact hupd.routes_of (fun m hm hid => hupd.networkID_eq hmem hm hid) hnodes hnet hacl
        happroved
    · refine Store.KeepsRows.trans ?_ (keepsRows_of_eq hnodes)
      exact keepsRows_updateNode
  | @enrolling routes k nw₀ _ hroutes hmk hkey hread hnw hres =>
    cases hres with
    | refused _ => cases h
    | exhausted _ _ => cases h
    | halfBuilt _ _ _ _ => cases h
    | @enrolled _ _ _ v6 st st' m _ _ hm _ hnodes hnet _ hacl happroved =>
      obtain ⟨hrow, hrows, -⟩ := createNode_spec hm
      obtain ⟨rfl, rfl⟩ := Prod.mk.inj (Except.ok.inj h)
      have hmem : m ∈ st.nodes.rows := by
        rw [hrows]
        exact List.mem_append_right _ (List.mem_singleton_self _)
      have hid : nw₀.id = m.networkID := by
        rw [hrow]
        rfl
      have hupd := Store.Changes.updateNodeIPv6 hmem v6
      have hkeep : st.KeepsRows (st.updateNodeIPv6 m.id v6) := keepsRows_updateNode
      refine ⟨st', _, by rw [hid], ?_, ?_⟩
      · exact (((Store.Changes.chargeSetupKey k _).trans (Store.Changes.createNode hm)).trans
          hupd).routes_of (fun m hm hid => hupd.networkID_eq hmem hm hid) hnodes hnet hacl happroved
      · exact (keepsRows_createNode hm).trans (hkeep.trans (keepsRows_of_eq hnodes))

theorem seq_of_buildNetMapLocked (h : c.buildNetMapLocked n = some nm) :
    nm.seq = c.seq n.networkID := by
  rw [buildNetMapLocked] at h
  obtain ⟨nw, -, rfl⟩ := Option.map_eq_some_iff.mp h
  rfl

theorem exists_buildNetMapLocked (hn : n ∈ c.st.nodes.rows) :
    ∃ nm, c.buildNetMapLocked n = some nm ∧ nm.seq = c.seq n.networkID := by
  obtain ⟨nw, hnw, -⟩ := exists_networkByID hn
  rw [buildNetMapLocked, hnw]
  exact ⟨_, rfl, rfl⟩

end Coordinator

/-! ### What a netmap shows -/

/-- The two coordinators build the same maps for the nodes of network `w`. -/
structure SameView (c c' : Coordinator) (w : ℤ) : Prop where
  config : c'.stunServers = c.stunServers ∧ c'.relays = c.relays ∧ c'.dnsBase = c.dnsBase
  seq : c'.seq w = c.seq w
  network : ∀ nw, c.st.networkByID w = some nw → c'.st.networkByID w = some nw
  nodes : c'.st.nodesInNetwork w = c.st.nodesInNetwork w
  routes : ∀ n ∈ c.st.nodesInNetwork w,
    c'.st.approvedNodeRoutes n.id = c.st.approvedNodeRoutes n.id
  online : ∀ n ∈ c.st.nodesInNetwork w, c'.online n.id = c.online n.id
  acl : c'.st.acl w = c.st.acl w

theorem SameView.buildNetMapLocked {c c' : Coordinator} {w : ℤ} (h : SameView c c' w) {n : Node}
    (hn : n ∈ c.st.nodesInNetwork w) : c'.buildNetMapLocked n = c.buildNetMapLocked n := by
  obtain ⟨hmem, rfl⟩ := mem_nodesInNetwork.mp hn
  obtain ⟨nw, hnw, -⟩ := exists_networkByID hmem
  have hpeers : ((c.st.nodesInNetwork n.networkID).filter (·.id ≠ n.id)).filterMap c'.peerEntry =
      ((c.st.nodesInNetwork n.networkID).filter (·.id ≠ n.id)).filterMap c.peerEntry := by
    refine List.filterMap_congr ?_
    intro p hp
    have hp' := List.mem_of_mem_filter hp
    rw [peerEntry, peerEntry, h.routes p hp', h.online p hp']
  have hfilter : compileFilterForNode c'.st n = compileFilterForNode c.st n := by
    rw [compileFilterForNode, compileFilterForNode, h.acl, h.nodes]
  rw [Coordinator.buildNetMapLocked, Coordinator.buildNetMapLocked, hnw, h.network nw hnw, h.nodes,
    hpeers, hfilter, h.seq, h.routes n hn, h.config.1, h.config.2.1, h.config.2.2]

/-! ### What is known of a channel -/

/-- The maps in the channel are no newer than `seq`, and older if the last push was lost. -/
structure Dated (q : Chan Proto.NetMap) (seq : ℕ) : Prop where
  le : ∀ nm ∈ q.accepted, nm.seq ≤ seq
  lt : q.missed = true → ∀ nm ∈ q.accepted, nm.seq < seq

/-- If the last push was not lost, the channel ends with `nm`. -/
def UpToDate (q : Chan Proto.NetMap) (nm : Option Proto.NetMap) : Prop :=
  q.missed = false → q.accepted.getLast? = nm

/-- A push of the next map, whether there is room for it or not. -/
theorem dated_trySend {q : Chan Proto.NetMap} {seq : ℕ} {nm : Proto.NetMap}
    (hopen : q.closed = false) (hle : ∀ m ∈ q.accepted, m.seq ≤ seq) (hnm : nm.seq = seq + 1) :
    Dated (q.trySend nm).2 (seq + 1) ∧ UpToDate (q.trySend nm).2 (some nm) := by
  rcases Chan.trySend_open (x := nm) hopen with ⟨hmissed, hacc⟩ | ⟨hmissed, hacc⟩
  · refine ⟨⟨?_, ?_⟩, ?_⟩
    · intro m hm
      rw [hacc, List.mem_append, List.mem_singleton] at hm
      rcases hm with hm | rfl
      · exact (hle m hm).trans (Nat.le_succ _)
      · exact hnm.le
    · intro h
      rw [hmissed] at h
      cases h
    · intro _
      rw [hacc, List.getLast?_concat]
  · refine ⟨⟨?_, ?_⟩, ?_⟩
    · intro m hm
      rw [hacc] at hm
      exact (hle m hm).trans (Nat.le_succ _)
    · intro _ m hm
      rw [hacc] at hm
      exact Nat.lt_succ_of_le (hle m hm)
    · intro h
      rw [hmissed] at h
      cases h

/-- **A drained channel.** Its reader has the current map exactly if the last push was not lost. -/
theorem getLast?_received_iff {q : Chan Proto.NetMap} {nm : Proto.NetMap} (hdrained : q.buf = [])
    (hdated : Dated q nm.seq) (hcurrent : UpToDate q (some nm)) :
    q.received.getLast? = some nm ↔ q.missed = false := by
  rw [Chan.received_eq_accepted hdrained]
  refine ⟨?_, hcurrent⟩
  intro hlast
  by_contra hmissed
  have hlt := hdated.lt (by simpa using hmissed) nm (List.mem_of_getLast? hlast)
  exact lt_irrefl _ hlt

/-! ### The invariant -/

/-- The channels in `subs` are open and belong to one live node each, and what the streams captured
of their node is still true of it. -/
structure StreamInv (c : Coordinator) (streams : List (Node × ℕ)) : Prop where
  lt_next : ∀ i ch, c.subs i = some ch → ch < c.chans.next
  inj : ∀ i j ch, c.subs i = some ch → c.subs j = some ch → i = j
  opened : ∀ i ch, c.subs i = some ch → (c.chans.get ch).closed = false
  live : ∀ i ch, c.subs i = some ch → ∃ n ∈ c.st.nodes.rows, n.id = i
  captured : ∀ p ∈ streams, p.1.id ≤ c.st.nodes.seq ∧
    ∀ m ∈ c.st.nodes.rows, m.id = p.1.id → m.networkID = p.1.networkID

/-- Every subscribed node outside network `w` is served: its channel is dated, and up to date unless
rules of its network are still to be announced. In network `w` the dates are not ahead. -/
structure DeliveryInvExcept (w : ℤ) (c : Coordinator) (streams : List (Node × ℕ))
    (unannounced : List ℤ) : Prop where
  streams : StreamInv c streams
  le : ∀ n ∈ c.st.nodes.rows, ∀ ch, c.subs n.id = some ch →
    ∀ nm ∈ (c.chans.get ch).accepted, nm.seq ≤ c.seq n.networkID
  dated : ∀ n ∈ c.st.nodes.rows, n.networkID ≠ w → ∀ ch, c.subs n.id = some ch →
    Dated (c.chans.get ch) (c.seq n.networkID)
  current : ∀ n ∈ c.st.nodes.rows, n.networkID ≠ w → ∀ ch, c.subs n.id = some ch →
    n.networkID ∉ unannounced → UpToDate (c.chans.get ch) (c.buildNetMapLocked n)

/-- Every subscribed node is served. -/
structure DeliveryInv (s : System) : Prop where
  streams : StreamInv s.c s.streams
  dated : ∀ n ∈ s.c.st.nodes.rows, ∀ ch, s.c.subs n.id = some ch →
    Dated (s.c.chans.get ch) (s.c.seq n.networkID)
  current : ∀ n ∈ s.c.st.nodes.rows, ∀ ch, s.c.subs n.id = some ch →
    n.networkID ∉ s.unannounced → UpToDate (s.c.chans.get ch) (s.c.buildNetMapLocked n)

theorem StreamInv.notify {c : Coordinator} {streams : List (Node × ℕ)} (h : StreamInv c streams)
    (w : ℤ) : StreamInv (c.notifyNetworkLocked w) streams where
  lt_next i ch hi := by
    rw [subs_notifyNetworkLocked] at hi
    rw [next_notifyNetworkLocked]
    exact h.lt_next i ch hi
  inj i j ch hi hj := by
    rw [subs_notifyNetworkLocked] at hi hj
    exact h.inj i j ch hi hj
  opened i ch hi := by
    rw [subs_notifyNetworkLocked] at hi
    rw [closed_notifyNetworkLocked]
    exact h.opened i ch hi
  live i ch hi := by
    rw [subs_notifyNetworkLocked] at hi
    rw [st_notifyNetworkLocked]
    exact h.live i ch hi
  captured p hp := by
    rw [st_notifyNetworkLocked]
    exact h.captured p hp

/-- A notification of one network does not show in the maps of another. -/
theorem sameView_notify (c : Coordinator) {v w : ℤ} (hv : v ≠ w) :
    SameView c (c.notifyNetworkLocked w) v := by
  obtain ⟨_, _, h⟩ := c.notifyNetworkLocked_eq w
  rw [h]
  exact ⟨⟨rfl, rfl, rfl⟩, Function.update_of_ne hv _ _, fun _ => id, rfl, fun _ _ => rfl,
    fun _ _ => rfl, rfl⟩

/-- **A notification brings its network up to date.** -/
theorem DeliveryInvExcept.notify {w : ℤ} {c : Coordinator} {streams : List (Node × ℕ)}
    {unannounced : List ℤ} (h : DeliveryInvExcept w c streams unannounced)
    (sigStreams : List (Node × ℕ)) :
    DeliveryInv ⟨c.notifyNetworkLocked w, streams, sigStreams, unannounced⟩ := by
  have hst := c.st_notifyNetworkLocked w
  have hsubs := c.subs_notifyNetworkLocked w
  -- a node of the network gets the new map
  have hself : ∀ n ∈ c.st.nodes.rows, n.networkID = w → ∀ ch, c.subs n.id = some ch →
      Dated ((c.notifyNetworkLocked w).chans.get ch) ((c.notifyNetworkLocked w).seq w) ∧
        UpToDate ((c.notifyNetworkLocked w).chans.get ch)
          ((c.notifyNetworkLocked w).buildNetMapLocked n) := by
    intro n hn hw ch hch
    obtain ⟨nm, hnm, hseq⟩ := (c.notifyNetworkLocked w).exists_buildNetMapLocked (n := n)
      (by rwa [hst])
    rw [hw, seq_notifyNetworkLocked, Function.update_self] at hseq
    rw [get_notifyNetworkLocked h.streams.inj
      (mem_nodesInNetwork.mpr ⟨hn, hw⟩) hch hnm, hnm, seq_notifyNetworkLocked,
      Function.update_self]
    exact dated_trySend (h.streams.opened _ _ hch) (hw ▸ h.le n hn ch hch) hseq
  -- the channel of a node of another network is not touched
  have hother : ∀ n ∈ c.st.nodes.rows, n.networkID ≠ w → ∀ ch, c.subs n.id = some ch →
      (c.notifyNetworkLocked w).chans.get ch = c.chans.get ch := by
    intro n hn hw ch hch
    refine get_notifyNetworkLocked_of_ne fun m hm hm' => hw ?_
    obtain ⟨hmem, rfl⟩ := mem_nodesInNetwork.mp hm
    rw [c.st.nodes.eq_of_id_eq hmem hn (h.streams.inj _ _ _ hm' hch)]
  refine ⟨h.streams.notify w, ?_, ?_⟩
  · intro n hn ch hch
    rw [hst] at hn
    rw [hsubs] at hch
    by_cases hw : n.networkID = w
    · rw [hw]
      exact (hself n hn hw ch hch).1
    · rw [hother n hn hw ch hch, (sameView_notify c hw).seq]
      exact h.dated n hn hw ch hch
  · intro n hn ch hch hun
    rw [hst] at hn
    rw [hsubs] at hch
    by_cases hw : n.networkID = w
    · exact (hself n hn hw ch hch).2
    · rw [hother n hn hw ch hch, (sameView_notify c hw).buildNetMapLocked
        (mem_nodesInNetwork.mpr ⟨hn, rfl⟩)]
      exact h.current n hn hw ch hch hun

/-! ### Changes outside a notification -/

/-- What a stream captured stays true. Rows keep their network, and ids are not used again. -/
theorem captured_of_changes {st st' : Store} {w : ℤ} {p : Node × ℕ}
    (h : p.1.id ≤ st.nodes.seq ∧ ∀ m ∈ st.nodes.rows, m.id = p.1.id → m.networkID = p.1.networkID)
    (hst : Store.Changes w st st') : p.1.id ≤ st'.nodes.seq ∧
      ∀ m ∈ st'.nodes.rows, m.id = p.1.id → m.networkID = p.1.networkID := by
  refine ⟨h.1.trans hst.seq, ?_⟩
  intro m' hm' hid
  rcases hst.rows m' hm' with hnew | ⟨m, hm, hmid, hnw⟩
  · exact absurd h.1 (not_le_of_gt (hid ▸ hnew))
  · rw [← hnw]
    exact h.2 m hm (hmid.trans hid)

/-- A change of the database that loses no row keeps the streams. -/
theorem StreamInv.of_changes {c c' : Coordinator} {w : ℤ} {streams : List (Node × ℕ)}
    (h : StreamInv c streams) (hst : Store.Changes w c.st c'.st)
    (hrows : Store.KeepsRows c.st c'.st) (hsubs : c'.subs = c.subs)
    (hnext : c'.chans.next = c.chans.next)
    (hclosed : ∀ ch, (c'.chans.get ch).closed = (c.chans.get ch).closed) :
    StreamInv c' streams where
  lt_next i ch hi := by
    rw [hsubs] at hi
    rw [hnext]
    exact h.lt_next i ch hi
  inj i j ch hi hj := by
    rw [hsubs] at hi hj
    exact h.inj i j ch hi hj
  opened i ch hi := by
    rw [hsubs] at hi
    rw [hclosed]
    exact h.opened i ch hi
  live i ch hi := by
    rw [hsubs] at hi
    obtain ⟨n, hn, rfl⟩ := h.live i ch hi
    exact hrows n hn
  captured p hp := captured_of_changes (h.captured p hp) hst

/-! ### Opening and closing streams -/

section Streams

variable {α : Type*} {chans : Heap α} {cur : Option ℕ} {ch : ℕ}

@[simp] theorem Coordinator.next_closeOld : (closeOld chans cur).next = chans.next := by
  unfold closeOld
  split <;> rfl

theorem Coordinator.get_closeOld (h : cur ≠ some ch) :
    (closeOld chans cur).get ch = chans.get ch := by
  unfold closeOld
  split
  · rfl
  · exact Heap.get_modify_of_ne fun he => h (by rw [he])

@[simp] theorem Coordinator.accepted_closeOld :
    ((closeOld chans cur).get ch).accepted = (chans.get ch).accepted := by
  unfold closeOld
  split
  · rfl
  · next old =>
    by_cases he : ch = old
    · rw [he, Heap.get_modify_self, Chan.accepted_close]
    · rw [Heap.get_modify_of_ne he]

end Streams

namespace StreamInv

variable {c : Coordinator} {streams : List (Node × ℕ)} {n : Node}

theorem next_openStream (now : ℤ) : (c.openStream now n).chans.next = c.chans.next + 1 := by
  simp [openStream]

/-- A new stream starts with the current map. -/
theorem get_openStream_self (now : ℤ) :
    ((c.openStream now n).chans.get c.chans.next).closed = false ∧
      ((c.openStream now n).chans.get c.chans.next).accepted =
        ((c.openStream now n).buildNetMapLocked n).toList := by
  have hget : (c.openStream now n).chans.get c.chans.next =
      ((c.openStream now n).buildNetMapLocked n).elim (Chan.make 8) (Chan.make 8).send := by
    have hnext : (closeOld c.chans (c.subs n.id)).next = c.chans.next :=
      next_closeOld
    rw [openStream]
    dsimp only
    rw [← hnext, Heap.get_alloc_self]
    split
    · next nm hnm => exact (congrArg (Option.elim · (Chan.make 8) (Chan.make 8).send) hnm).symm
    · next hnone => exact (congrArg (Option.elim · (Chan.make 8) (Chan.make 8).send) hnone).symm
  rw [hget]
  cases (c.openStream now n).buildNetMapLocked n with
  | none => exact ⟨rfl, rfl⟩
  | some nm =>
    obtain ⟨hacc, hopen, -⟩ := Chan.send_make (x := nm) (show 0 < 8 by decide)
    exact ⟨hopen, hacc⟩

/-- The streams of the other nodes are not touched by a new one. -/
theorem get_openStream (h : StreamInv c streams) (now : ℤ) {i : ℤ} (hi : i ≠ n.id) {ch : ℕ}
    (hch : c.subs i = some ch) : (c.openStream now n).chans.get ch = c.chans.get ch := by
  rw [openStream]
  dsimp only
  rw [Heap.get_alloc_of_ne (by simpa using Nat.ne_of_lt (h.lt_next i ch hch)),
    get_closeOld]
  exact fun hn => hi (h.inj _ _ _ hch hn)

theorem openStream (h : StreamInv c streams) (hn : n ∈ c.st.nodes.rows) (now : ℤ) :
    StreamInv (c.openStream now n) (streams ++ [(n, c.chans.next)]) := by
  have hst := Store.Changes.touchNode hn now
  have hsubs : ∀ i ch, (c.openStream now n).subs i = some ch →
      i = n.id ∧ ch = c.chans.next ∨ i ≠ n.id ∧ c.subs i = some ch := by
    intro i ch hi
    by_cases hin : i = n.id
    · subst hin
      have hself : (c.openStream now n).subs n.id = some c.chans.next := Function.update_self _ _ _
      rw [hself] at hi
      exact .inl ⟨rfl, (Option.some.inj hi).symm⟩
    · have hother : (c.openStream now n).subs i = c.subs i := Function.update_of_ne hin _ _
      rw [hother] at hi
      exact .inr ⟨hin, hi⟩
  refine ⟨?_, ?_, ?_, ?_, ?_⟩
  · intro i ch hi
    rw [next_openStream]
    rcases hsubs i ch hi with ⟨-, rfl⟩ | ⟨-, hi⟩
    · exact Nat.lt_succ_self _
    · exact Nat.lt_succ_of_lt (h.lt_next i ch hi)
  · intro i j ch hi hj
    rcases hsubs i ch hi with ⟨rfl, hch⟩ | ⟨-, hi⟩ <;>
      rcases hsubs j ch hj with ⟨rfl, hch'⟩ | ⟨-, hj⟩
    · rfl
    · exact absurd (h.lt_next _ _ hj) (not_lt_of_ge hch.ge)
    · exact absurd (h.lt_next _ _ hi) (not_lt_of_ge hch'.ge)
    · exact h.inj _ _ _ hi hj
  · intro i ch hi
    rcases hsubs i ch hi with ⟨-, rfl⟩ | ⟨hin, hi⟩
    · exact (get_openStream_self now).1
    · rw [h.get_openStream now hin hi]
      exact h.opened i ch hi
  · intro i ch hi
    have hkeep : Store.KeepsRows c.st (c.st.touchNode n.id now) :=
      keepsRows_updateNode
    rcases hsubs i ch hi with ⟨rfl, -⟩ | ⟨-, hi⟩
    · exact hkeep n hn
    · obtain ⟨m, hm, rfl⟩ := h.live i ch hi
      exact hkeep m hm
  · intro p hp
    rw [List.mem_append, List.mem_singleton] at hp
    rcases hp with hp | rfl
    · exact captured_of_changes (h.captured p hp) hst
    · exact captured_of_changes ⟨c.st.nodes.id_le n hn, fun m hm hid => by
        rw [c.st.nodes.eq_of_id_eq hm hn hid]⟩ hst

/-- The stream of one node goes, and perhaps its row. -/
theorem drop (h : StreamInv c streams) {c' : Coordinator} {w id : ℤ}
    (hst : Store.Changes w c.st c'.st)
    (hrows : ∀ n ∈ c.st.nodes.rows, n.id ≠ id → ∃ n' ∈ c'.st.nodes.rows, n'.id = n.id)
    (hsubs : c'.subs = Function.update c.subs id none) (hnext : c'.chans.next = c.chans.next)
    (hchans : ∀ ch, c.subs id ≠ some ch → c'.chans.get ch = c.chans.get ch) :
    StreamInv c' streams := by
  have hkept : ∀ i ch, c'.subs i = some ch → i ≠ id ∧ c.subs i = some ch := by
    intro i ch hi
    rw [hsubs] at hi
    by_cases hid : i = id
    · rw [hid, Function.update_self] at hi
      cases hi
    · rw [Function.update_of_ne hid] at hi
      exact ⟨hid, hi⟩
  refine ⟨?_, ?_, ?_, ?_, fun p hp => captured_of_changes (h.captured p hp) hst⟩
  · intro i ch hi
    rw [hnext]
    exact h.lt_next i ch (hkept i ch hi).2
  · intro i j ch hi hj
    exact h.inj i j ch (hkept i ch hi).2 (hkept j ch hj).2
  · intro i ch hi
    obtain ⟨hne, hi⟩ := hkept i ch hi
    rw [hchans ch fun hid => hne (h.inj _ _ _ hi hid)]
    exact h.opened i ch hi
  · intro i ch hi
    obtain ⟨hne, hi⟩ := hkept i ch hi
    obtain ⟨n, hn, rfl⟩ := h.live i ch hi
    exact hrows n hn hne

end StreamInv

/-- The networks a change leaves alone look the same. -/
theorem SameView.of_changes {c c' : Coordinator} {v w : ℤ} (hst : Store.Changes w c.st c'.st)
    (hv : v ≠ w)
    (hconfig : c'.stunServers = c.stunServers ∧ c'.relays = c.relays ∧ c'.dnsBase = c.dnsBase)
    (hseq : c'.seq = c.seq)
    (honline : ∀ n ∈ c.st.nodesInNetwork v, c'.online n.id = c.online n.id) : SameView c c' v :=
  ⟨hconfig, by rw [hseq], hst.network v, hst.nodes v hv, hst.routes v hv, honline, hst.acl v hv⟩

namespace DeliveryInv

variable {s : System} {c' : Coordinator} {w : ℤ}

variable (h : DeliveryInv s)
include h

/-- A step that changes no network, or only one whose announcement is pending, and moves nothing
but what a reader takes out of its channel. -/
theorem silent {streams sigStreams : List (Node × ℕ)} {unannounced : List ℤ}
    (hs : StreamInv c' streams) (hsubs : c'.subs = s.c.subs) (hseq : c'.seq = s.c.seq)
    (hnodes : c'.st.nodes = s.c.st.nodes)
    (hchans : ∀ ch, (c'.chans.get ch).accepted = (s.c.chans.get ch).accepted ∧
      (c'.chans.get ch).missed = (s.c.chans.get ch).missed)
    (hview : ∀ v ∉ unannounced, v ∉ s.unannounced ∧ SameView s.c c' v) :
    DeliveryInv ⟨c', streams, sigStreams, unannounced⟩ := by
  refine ⟨hs, ?_, ?_⟩
  · intro n hn ch hch
    rw [hnodes] at hn
    rw [hsubs] at hch
    obtain ⟨hle, hlt⟩ := h.dated n hn ch hch
    rw [← hseq, ← (hchans ch).1] at hle hlt
    rw [← (hchans ch).2] at hlt
    exact ⟨hle, hlt⟩
  · intro n hn ch hch hun
    obtain ⟨hun', hsame⟩ := hview _ hun
    rw [hnodes] at hn
    rw [hsubs] at hch
    rw [hsame.buildNetMapLocked (mem_nodesInNetwork.mpr ⟨hn, rfl⟩), UpToDate, (hchans ch).1,
      (hchans ch).2]
    exact h.current n hn ch hch hun'

/-- A step that changes no network. -/
theorem quiet {sigStreams : List (Node × ℕ)}
    (hst : ∀ w, Store.Changes w s.c.st c'.st) (hnodes : c'.st.nodes = s.c.st.nodes)
    (hconfig : c'.stunServers = s.c.stunServers ∧ c'.relays = s.c.relays ∧
      c'.dnsBase = s.c.dnsBase)
    (hsubs : c'.subs = s.c.subs) (hseq : c'.seq = s.c.seq) (honline : c'.online = s.c.online)
    (hnext : c'.chans.next = s.c.chans.next)
    (hchans : ∀ ch, (c'.chans.get ch).accepted = (s.c.chans.get ch).accepted ∧
      (c'.chans.get ch).missed = (s.c.chans.get ch).missed ∧
      (c'.chans.get ch).closed = (s.c.chans.get ch).closed) :
    DeliveryInv ⟨c', s.streams, sigStreams, s.unannounced⟩ := by
  have hs := h.streams.of_changes (hst 0) (keepsRows_of_eq hnodes) hsubs hnext
    fun ch => (hchans ch).2.2
  refine h.silent hs hsubs hseq hnodes (fun ch => ⟨(hchans ch).1, (hchans ch).2.1⟩) ?_
  intro v hv
  refine ⟨hv, .of_changes (hst (v + 1)) (by omega) hconfig hseq ?_⟩
  intro n _
  rw [honline]

/-- A change to network `w`, before its notification. -/
theorem except {streams : List (Node × ℕ)} (hs : StreamInv c' streams)
    (hst : Store.Changes w s.c.st c'.st)
    (hconfig : c'.stunServers = s.c.stunServers ∧ c'.relays = s.c.relays ∧
      c'.dnsBase = s.c.dnsBase)
    (hseq : c'.seq = s.c.seq)
    (hother : ∀ n ∈ s.c.st.nodes.rows, n.networkID ≠ w → c'.online n.id = s.c.online n.id ∧
      c'.subs n.id = s.c.subs n.id ∧
      ∀ ch, s.c.subs n.id = some ch → c'.chans.get ch = s.c.chans.get ch)
    (hle : ∀ n ∈ c'.st.nodes.rows, n.networkID = w → ∀ ch, c'.subs n.id = some ch →
      ∀ nm ∈ (c'.chans.get ch).accepted, nm.seq ≤ s.c.seq w) :
    DeliveryInvExcept w c' streams s.unannounced := by
  have hmem : ∀ n ∈ c'.st.nodes.rows, n.networkID ≠ w → n ∈ s.c.st.nodes.rows := by
    intro n hn hw
    have hn' : n ∈ c'.st.nodesInNetwork n.networkID := mem_nodesInNetwork.mpr ⟨hn, rfl⟩
    rw [hst.nodes _ hw] at hn'
    exact (mem_nodesInNetwork.mp hn').1
  have hdated : ∀ n ∈ c'.st.nodes.rows, n.networkID ≠ w → ∀ ch, c'.subs n.id = some ch →
      Dated (c'.chans.get ch) (c'.seq n.networkID) := by
    intro n hn hw ch hch
    obtain ⟨-, hsubs, hchans⟩ := hother n (hmem n hn hw) hw
    rw [hsubs] at hch
    rw [hchans ch hch, hseq]
    exact h.dated n (hmem n hn hw) ch hch
  refine ⟨hs, ?_, hdated, ?_⟩
  · intro n hn ch hch
    by_cases hw : n.networkID = w
    · rw [hw, hseq]
      exact hle n hn hw ch hch
    · exact (hdated n hn hw ch hch).le
  · intro n hn hw ch hch hun
    obtain ⟨-, hsubs, hchans⟩ := hother n (hmem n hn hw) hw
    have hsame : SameView s.c c' n.networkID := .of_changes hst hw hconfig hseq fun m hm => by
      obtain ⟨hm', hmw⟩ := mem_nodesInNetwork.mp hm
      exact (hother m hm' (by rwa [hmw])).1
    rw [hsubs] at hch
    rw [hchans ch hch,
      hsame.buildNetMapLocked (mem_nodesInNetwork.mpr ⟨hmem n hn hw, rfl⟩)]
    exact h.current n (hmem n hn hw) ch hch hun

/-- The dates of a stream that was there before the change are not ahead. A row that was just
inserted has no stream yet. -/
theorem le_of_changes {st : Store} (hst : Store.Changes w s.c.st st) {n : Node}
    (hn : n ∈ st.nodes.rows) {ch : ℕ} (hch : s.c.subs n.id = some ch) :
    ∀ nm ∈ (s.c.chans.get ch).accepted, nm.seq ≤ s.c.seq n.networkID := by
  obtain ⟨m, hm, hid⟩ := h.streams.live _ _ hch
  rw [hst.networkID_eq hm hn hid.symm]
  rw [← hid] at hch
  exact (h.dated m hm ch hch).le

/-- A change of the database to network `w` that loses no row, followed by its notification. -/
theorem store_notify {st : Store} {ipams : ℤ → Option Ipam.Allocator}
    (hst : Store.Changes w s.c.st st) (hrows : Store.KeepsRows s.c.st st) : DeliveryInv { s with
      c := ({ s.c with st := st, ipams := ipams } : Coordinator).notifyNetworkLocked w } := by
  have hs : StreamInv { s.c with st := st, ipams := ipams } s.streams :=
    h.streams.of_changes hst hrows rfl rfl fun _ => rfl
  refine (h.except hs hst ⟨rfl, rfl, rfl⟩ rfl (fun n _ _ => ⟨rfl, rfl, fun _ _ => rfl⟩)
    ?_).notify _
  intro n hn hw ch hch
  rw [← hw]
  exact h.le_of_changes hst hn hch

/-- The end of a stream of network `w`, followed by the notification. -/
theorem drop_notify {id : ℤ} (hst : Store.Changes w s.c.st c'.st)
    (hid : ∀ n ∈ s.c.st.nodes.rows, n.id = id → n.networkID = w)
    (hrows : ∀ n ∈ s.c.st.nodes.rows, n.id ≠ id → ∃ n' ∈ c'.st.nodes.rows, n'.id = n.id)
    (hconfig : c'.stunServers = s.c.stunServers ∧ c'.relays = s.c.relays ∧
      c'.dnsBase = s.c.dnsBase)
    (hseq : c'.seq = s.c.seq) (hsubs : c'.subs = Function.update s.c.subs id none)
    (honline : c'.online = Function.update s.c.online id false)
    (hnext : c'.chans.next = s.c.chans.next)
    (hchans : ∀ ch, s.c.subs id ≠ some ch → c'.chans.get ch = s.c.chans.get ch) :
    DeliveryInv { s with c := c'.notifyNetworkLocked w } := by
  have hs := h.streams.drop hst hrows hsubs hnext hchans
  refine (h.except hs hst hconfig hseq ?_ ?_).notify _
  · intro n hn hw
    have hne : n.id ≠ id := fun he => hw (hid n hn he)
    rw [hsubs, honline, Function.update_of_ne hne, Function.update_of_ne hne]
    refine ⟨rfl, rfl, fun ch hch => hchans ch fun hold => hne ?_⟩
    exact h.streams.inj _ _ _ hch hold
  · intro n hn hw ch hch
    by_cases hne : n.id = id
    · rw [hsubs, hne, Function.update_self] at hch
      cases hch
    · rw [hsubs, Function.update_of_ne hne] at hch
      rw [hchans ch fun hold => hne (h.streams.inj _ _ _ hch hold), ← hw]
      exact h.le_of_changes hst hn hch

/-! ### The operations -/

/-- `Register`, unless it fails after the row was inserted. -/
theorem register (now : ℤ) (req : RegisterRequest)
    (hrows : ∀ e, (s.c.register now req).1 = .error e →
      (s.c.register now req).2.st.nodes = s.c.st.nodes) :
    DeliveryInv { s with c := (s.c.register now req).2 } := by
  cases hres : (s.c.register now req).1 with
  | ok p =>
    obtain ⟨st, ipams, heq, hst, hkeep⟩ := register_ok hres
    rw [heq]
    exact h.store_notify hst hkeep
  | error e =>
    have hsame := hrows e hres
    have hspec := register_spec s.c now req
    generalize s.c.register now req = res at hspec hres hsame ⊢
    cases hspec with
    | rejected _ => exact h
    | @returning routes n _ hn =>
      obtain ⟨st, name, nw, -, -, -, -, -, -, -, heq⟩ :=
        reRegister_spec req routes (nodeByMachineKey_eq_some_iff.mp hn).1
      rw [heq] at hres
      cases hres
    | @enrolling routes k nw _ hroutes hmk hkey hread hnw henroll =>
      have hcharge : ∀ w, Store.Changes w s.c.st (s.c.st.chargeSetupKey k) :=
        Store.Changes.chargeSetupKey k
      cases henroll with
      | refused _ =>
        exact h.quiet hcharge rfl ⟨rfl, rfl, rfl⟩ rfl rfl rfl rfl fun _ => ⟨rfl, rfl, rfl⟩
      | exhausted _ _ =>
        exact h.quiet hcharge rfl ⟨rfl, rfl, rfl⟩ rfl rfl rfl rfl fun _ => ⟨rfl, rfl, rfl⟩
      | halfBuilt _ _ hn _ =>
        -- the new row makes the nodes differ
        obtain ⟨-, hrow, -⟩ := createNode_spec hn
        have hlength := congrArg (fun t => t.rows.length) hsame
        simp only [hrow, List.length_append, List.length_singleton,
          nodes_chargeSetupKey] at hlength
        omega
      | enrolled => cases hres

theorem updateEndpoints (mkey : MachinePublic) (endpoints : List String) :
    DeliveryInv { s with c := (s.c.updateEndpoints mkey endpoints).2 } := by
  rcases s.c.updateEndpoints_cases mkey endpoints with heq | ⟨n, hn, heq⟩
  · rw [heq]
    exact h
  · have hmem := (nodeByMachineKey_eq_some_iff.mp hn).1
    rw [heq]
    refine h.store_notify (Store.Changes.updateNodeEndpoints hmem endpoints) ?_
    exact keepsRows_updateNode

theorem setRouteApproved (nodeID : ℤ) (route : String) (approved : Bool) :
    DeliveryInv { s with c := (s.c.setRouteApproved nodeID route approved).2 } := by
  rcases s.c.setRouteApproved_cases nodeID route approved with
    heq | ⟨n, norm, st, hn, hst, heq⟩
  · rw [heq]
    exact h
  · obtain ⟨hmem, rfl⟩ := nodeByID_eq_some_iff.mp hn
    rw [heq]
    exact h.store_notify (Store.Changes.setRouteApproved hmem hst)
      (keepsRows_of_eq (setRouteApproved_spec hst).1)

theorem aclChanged (w : ℤ) :
    DeliveryInv { s with c := s.c.aclChanged w, unannounced := s.unannounced.erase w } := by
  have hex : DeliveryInvExcept w s.c s.streams (s.unannounced.erase w) := by
    refine ⟨h.streams, fun n hn ch hch => (h.dated n hn ch hch).le,
      fun n hn _ ch hch => h.dated n hn ch hch, ?_⟩
    intro n hn hw ch hch hun
    exact h.current n hn ch hch fun hmem => hun ((List.mem_erase_of_ne hw).mpr hmem)
  exact hex.notify s.sigStreams

theorem subscribe (now : ℤ) (mkey : MachinePublic) : DeliveryInv { s with
      c := (s.c.subscribe now mkey).2
      streams := s.streams ++ (s.c.subscribe now mkey).1.toList } := by
  rw [Coordinator.subscribe]
  split
  · rw [Option.toList_none, List.append_nil]
    exact h
  · next n hn =>
    have hmem := (nodeByMachineKey_eq_some_iff.mp hn).1
    have hst := Store.Changes.touchNode hmem now
    refine (h.except (h.streams.openStream hmem now) hst ⟨rfl, rfl, rfl⟩ rfl ?_ ?_).notify _
    · intro m hm hw
      have hne : m.id ≠ n.id := fun hid => hw (by rw [s.c.st.nodes.eq_of_id_eq hm hmem hid])
      refine ⟨Function.update_of_ne hne _ _, Function.update_of_ne hne _ _, ?_⟩
      intro ch hch
      exact h.streams.get_openStream now hne hch
    · intro m hm hw ch hch
      by_cases hid : m.id = n.id
      · -- the new channel holds the map it was primed with
        have hself : (s.c.openStream now n).subs m.id = some s.c.chans.next := by
          rw [hid]
          exact Function.update_self _ _ _
        rw [hself] at hch
        obtain rfl := Option.some.inj hch
        intro nm hnm
        rw [(StreamInv.get_openStream_self now).2, Option.mem_toList] at hnm
        exact (seq_of_buildNetMapLocked hnm).le
      · have hother : (s.c.openStream now n).subs m.id = s.c.subs m.id :=
          Function.update_of_ne hid _ _
        rw [hother] at hch
        rw [h.streams.get_openStream now hid hch]
        rw [← hw]
        exact h.le_of_changes hst hm hch

/-- The closure of a stream. If the stream is still current then the node is live and in the network
the closure captured. -/
theorem unsubscribe (now : ℤ) {n : Node} {ch : ℕ} (hp : (n, ch) ∈ s.streams) :
    DeliveryInv { s with c := s.c.unsubscribe now n ch } := by
  rw [Coordinator.unsubscribe]
  split
  · next hcur =>
    obtain ⟨m, hm, hid⟩ := h.streams.live _ _ hcur
    have hnw : m.networkID = n.networkID := (h.streams.captured _ hp).2 m hm hid
    have hst : Store.Changes n.networkID s.c.st (s.c.st.touchNode n.id now) := by
      rw [← hid, ← hnw]
      exact Store.Changes.touchNode hm now
    have hkeep : Store.KeepsRows s.c.st (s.c.st.touchNode n.id now) :=
      keepsRows_updateNode
    exact h.drop_notify hst (fun m hm hid => (h.streams.captured _ hp).2 m hm hid)
      (fun m hm _ => hkeep m hm) ⟨rfl, rfl, rfl⟩ rfl rfl rfl rfl fun _ _ => rfl
  · exact h

theorem deleteNode (id : ℤ) : DeliveryInv { s with c := (s.c.deleteNode id).2 } := by
  rcases deleteNode_spec s.c id with
    ⟨-, heq⟩ | ⟨n, st, nw, ipams, hn, hst, -, -, heq⟩
  · rw [heq]
    exact h
  · rw [heq]
    obtain ⟨hmem, hid⟩ := nodeByID_eq_some_iff.mp hn
    refine h.drop_notify (Store.Changes.deleteNode hn hst) ?_
      (fun m hm hne => ⟨m, ?_, rfl⟩) ⟨rfl, rfl, rfl⟩ rfl rfl rfl next_closeOld
      fun ch hch => get_closeOld hch
    · intro m hm hmid
      rw [s.c.st.nodes.eq_of_id_eq hm hmem (hmid.trans hid.symm)]
    · rw [(deleteNode_spec hst).1]
      exact AutoTable.mem_delete.mpr ⟨hm, by simpa using hne⟩

/-- New rules are not announced yet. -/
theorem setACL {st : Store} {rules : List ACLRule} (hst : s.c.st.setACL w rules = .ok st) :
    DeliveryInv { s.withStore st with unannounced := w :: s.unannounced } := by
  have hnodes := (nodes_setACL hst).1
  have hchange := Store.Changes.setACL hst
  have hs : StreamInv { s.c with st := st } s.streams :=
    h.streams.of_changes hchange (keepsRows_of_eq hnodes) rfl rfl fun _ => rfl
  refine h.silent hs rfl rfl hnodes (fun _ => ⟨rfl, rfl⟩) ?_
  intro v hv
  rw [List.mem_cons, not_or] at hv
  exact ⟨hv.2, .of_changes hchange hv.1 ⟨rfl, rfl, rfl⟩ rfl fun _ _ => rfl⟩

/-- Signal streams have channels of their own. -/
theorem signalsOnly {s' : System} (hs : SignalsOnly s s') : DeliveryInv s' := by
  obtain ⟨_, _, _, rfl⟩ := hs
  exact h.quiet (Store.Changes.refl s.c.st) rfl ⟨rfl, rfl, rfl⟩ rfl rfl rfl rfl
    fun _ => ⟨rfl, rfl, rfl⟩

/-- A statement on tables that no netmap shows. -/
theorem withStore {st : Store} (hst : ∀ w, Store.Changes w s.c.st st)
    (hnodes : st.nodes = s.c.st.nodes) : DeliveryInv (s.withStore st) :=
  h.quiet hst hnodes ⟨rfl, rfl, rfl⟩ rfl rfl rfl rfl fun _ => ⟨rfl, rfl, rfl⟩

end DeliveryInv

/-! ### Runs -/

/-- A server that was just started has no subscribers. -/
theorem deliveryInv_start (st : Store) (stunServers relays : List String) (dnsBase : String) :
    DeliveryInv (System.start st stunServers relays dnsBase) := by
  refine ⟨⟨?_, ?_, ?_, ?_, ?_⟩, ?_, ?_⟩
  · intro i ch hi
    cases hi
  · intro i j ch hi
    cases hi
  · intro i ch hi
    cases hi
  · intro i ch hi
    cases hi
  · intro p hp
    cases hp
  · intro n _ ch hch
    cases hch
  · intro n _ ch hch
    cases hch

/-- A registration that fails leaves no row behind. -/
def Announced (s : System) : Op → Prop
  | .register now req => ∀ e, (s.c.register now req).1 = .error e →
      (s.c.register now req).2.st.nodes = s.c.st.nodes
  | _ => True

/-- **Every step keeps subscribers served.** -/
theorem deliveryInv_step (s : System) (op : Op) (h : DeliveryInv s) (hop : Announced s op) :
    DeliveryInv (s.step op) := by
  have hsame : ∀ w, Store.Changes w s.c.st s.c.st := Store.Changes.refl s.c.st
  cases op with
  | register now req => exact h.register now req hop
  | updateEndpoints mkey endpoints => exact h.updateEndpoints mkey endpoints
  | subscribe now mkey => exact h.subscribe now mkey
  | unsubscribe now i =>
    simp only [System.step]
    split
    · exact h
    · next n ch hp => exact h.unsubscribe now (List.mem_of_getElem? hp)
  | recv ch =>
    refine h.quiet hsame rfl ⟨rfl, rfl, rfl⟩ rfl rfl rfl rfl ?_
    intro ch'
    by_cases he : ch' = ch
    · subst he
      rw [Heap.get_modify_self]
      exact ⟨Chan.accepted_recv, Chan.missed_recv, Chan.closed_recv⟩
    · rw [Heap.get_modify_of_ne he]
      exact ⟨rfl, rfl, rfl⟩
  | deleteNode id => exact h.deleteNode id
  | setRouteApproved nodeID route approved => exact h.setRouteApproved nodeID route approved
  | setACL nw rules =>
    simp only [System.step]
    split
    · exact h
    · next st hst => exact h.setACL hst
  | aclChanged nw => exact h.aclChanged nw
  | signalSubscribe mkey => exact h.signalsOnly (signalsOnly_signalSubscribe s mkey)
  | signalUnsubscribe i => exact h.signalsOnly (signalsOnly_signalUnsubscribe s i)
  | routeSignal i env => exact h.signalsOnly (signalsOnly_routeSignal s i env)
  | recvSignal ch => exact h.signalsOnly (signalsOnly_recvSignal s ch)
  | ensureNetwork name v4 v6 =>
    exact h.withStore (Store.Changes.ensureNetwork name v4 v6) nodes_ensureNetwork
  | newSetupKey now raw nw reusable expiresAt owner =>
    exact h.withStore (Store.Changes.newSetupKey now raw nw reusable expiresAt owner)
      (nodes_newSetupKey _ _ _ _ _ _ _)
  | revokeSetupKey id =>
    exact h.withStore (Store.Changes.revokeSetupKey id) (nodes_revokeSetupKey _ _)
  | restart => exact deliveryInv_start _ _ _ _

/-- **A drained reader is up to date exactly if its last push was not lost.** In every run in which
no failed registration leaves a row behind: when a subscribed node has emptied its channel and no
rules of its network are waiting to be announced, the last map it received is the one the
coordinator would build for it now if and only if the last notification of its network found room
in the channel. -/
theorem lastReceived_eq_iff (st : Store) (stunServers relays : List String) (dnsBase : String)
    (ops : List Op)
    (hops : Along System.step Announced (System.start st stunServers relays dnsBase) ops)
    {s : System} (hs : s = run System.step (System.start st stunServers relays dnsBase) ops)
    {n : Node} (hn : n ∈ s.c.st.nodes.rows) {ch : ℕ} (hch : s.c.subs n.id = some ch)
    (hannounced : n.networkID ∉ s.unannounced) (hdrained : (s.c.chans.get ch).buf = []) :
    (s.c.chans.get ch).received.getLast? = s.c.buildNetMapLocked n ↔
      (s.c.chans.get ch).missed = false := by
  have h : DeliveryInv s := hs ▸ run_induction_along
    (deliveryInv_start st stunServers relays dnsBase) deliveryInv_step hops
  obtain ⟨nm, hnm, hseq⟩ := s.c.exists_buildNetMapLocked hn
  rw [hnm]
  exact getLast?_received_iff hdrained (hseq ▸ h.dated n hn ch hch)
    (hnm ▸ h.current n hn ch hch hannounced)

/-- The sample mesh after a restart. Machine 1 opens a stream and does not read from it while
machine 2 reports its endpoints `reports + 1` times, the last time with a new address. Then
machine 1 reads eight maps. -/
def sampleStream (reports : ℕ) : List Op :=
  .subscribe 0 (sampleRequest 1 "").mkey ::
    (List.replicate reports (.updateEndpoints (sampleRequest 2 "").mkey []) ++
      [.updateEndpoints (sampleRequest 2 "").mkey ["192.0.2.1:41641"]] ++
      List.replicate 8 (.recv 0))

/-- The state after `sampleStream`. -/
def sampleStreamed (reports : ℕ) : System :=
  run System.step (System.start sampleMesh.st [] [] "mesh") (sampleStream reports)

theorem announced_sampleStream (reports : ℕ) :
    Along System.step Announced (System.start sampleMesh.st [] [] "mesh")
      (sampleStream reports) := by
  refine along_of_forall ?_ _
  intro op hop s
  simp only [sampleStream, List.mem_cons, List.mem_append, List.mem_replicate, List.not_mem_nil,
    or_false] at hop
  rcases hop with rfl | (⟨-, rfl⟩ | rfl) | ⟨-, rfl⟩ <;> trivial

/-- With room for every push machine 1 ends up with the current map. -/
theorem lastReceived_prompt :
    ((sampleStreamed 0).c.chans.get 0).missed = false ∧
      ((sampleStreamed 0).c.chans.get 0).received.getLast? =
        (sampleStreamed 0).c.buildNetMapLocked (sampleNode 1 "host") :=
  have hmissed : ((sampleStreamed 0).c.chans.get 0).missed = false := by decide +kernel
  ⟨hmissed, (lastReceived_eq_iff _ _ _ _ _ (announced_sampleStream 0) rfl (by decide +kernel)
    (by decide +kernel) (by decide +kernel) (by decide +kernel)).mpr hmissed⟩

/-- **A stalled reader stays behind.** The subscription puts two maps into the channel of machine 1,
and the first six of seven reports fill it. The seventh is lost, and with it the address machine 2
moved to: machine 1 has read everything and still has the map without it. -/
theorem lastReceived_stalled :
    sampleNode 1 "host" ∈ (sampleStreamed 6).c.st.nodes.rows ∧
      (sampleStreamed 6).c.subs (sampleNode 1 "host").id = some 0 ∧
      (sampleStreamed 6).unannounced = [] ∧
      ((sampleStreamed 6).c.chans.get 0).buf = [] ∧
      ((sampleStreamed 6).c.chans.get 0).received.getLast?.map (·.peers.map (·.endpoints)) =
        some [[]] ∧
      ((sampleStreamed 6).c.buildNetMapLocked (sampleNode 1 "host")).map
        (·.peers.map (·.endpoints)) = some [["192.0.2.1:41641"]] := by
  decide +kernel

end OverMesh
