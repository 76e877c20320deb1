import OverMesh.Coord.Delivery
import Mathlib.Data.Set.Card

/-!
# Stream bookkeeping

The coordinator keeps, for each node, the channel of its netmap stream and that of its signal
stream. A new stream closes the channel of the one before, a deletion closes both, and the closure
that ends a stream only takes its channel out of the map, if it is still the one it was made for.
Closures of streams that were replaced long ago may be called at any time.

A Go program panics when it closes a channel twice or sends to a closed one, and the coordinator
would stop for good if its first send to a new channel found no room. None of this happens, and a
node is marked online exactly while it has a stream.

## Main definitions

* `StreamsSafe` — the invariant
* `Coordinator.onlineCount`, `Coordinator.openStreams`

## Main results

* `streamsSafe_step`
* `streams_run` — **the invariant holds in every run, and `OnlineCount` is the number of streams**
-/

namespace OverMesh

open Key Channel Store Coordinator

namespace Coordinator

/-- `OnlineCount`, for a map with these keys. -/
def onlineCount (c : Coordinator) (keys : List ℤ) : ℕ := (keys.filter c.online).length

/-- The channels of the netmap streams. -/
def openStreams (c : Coordinator) : Set ℕ := {ch | ∃ i, c.subs i = some ch}

/-- `OnlineCount` is the number of streams, whichever further keys the map has. -/
def CountsStreams (c : Coordinator) : Prop :=
  ∀ keys : List ℤ, keys.Nodup → (∀ i, c.online i = true → i ∈ keys) →
    c.onlineCount keys = c.openStreams.ncard

end Coordinator

/-- Every channel in the maps is open and belongs to one node that exists, no channel was closed
twice or sent to after it was closed, no send blocked, and a node is online while it has a netmap
stream. -/
structure StreamsSafe (c : Coordinator) : Prop where
  netmaps : Registered c.subs c.chans
  signals : Registered c.sigSubs c.sigChans
  online : ∀ i, c.online i = true ↔ (c.subs i).isSome = true
  live : ∀ i ch, c.subs i = some ch → ∃ n ∈ c.st.nodes.rows, n.id = i
  sigLive : ∀ i ch, c.sigSubs i = some ch → ∃ n ∈ c.st.nodes.rows, n.id = i

/-- The channel a key has is closed and the key dropped. -/
theorem registered_closeOld {α : Type*} {subs : ℤ → Option ℕ} {chans : Heap α}
    (h : Registered subs chans) (k : ℤ) :
    Registered (Function.update subs k none) (closeOld chans (subs k)) := by
  cases hk : subs k with
  | none => exact h.drop k
  | some ch => exact h.close hk

/-- The channel a key has is closed and a new one takes its place. -/
theorem registered_replace {α : Type*} {subs : ℤ → Option ℕ} {chans : Heap α}
    (h : Registered subs chans) (k : ℤ) {c : Chan α} (hopen : c.closed = false)
    (hfaults : c.faults = []) : Registered (Function.update subs k (some chans.next))
      ((closeOld chans (subs k)).alloc c) := by
  have hnew := (registered_closeOld h k).alloc (k := k) (Function.update_self _ _ _) hopen hfaults
  rwa [Function.update_idem, next_closeOld] at hnew

namespace StreamsSafe

variable {c : Coordinator}

/-- A server that was just started. -/
theorem new (st : Store) (stunServers relays : List String) (dnsBase : String) :
    StreamsSafe (Coordinator.new st stunServers relays dnsBase) where
  netmaps := .empty
  signals := .empty
  online i := by simp [Coordinator.new]
  live _ _ h := by cases h
  sigLive _ _ h := by cases h

variable (h : StreamsSafe c)
include h

/-- A push goes to a channel of the map. -/
theorem push (n : Node) : StreamsSafe (c.pushNetMap n) := by
  rw [pushNetMap]
  split
  · next ch nm hch hnm =>
    exact ⟨h.netmaps.trySend hch nm, h.signals, h.online, h.live, h.sigLive⟩
  · exact h

theorem foldl_push (ns : List Node) : StreamsSafe (ns.foldl pushNetMap c) := by
  induction ns generalizing c with
  | nil => exact h
  | cons n ns ih => exact ih (h.push n)

theorem notify (w : ℤ) : StreamsSafe (c.notifyNetworkLocked w) :=
  foldl_push (c := { c with seq := Function.update c.seq w (c.seq w + 1) })
    ⟨h.netmaps, h.signals, h.online, h.live, h.sigLive⟩ _

/-- A statement that loses no node. -/
theorem withStore {st : Store} (hrows : c.st.KeepsRows st)
    (ipams : ℤ → Option Ipam.Allocator) : StreamsSafe { c with st := st, ipams := ipams } where
  netmaps := h.netmaps
  signals := h.signals
  online := h.online
  live i ch hi := by
    obtain ⟨n, hn, rfl⟩ := h.live i ch hi
    exact hrows n hn
  sigLive i ch hi := by
    obtain ⟨n, hn, rfl⟩ := h.sigLive i ch hi
    exact hrows n hn

/-! ### Calls -/

theorem register (now : ℤ) (req : RegisterRequest) : StreamsSafe (c.register now req).2 := by
  have hspec := register_spec c now req
  generalize c.register now req = res at hspec ⊢
  cases hspec with
  | rejected _ => exact h
  | @returning routes n _ hn =>
    obtain ⟨st, name, nw, -, hnodes, -, -, -, -, -, heq⟩ :=
      reRegister_spec req routes (nodeByMachineKey_eq_some_iff.mp hn).1
    rw [heq]
    have hkeep : c.st.KeepsRows (c.st.updateNodeOnRegister n.id req.nkey.string name req.osName) :=
      keepsRows_updateNode
    exact (h.withStore (hkeep.trans (keepsRows_of_eq hnodes)) c.ipams).notify _
  | @enrolling routes k nw _ _ _ _ _ _ hres =>
    have hkeep : c.st.KeepsRows (c.st.chargeSetupKey k) := keepsRows_of_eq rfl
    have hcharge := h.withStore hkeep c.ipams
    cases hres with
    | refused _ => exact hcharge
    | exhausted _ _ => exact hcharge.withStore (keepsRows_of_eq rfl) _
    | halfBuilt _ _ hn _ => exact hcharge.withStore (keepsRows_createNode hn) _
    | @enrolled _ _ _ v6 st st' n _ _ hn _ hnodes _ _ _ _ =>
      have hkeep : st.KeepsRows (st.updateNodeIPv6 n.id v6) := keepsRows_updateNode
      exact (hcharge.withStore ((keepsRows_createNode hn).trans
        (hkeep.trans (keepsRows_of_eq hnodes))) _).notify _

theorem updateEndpoints (mkey : MachinePublic) (endpoints : List String) :
    StreamsSafe (c.updateEndpoints mkey endpoints).2 := by
  rcases c.updateEndpoints_cases mkey endpoints with heq | ⟨n, -, heq⟩
  · rw [heq]
    exact h
  · rw [heq]
    exact (h.withStore keepsRows_updateNode c.ipams).notify _

theorem setRouteApproved (nodeID : ℤ) (route : String) (approved : Bool) :
    StreamsSafe (c.setRouteApproved nodeID route approved).2 := by
  rcases c.setRouteApproved_cases nodeID route approved with heq | ⟨n, norm, st, -, hst, heq⟩
  · rw [heq]
    exact h
  · have hkeep := keepsRows_of_eq (setRouteApproved_spec hst).1
    rw [heq]
    exact (h.withStore hkeep c.ipams).notify _

/-- **A new stream** closes the old one of the node. Its first map finds room. -/
theorem openStream {n : Node} (hn : n ∈ c.st.nodes.rows) (now : ℤ) :
    StreamsSafe (c.openStream now n) := by
  have hkeep : c.st.KeepsRows (c.st.touchNode n.id now) := keepsRows_updateNode
  refine ⟨?_, h.signals, ?_, ?_, (h.withStore hkeep c.ipams).sigLive⟩
  · rw [Coordinator.openStream]
    refine registered_replace h.netmaps n.id ?_ ?_
    · split
      · exact (Chan.send_make (by decide)).2.1
      · rfl
    · split
      · exact Chan.faults_send_make (by decide)
      · rfl
  · intro i
    simp only [Coordinator.openStream, Function.update_apply]
    split
    · simp
    · exact h.online i
  · intro i ch hi
    simp only [Coordinator.openStream, Function.update_apply] at hi
    split at hi
    · next hid =>
      rw [hid]
      exact hkeep n hn
    · exact (h.withStore hkeep c.ipams).live i ch hi

theorem subscribe (now : ℤ) (mkey : MachinePublic) : StreamsSafe (c.subscribe now mkey).2 := by
  rw [Coordinator.subscribe]
  split
  · exact h
  · next n hn => exact (h.openStream (nodeByMachineKey_eq_some_iff.mp hn).1 now).notify _

/-- **The end of a stream**, of any age. A channel that is still in the map stays open: nobody sends
to it any more. -/
theorem unsubscribe (now : ℤ) (n : Node) (ch : ℕ) : StreamsSafe (c.unsubscribe now n ch) := by
  rw [Coordinator.unsubscribe]
  split
  · have hkeep : c.st.KeepsRows (c.st.touchNode n.id now) := keepsRows_updateNode
    have hst := h.withStore hkeep c.ipams
    apply notify
    refine ⟨h.netmaps.drop n.id, h.signals, ?_, ?_, hst.sigLive⟩
    · intro i
      simp only [Function.update_apply]
      split
      · simp
      · exact h.online i
    · intro i ch' hi
      exact hst.live i ch' (Registered.update_none_eq_some_iff.mp hi).2
  · exact h

/-- **A deletion** closes both streams of the node. -/
theorem deleteNode (id : ℤ) : StreamsSafe (c.deleteNode id).2 := by
  rcases deleteNode_spec c id with ⟨-, heq⟩ | ⟨n, st, nw, ipams, -, hst, -, -, heq⟩
  · rw [heq]
    exact h
  · rw [heq]
    -- the rows of the other nodes stay
    have hrows : ∀ m ∈ c.st.nodes.rows, m.id ≠ id → ∃ m' ∈ st.nodes.rows, m'.id = m.id := by
      intro m hm hid
      rw [(deleteNode_spec hst).1]
      exact ⟨m, AutoTable.mem_delete.mpr ⟨hm, by simpa using hid⟩, rfl⟩
    apply notify
    refine ⟨registered_closeOld h.netmaps id, registered_closeOld h.signals id, ?_, ?_, ?_⟩
    · intro i
      simp only [Function.update_apply]
      split
      · simp
      · exact h.online i
    · intro i ch hi
      obtain ⟨hne, hi⟩ := Registered.update_none_eq_some_iff.mp hi
      obtain ⟨m, hm, rfl⟩ := h.live i ch hi
      exact hrows m hm hne
    · intro i ch hi
      obtain ⟨hne, hi⟩ := Registered.update_none_eq_some_iff.mp hi
      obtain ⟨m, hm, rfl⟩ := h.sigLive i ch hi
      exact hrows m hm hne

theorem signalSubscribe (mkey : MachinePublic) : StreamsSafe (c.signalSubscribe mkey).2 := by
  rw [Coordinator.signalSubscribe]
  split
  · exact h
  · next n hn =>
    refine ⟨h.netmaps, registered_replace h.signals n.id rfl rfl, h.online, h.live, ?_⟩
    intro i ch hi
    simp only [Function.update_apply] at hi
    split at hi
    · next hid => exact ⟨n, (nodeByMachineKey_eq_some_iff.mp hn).1, hid.symm⟩
    · exact h.sigLive i ch hi

theorem signalUnsubscribe (n : Node) (ch : ℕ) : StreamsSafe (c.signalUnsubscribe n ch) := by
  rw [Coordinator.signalUnsubscribe]
  split
  · refine ⟨h.netmaps, h.signals.drop n.id, h.online, h.live, ?_⟩
    intro i ch' hi
    exact h.sigLive i ch' (Registered.update_none_eq_some_iff.mp hi).2
  · exact h

theorem routeSignal (n : Node) (env : SignalEnvelope) : StreamsSafe (c.routeSignal n env) := by
  rw [Coordinator.routeSignal]
  split
  · exact h
  · split
    · exact h
    · split
      · exact h
      · next ch hch => exact ⟨h.netmaps, h.signals.trySend hch _, h.online, h.live, h.sigLive⟩

/-! ### Counting -/

/-- **`OnlineCount` is the number of streams.** The channel of a node is its own. -/
theorem countsStreams : c.CountsStreams := by
  intro keys hnodup hkeys
  have hinj : Set.InjOn (fun i => (c.subs i).getD 0) {i | c.online i = true} := by
    intro i hi j hj hij
    obtain ⟨ch, hch⟩ := Option.isSome_iff_exists.mp ((h.online i).mp hi)
    obtain ⟨ch', hch'⟩ := Option.isSome_iff_exists.mp ((h.online j).mp hj)
    simp only [hch, hch', Option.getD_some] at hij
    exact h.netmaps.inj i j ch hch (hij ▸ hch')
  have himage : (fun i => (c.subs i).getD 0) '' {i | c.online i = true} = c.openStreams := by
    ext ch
    constructor
    · rintro ⟨i, hi, rfl⟩
      obtain ⟨ch, hch⟩ := Option.isSome_iff_exists.mp ((h.online i).mp hi)
      exact ⟨i, by simp [hch]⟩
    · rintro ⟨i, hi⟩
      exact ⟨i, (h.online i).mpr (by simp [hi]), by simp [hi]⟩
  have hset : {i | c.online i = true} = ↑(keys.filter c.online).toFinset := by
    ext i
    simpa using hkeys i
  rw [← himage, hinj.ncard_image, hset, Set.ncard_coe_finset,
    List.toFinset_card_of_nodup (hnodup.filter _), onlineCount]

end StreamsSafe

/-! ### Runs -/

/-- **Every step keeps the books.** -/
theorem streamsSafe_step (s : System) (op : Op) (h : StreamsSafe s.c) :
    StreamsSafe (s.step op).c := by
  cases op with
  | register now req => exact h.register now req
  | updateEndpoints mkey endpoints => exact h.updateEndpoints mkey endpoints
  | subscribe now mkey => exact h.subscribe now mkey
  | unsubscribe now i =>
    simp only [System.step]
    split
    · exact h
    · exact h.unsubscribe now _ _
  | recv ch => exact ⟨h.netmaps.recv ch, h.signals, h.online, h.live, h.sigLive⟩
  | deleteNode id => exact h.deleteNode id
  | setRouteApproved nodeID route approved => exact h.setRouteApproved nodeID route approved
  | setACL nw rules =>
    simp only [System.step]
    split
    · exact h
    · next st hst =>
      exact h.withStore (keepsRows_of_eq (nodes_setACL hst).1) s.c.ipams
  | aclChanged nw => exact h.notify nw
  | signalSubscribe mkey => exact h.signalSubscribe mkey
  | signalUnsubscribe i =>
    simp only [System.step]
    split
    · exact h
    · exact h.signalUnsubscribe _ _
  | routeSignal i env =>
    simp only [System.step]
    split
    · exact h
    · exact h.routeSignal _ _
  | recvSignal ch => exact ⟨h.netmaps, h.signals.recv ch, h.online, h.live, h.sigLive⟩
  | ensureNetwork name v4 v6 =>
    exact h.withStore (keepsRows_of_eq nodes_ensureNetwork) s.c.ipams
  | newSetupKey now raw nw reusable expiresAt owner =>
    exact h.withStore (keepsRows_of_eq (nodes_newSetupKey ..)) s.c.ipams
  | revokeSetupKey id =>
    exact h.withStore (keepsRows_of_eq (nodes_revokeSetupKey ..)) s.c.ipams
  | restart => exact .new _ _ _ _

/-- **Streams are safe.** In every run, started on any database: the channels in the maps are open
and belong to one node each, no channel is closed twice or sent to after it was closed, no send
blocks, and a node is online exactly while it has a netmap stream, so that `OnlineCount` is the
number of these streams. -/
theorem streams_run (st : Store) (stunServers relays : List String) (dnsBase : String)
    (ops : List Op) :
    StreamsSafe (Runs.run System.step (System.start st stunServers relays dnsBase) ops).c ∧
      (Runs.run System.step (System.start st stunServers relays dnsBase) ops).c.CountsStreams := by
  have hstart : StreamsSafe (System.start st stunServers relays dnsBase).c := .new _ _ _ _
  have h := Runs.run_induction (P := fun s : System => StreamsSafe s.c) hstart streamsSafe_step ops
  exact ⟨h, h.countsStreams⟩

end OverMesh
