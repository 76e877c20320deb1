import OverMesh.Daemon.Peers
import OverMesh.Internal.Runs

/-!
# The peer table of the mobile core

`mobilecore` embeds a node in a mobile application. What it does with netmaps and path updates was
copied from the daemon by hand, without exit nodes: a default route among the routes of a peer is
left out where the daemon keeps it for the case that the peer is selected.

`Core` is that copy. Fed with the same events the two keep the same table, and without an exit node
they program the same peers.

The table of the daemon has no round-trip times, on which nothing depends that is programmed.
`Timed` keeps them beside it.

## Main definitions

* `Mobilecore.PeerInfo`, `Mobilecore.Core`
* `Core.applyNetMap`, `Core.onPathUpdate`, `Core.buildPeerConfigsLocked`
* `Agree` — the daemon and the core have the same rows

## Main results

* `Agree.step` — one event keeps the tables in agreement
* `same_peers` — **the daemon and the mobile core program the same peers**
-/

namespace OverMesh

open Netip Key Runs

namespace Mobilecore

/-- `peerInfo`. Durations are in nanoseconds. -/
structure PeerInfo where
  nodeID : ℕ
  hostname : String
  pubKey : Bytes32
  allowed : List Prefix
  subnetRoutes : List Prefix
  ipv4 : String
  ipv6 : String
  online : Bool
  staticEPs : List String
  path : PathState
  pathEP : Option (Addr × ℕ)
  rtt : ℤ
  deriving DecidableEq

/-- A path update with its round-trip time. -/
structure TimedUpdate extends PathUpdate where
  rtt : ℤ

namespace PeerInfo

/-- A peer that was not known before. -/
def fresh (id : ℕ) : PeerInfo where
  nodeID := id
  hostname := ""
  pubKey := ⟨List.replicate 32 0, List.length_replicate⟩
  allowed := []
  subnetRoutes := []
  ipv4 := ""
  ipv6 := ""
  online := false
  staticEPs := []
  path := .none
  pathEP := .none
  rtt := 0

/-- What a netmap says about a peer replaces what was known, except for the path. A route that does
not parse is left out, and a default route too. -/
def merge (pi : PeerInfo) (p : Proto.Peer) (k : Bytes32) : PeerInfo :=
  let allowed := p.overlayIPs.filterMap parsePrefix
  { pi with
    pubKey := k
    hostname := p.hostname
    online := p.online
    staticEPs := p.endpoints
    allowed := allowed
    subnetRoutes := p.allowedRoutes.filterMap fun cidr => (parsePrefix cidr).filter (·.bits ≠ 0)
    ipv4 := (OverMesh.PeerInfo.overlayText allowed).1
    ipv6 := (OverMesh.PeerInfo.overlayText allowed).2 }

/-- The row after a path update. -/
def setPath (u : TimedUpdate) (pi : PeerInfo) : PeerInfo :=
  { pi with path := u.state, pathEP := u.endpoint, rtt := u.rtt }

end PeerInfo

/-- One turn of the loop over the peers of a netmap. -/
def mergePeer (ps : List PeerInfo) (p : Proto.Peer) : List PeerInfo :=
  match bytes32 p.nodeKey with
  | none => ps
  | some k => Upsert.upsert PeerInfo.nodeID p.nodeID (·.merge p k) (.fresh p.nodeID) ps

/-- The table after a netmap: its peers are merged, and the others deleted. -/
def mergePeers (ps : List PeerInfo) (peers : List Proto.Peer) : List PeerInfo :=
  (peers.foldl mergePeer ps).filter (·.nodeID ∈ seenIDs peers)

theorem nodup_mergePeers {ps : List PeerInfo} (h : (ps.map PeerInfo.nodeID).Nodup)
    (peers : List Proto.Peer) : ((mergePeers ps peers).map PeerInfo.nodeID).Nodup := by
  have hfold : ((peers.foldl mergePeer ps).map PeerInfo.nodeID).Nodup := by
    induction peers generalizing ps with
    | nil => exact h
    | cons p peers ih =>
      refine ih ?_
      rw [mergePeer]
      split
      · exact h
      · exact Upsert.nodup_upsert (fun _ => rfl) rfl h
  exact hfold.sublist (List.filter_sublist.map _)

/-- The part of `Core` that decides what is programmed. `relayUp` says whether there is a connected
relay client. -/
structure Core where
  peers : List PeerInfo
  ids : (peers.map PeerInfo.nodeID).Nodup
  relayUp : Bool

namespace Core

theorem nodup_nil : (([] : List PeerInfo).map PeerInfo.nodeID).Nodup := List.nodup_nil

/-- `NewCore`. -/
def new : Core := ⟨[], nodup_nil, false⟩

/-- What `applyNetMap` does to the table. -/
def applyNetMap (c : Core) (nm : Proto.NetMap) : Core :=
  { c with
    peers := mergePeers c.peers nm.peers
    ids := nodup_mergePeers c.ids nm.peers }

/-- What `onPathUpdate` does under the lock, and whether it goes on to `syncPeers`. -/
def onPathUpdate (c : Core) (u : TimedUpdate) : Bool × Core :=
  match c.peers.find? (·.nodeID = u.nodeID) with
  | none => (false, c)
  | some pi =>
    (pi.path ≠ u.state ∨ pi.pathEP ≠ u.endpoint,
      { c with
        peers := Upsert.update PeerInfo.nodeID u.nodeID (.setPath u) c.peers
        ids := by
          rw [Upsert.map_key_update (f := PeerInfo.setPath u) fun _ => rfl]
          exact c.ids })

/-- The endpoint of a peer: a direct path, or else the relay, or else the first hint that parses. -/
def endpoints (c : Core) (pi : PeerInfo) : Option (Addr × ℕ) × String :=
  if pi.path = .direct ∧ pi.pathEP ≠ none then (pi.pathEP, "")
  else if c.relayUp ∧ pi.online then (none, Daemon.relayEndpointString pi.pubKey)
  else (pi.staticEPs.findSome? parseAddrPort, "")

/-- The configuration of a peer. -/
def peerConfig (c : Core) (pi : PeerInfo) : PeerConfig :=
  ⟨pi.pubKey, pi.allowed ++ pi.subnetRoutes, (c.endpoints pi).1, (c.endpoints pi).2⟩

/-- The peer has an endpoint. -/
def programmed (c : Core) (pi : PeerInfo) : Bool :=
  (c.endpoints pi).1 ≠ none ∨ (c.endpoints pi).2 ≠ ""

/-- `buildPeerConfigsLocked`, for an iteration in the order `order`. -/
def buildPeerConfigsLocked (c : Core) (order : List PeerInfo) : List PeerConfig :=
  (order.filter c.programmed).map c.peerConfig

end Core

/-! ### The same events for both -/

/-- What happens to a node. `order` is the order in which the daemon looks for its exit node. -/
inductive Event where
  | netMap (nm : Proto.NetMap) (order : List OverMesh.PeerInfo)
  | path (u : TimedUpdate)
  | relay (up : Bool)

/-- The nodes of a netmap have ids other than 0. -/
def Event.Nonzero : Event → Prop
  | .netMap nm _ => ∀ p ∈ nm.peers, p.nodeID ≠ 0
  | .path _ | .relay _ => True

/-- The mobile core. -/
def Core.step (c : Core) : Event → Core
  | .netMap nm _ => c.applyNetMap nm
  | .path u => (c.onPathUpdate u).2
  | .relay up => { c with relayUp := up }

/-- The table of the daemon with the round-trip times of its rows. -/
structure Timed where
  d : Daemon
  rtt : ℕ → ℤ

namespace Timed

/-- Before the first netmap, with no exit node selected. -/
def new : Timed := ⟨.new "", fun _ => 0⟩

/-- The daemon. A row that is made by a netmap begins with a round-trip time of 0. -/
def step (equalFold : String → String → Bool) (t : Timed) : Event → Timed
  | .netMap nm order =>
    ⟨t.d.applyNetMap equalFold nm order,
      fun id => if id ∈ t.d.peers.map OverMesh.PeerInfo.nodeID then t.rtt id else 0⟩
  | .path u =>
    ⟨(t.d.onPathUpdate u.toPathUpdate).2,
      if u.nodeID ∈ t.d.peers.map OverMesh.PeerInfo.nodeID then
        Function.update t.rtt u.nodeID u.rtt
      else t.rtt⟩
  | .relay up => { t with d := { t.d with relayUp := up } }

end Timed

/-- The fields of a row of the daemon that the core has too. -/
def shared (rtt : ℕ → ℤ) (pi : OverMesh.PeerInfo) : PeerInfo where
  nodeID := pi.nodeID
  hostname := pi.hostname
  pubKey := pi.pubKey
  allowed := pi.allowed
  subnetRoutes := pi.subnetRoutes
  ipv4 := pi.ipv4
  ipv6 := pi.ipv6
  online := pi.online
  staticEPs := pi.staticEPs
  path := pi.path
  pathEP := pi.pathEP
  rtt := rtt pi.nodeID

/-- **The daemon and the core have the same rows**, and the daemon has no exit node and no row whose
id could be taken for one. -/
structure Agree (t : Timed) (c : Core) : Prop where
  peers : c.peers = t.d.peers.map (shared t.rtt)
  relayUp : c.relayUp = t.d.relayUp
  exitNode : t.d.exitNode = ""
  exitPeerID : t.d.exitPeerID = 0
  nonzero : ∀ pi ∈ t.d.peers, pi.nodeID ≠ 0

/-! ### Netmaps -/

section Merge

variable {rtt : ℕ → ℤ} {ps : List OverMesh.PeerInfo}

/-- The two ways to classify default routes leave the same subnets. -/
theorem filterMap_filter_bits (cidrs : List String) :
    cidrs.filterMap (fun cidr => (parsePrefix cidr).filter (·.bits ≠ 0)) =
      (cidrs.filterMap parsePrefix).filter (·.bits ≠ 0) := by
  rw [List.filter_filterMap]

theorem shared_merge (pi : OverMesh.PeerInfo) (p : Proto.Peer) (k : Bytes32) :
    shared rtt (pi.merge p k) = (shared rtt pi).merge p k := by
  simp only [shared, OverMesh.PeerInfo.merge, PeerInfo.merge, filterMap_filter_bits]

theorem shared_fresh {id : ℕ} (h : rtt id = 0) : shared rtt (.fresh id) = .fresh id := by
  rw [shared, PeerInfo.fresh, ← h]
  rfl

theorem map_mergePeer (h : ∀ id ∉ ps.map OverMesh.PeerInfo.nodeID, rtt id = 0) (p : Proto.Peer) :
    (OverMesh.mergePeer ps p).map (shared rtt) = mergePeer (ps.map (shared rtt)) p := by
  rw [OverMesh.mergePeer_eq, mergePeer]
  cases bytes32 p.nodeKey with
  | none => rfl
  | some k =>
    exact Upsert.map_upsert (fun _ => rfl) (fun pi _ => shared_merge pi p k) rfl
      fun hnew => shared_fresh (h _ hnew)

theorem subset_mergePeer (p : Proto.Peer) :
    ps.map OverMesh.PeerInfo.nodeID ⊆ (OverMesh.mergePeer ps p).map OverMesh.PeerInfo.nodeID := by
  rw [OverMesh.mergePeer_eq]
  split
  · exact List.Subset.refl _
  · exact Upsert.subset_map_key_upsert (fun _ => rfl) rfl

theorem map_mergePeers (h : ∀ id ∉ ps.map OverMesh.PeerInfo.nodeID, rtt id = 0)
    (peers : List Proto.Peer) :
    (OverMesh.mergePeers ps peers).map (shared rtt) = mergePeers (ps.map (shared rtt)) peers := by
  have hfold : (peers.foldl OverMesh.mergePeer ps).map (shared rtt) =
      peers.foldl mergePeer (ps.map (shared rtt)) := by
    induction peers generalizing ps with
    | nil => rfl
    | cons p peers ih =>
      rw [List.foldl_cons, List.foldl_cons, ← map_mergePeer h]
      exact ih fun id hid => h id fun hmem => hid (subset_mergePeer p hmem)
  rw [OverMesh.mergePeers, mergePeers, ← hfold, List.filter_map]
  rfl

end Merge

/-! ### The simulation -/

variable {t : Timed} {c : Core}

theorem Agree.netMap (h : Agree t c) (equalFold : String → String → Bool) {nm : Proto.NetMap}
    (order : List OverMesh.PeerInfo) (hnm : ∀ p ∈ nm.peers, p.nodeID ≠ 0) :
    Agree (t.step equalFold (.netMap nm order)) (c.applyNetMap nm) where
  peers := by
    set rtt : ℕ → ℤ := fun id =>
      if id ∈ t.d.peers.map OverMesh.PeerInfo.nodeID then t.rtt id else 0 with hrtt
    have hold : c.peers = t.d.peers.map (shared rtt) := by
      rw [h.peers]
      refine List.map_congr_left fun pi hpi => ?_
      rw [shared, shared, hrtt]
      simp only [if_pos (List.mem_map_of_mem (f := OverMesh.PeerInfo.nodeID) hpi)]
    change mergePeers c.peers nm.peers = (OverMesh.mergePeers t.d.peers nm.peers).map (shared rtt)
    rw [hold, map_mergePeers fun id hid => if_neg hid]
  relayUp := h.relayUp
  exitNode := h.exitNode
  exitPeerID := if_pos h.exitNode
  nonzero := by
    intro pi hpi
    obtain ⟨p, hp, k, pi₀, -, hid, rfl⟩ := exists_of_mem_mergePeers hpi
    rw [nodeID_merge, hid]
    exact hnm p hp

theorem Agree.path (h : Agree t c) (equalFold : String → String → Bool) (u : TimedUpdate) :
    Agree (t.step equalFold (.path u)) (c.onPathUpdate u).2 := by
  have hfind : c.peers.find? (·.nodeID = u.nodeID) =
      (t.d.peers.find? (·.nodeID = u.nodeID)).map (shared t.rtt) := by
    rw [h.peers, List.find?_map]
    rfl
  rw [Timed.step, Daemon.onPathUpdate, Core.onPathUpdate, hfind]
  cases hknown : t.d.peers.find? (·.nodeID = u.nodeID) with
  | none =>
    have hid : u.nodeID ∉ t.d.peers.map OverMesh.PeerInfo.nodeID := by
      intro hmem
      obtain ⟨pi, hpi, hid⟩ := List.mem_map.mp hmem
      have hne := List.find?_eq_none.mp hknown pi hpi
      exact hne (by simpa using hid)
    rw [if_neg hid]
    exact h
  | some pi₀ =>
    have hid : u.nodeID ∈ t.d.peers.map OverMesh.PeerInfo.nodeID :=
      List.mem_map.mpr ⟨pi₀, List.mem_of_find?_eq_some hknown,
        by simpa using List.find?_some hknown⟩
    rw [if_pos hid]
    refine ⟨?_, h.relayUp, h.exitNode, h.exitPeerID, ?_⟩
    · change Upsert.update PeerInfo.nodeID u.nodeID (.setPath u) c.peers = List.map _
        (t.d.peers.map fun pi => if pi.nodeID = u.nodeID then _ else pi)
      rw [h.peers, Upsert.update, List.map_map, List.map_map]
      refine List.map_congr_left fun pi _ => ?_
      rw [Function.comp_apply, Function.comp_apply]
      by_cases hrow : pi.nodeID = u.nodeID
      · rw [if_pos hrow, if_pos (show (shared t.rtt pi).nodeID = u.nodeID from hrow)]
        simp only [PeerInfo.setPath, shared, hrow, Function.update_self]
      · rw [if_neg hrow, if_neg (show (shared t.rtt pi).nodeID ≠ u.nodeID from hrow)]
        simp only [shared, Function.update_of_ne hrow]
    · intro pi hpi
      obtain ⟨pi', hpi', rfl⟩ := List.mem_map.mp hpi
      split_ifs
      · exact h.nonzero pi' hpi'
      · exact h.nonzero pi' hpi'

/-- **One event keeps the tables in agreement.** -/
theorem Agree.step (h : Agree t c) (equalFold : String → String → Bool) {e : Event}
    (he : e.Nonzero) : Agree (t.step equalFold e) (c.step e) := by
  cases e with
  | netMap nm order => exact h.netMap equalFold order he
  | path u => exact h.path equalFold u
  | relay up => exact ⟨h.peers, rfl, h.exitNode, h.exitPeerID, h.nonzero⟩

theorem agree_new : Agree .new .new :=
  ⟨rfl, rfl, rfl, rfl, fun _ hpi => absurd hpi List.not_mem_nil⟩

theorem agree_events (equalFold : String → String → Bool) {events : List Event}
    (h : ∀ e ∈ events, e.Nonzero) :
    Agree (run (Timed.step equalFold) .new events) (run Core.step .new events) := by
  refine run_related (D := Event.Nonzero) agree_new ?_ h
  intro t c e he hagree
  exact hagree.step equalFold he

/-! ### What is programmed -/

theorem Agree.endpoints (h : Agree t c) (pi : OverMesh.PeerInfo) :
    c.endpoints (shared t.rtt pi) = t.d.endpoints pi := by
  rw [Core.endpoints, Daemon.endpoints, h.relayUp]
  rfl

/-- Without an exit node the daemon adds no default routes. -/
theorem Agree.peerConfig (h : Agree t c) {pi : OverMesh.PeerInfo} (hpi : pi.nodeID ≠ 0) :
    c.peerConfig (shared t.rtt pi) = t.d.peerConfig pi := by
  have hroutes : t.d.allowedIPs pi = pi.allowed ++ pi.subnetRoutes := by
    rw [Daemon.allowedIPs, h.exitPeerID, if_neg hpi, List.append_nil]
  rw [Core.peerConfig, Daemon.peerConfig, h.endpoints, hroutes]
  rfl

theorem Agree.programmed (h : Agree t c) (pi : OverMesh.PeerInfo) :
    c.programmed (shared t.rtt pi) = t.d.programmed pi := by
  rw [Core.programmed, Daemon.programmed, h.endpoints]

/-- The two iterations may take any order. -/
theorem Agree.buildPeerConfigsLocked (h : Agree t c) {order : List OverMesh.PeerInfo}
    {order' : List PeerInfo} (hd : order.Perm t.d.peers) (hc : order'.Perm c.peers) :
    (t.d.buildPeerConfigsLocked order).Perm (c.buildPeerConfigsLocked order') := by
  have horder : (order.map (shared t.rtt)).Perm order' := by
    refine .trans ?_ hc.symm
    rw [h.peers]
    exact hd.map _
  have hbuild : t.d.buildPeerConfigsLocked order =
      c.buildPeerConfigsLocked (order.map (shared t.rtt)) := by
    have hfilter : c.programmed ∘ shared t.rtt = t.d.programmed := by
      funext pi
      exact h.programmed pi
    rw [Daemon.buildPeerConfigsLocked, Core.buildPeerConfigsLocked, List.filter_map, List.map_map,
      hfilter]
    refine List.map_congr_left fun pi hpi => ?_
    exact (h.peerConfig (h.nonzero pi (hd.subset (List.mem_filter.mp hpi).1))).symm
  rw [hbuild]
  exact (horder.filter _).map _

/-- **The daemon and the mobile core program the same peers.** After the same netmaps, path updates
and relay changes, from empty tables and without an exit node, they have the same rows as far as
both have the fields, and compute the same configurations. -/
theorem same_peers (equalFold : String → String → Bool) {events : List Event}
    (h : ∀ e ∈ events, e.Nonzero) :
    let t := run (Timed.step equalFold) .new events
    let c := run Core.step .new events
    (∀ id, c.peers.find? (·.nodeID = id) =
      (t.d.peers.find? (·.nodeID = id)).map (shared t.rtt)) ∧
    ∀ order order', order.Perm t.d.peers → order'.Perm c.peers →
      (t.d.buildPeerConfigsLocked order).Perm (c.buildPeerConfigsLocked order') := by
  intro t c
  have hagree : Agree t c := agree_events equalFold h
  refine ⟨?_, fun order order' => hagree.buildPeerConfigsLocked⟩
  intro id
  rw [hagree.peers, List.find?_map]
  rfl

/-- A netmap with a gateway that serves a subnet and a default route, a direct path to it, and a
relay. -/
def sampleEvents : List Event :=
  [.netMap
    { seq := 1
      self := ⟨1, "phone", "default", ["10.0.0.1/32"], []⟩
      peers := [⟨2, "gw", List.replicate 32 7, ["10.0.0.2/32"], ["192.0.2.1:51820"], true,
        ["192.168.0.0/24", "0.0.0.0/0"]⟩]
      relays := []
      stunServers := []
      dns := some ⟨"default.mesh"⟩
      filter := []
      filterEnabled := false } [],
    .path ⟨⟨2, .direct, parseAddrPort "192.0.2.9:41641"⟩, 7000000⟩, .relay true]

/-- Both program the subnet and not the default route. -/
theorem same_peers_sample :
    (run Core.step .new sampleEvents).peers.find? (·.nodeID = 2) =
        ((run (Timed.step fun s t => s = t) .new sampleEvents).d.peers.find?
          (·.nodeID = 2)).map
            (shared (run (Timed.step fun s t => s = t) .new sampleEvents).rtt) ∧
      ((run (Timed.step fun s t => s = t) .new sampleEvents).d.buildPeerConfigsLocked
        (run (Timed.step fun s t => s = t) .new sampleEvents).d.peers).Perm
      ((run Core.step .new sampleEvents).buildPeerConfigsLocked
        (run Core.step .new sampleEvents).peers) := by
  have hnonzero : ∀ e ∈ sampleEvents, e.Nonzero := by
    rintro e (_ | ⟨_, _ | ⟨_, _ | ⟨_, hnil⟩⟩⟩)
    · intro p hp
      obtain rfl := List.mem_singleton.mp hp
      exact Nat.succ_ne_zero 1
    · trivial
    · trivial
    · exact absurd hnil List.not_mem_nil
  have h := same_peers (fun s t => s = t) hnonzero
  exact ⟨h.1 2, h.2 _ _ (.refl _) (.refl _)⟩

end Mobilecore

end OverMesh
