import OverMesh.Internal.Upsert
import OverMesh.Proto
import OverMesh.Wgengine

/-!
# The peer table of a node

What the node agent remembers about its peers, and the peer set it programs into WireGuard. A netmap
is merged into the table, path updates move single peers, and `buildPeerConfigsLocked` renders the
table as engine configuration: the peer's addresses and approved routes, and the best endpoint there
is. A peer without any endpoint is left out, but stays in the table.

The table is a Go map. Here it is a list without repeated ids, and what iterates over it takes the
order of the iteration as an argument: any arrangement of the list.

`strings.EqualFold`, which compares the name of the exit node, is a parameter.

## Main definitions

* `PeerInfo`, `Daemon`
* `Daemon.applyNetMap`, `Daemon.onPathUpdate` — the critical sections that write the table
* `Daemon.buildPeerConfigsLocked`

## Main results

* `exists_of_mem_mergePeers` — every row of the table comes from the netmap that was applied last
* `nodup_pubKey_applyNetMap` — so distinct keys in the netmap are distinct keys in the table
-/

namespace OverMesh

open Netip Key

/-- `PathState`. -/
inductive PathState where
  | none
  | connecting
  | direct
  deriving DecidableEq

/-- `PathUpdate`. -/
structure PathUpdate where
  nodeID : ℕ
  state : PathState
  endpoint : Option (Addr × ℕ)

/-- `peerInfo`. -/
structure PeerInfo where
  nodeID : ℕ
  hostname : String
  pubKey : Bytes32
  allowed : List Prefix
  ipv4 : String
  ipv6 : String
  online : Bool
  staticEPs : List String
  path : PathState
  pathEP : Option (Addr × ℕ)
  subnetRoutes : List Prefix
  exitRoutes : List Prefix
  deriving DecidableEq

/-- The part of `Daemon` that decides what is programmed. `relayUp` says whether there is a
connected relay client. -/
structure Daemon where
  peers : List PeerInfo
  ids : (peers.map PeerInfo.nodeID).Nodup
  exitNode : String
  exitPeerID : ℕ
  relayUp : Bool

namespace PeerInfo

/-- A peer that was not known before. -/
def fresh (id : ℕ) : PeerInfo where
  nodeID := id
  hostname := ""
  pubKey := ⟨List.replicate 32 0, rfl⟩
  allowed := []
  ipv4 := ""
  ipv6 := ""
  online := false
  staticEPs := []
  path := .none
  pathEP := .none
  subnetRoutes := []
  exitRoutes := []

/-- The last address of each family, as text. -/
def overlayText (allowed : List Prefix) : String × String :=
  allowed.foldl (fun t p => if p.addr.is4 then (p.addr.string, t.2) else (t.1, p.addr.string))
    ("", "")

/-- What a netmap says about a peer replaces what was known, except for the path. -/
def merge (pi : PeerInfo) (p : Proto.Peer) (k : Bytes32) : PeerInfo :=
  let allowed := p.overlayIPs.filterMap parsePrefix
  let routes := p.allowedRoutes.filterMap parsePrefix
  { pi with
    pubKey := k
    hostname := p.hostname
    online := p.online
    staticEPs := p.endpoints
    allowed := allowed
    ipv4 := (overlayText allowed).1
    ipv6 := (overlayText allowed).2
    subnetRoutes := routes.filter (·.bits ≠ 0)
    exitRoutes := routes.filter (·.bits = 0) }

end PeerInfo

/-! ### Merging a netmap -/

/-- The key of a peer, if it has the right length. -/
def bytes32 (k : List UInt8) : Option Bytes32 := if h : k.length = 32 then some ⟨k, h⟩ else none

theorem val_of_bytes32 {l : List UInt8} {k : Bytes32} (h : bytes32 l = some k) : k.val = l := by
  rw [bytes32] at h
  split_ifs at h
  obtain rfl := Option.some.inj h
  rfl

/-- One turn of the loop over the peers of a netmap. -/
def mergePeer (ps : List PeerInfo) (p : Proto.Peer) : List PeerInfo :=
  match bytes32 p.nodeKey with
  | none => ps
  | some k =>
    if ps.any (·.nodeID = p.nodeID) then
      ps.map fun pi => if pi.nodeID = p.nodeID then pi.merge p k else pi
    else ps ++ [(PeerInfo.fresh p.nodeID).merge p k]

/-- The ids the loop has seen. -/
def seenIDs (peers : List Proto.Peer) : List ℕ :=
  (peers.filter fun p => p.nodeKey.length = 32).map (·.nodeID)

/-- The table after a netmap: its peers are merged, and the others deleted. -/
def mergePeers (ps : List PeerInfo) (peers : List Proto.Peer) : List PeerInfo :=
  (peers.foldl mergePeer ps).filter (·.nodeID ∈ seenIDs peers)

@[simp] theorem nodeID_merge (pi : PeerInfo) (p : Proto.Peer) (k : Bytes32) :
    (pi.merge p k).nodeID = pi.nodeID := rfl

/-- One turn changes the row of a peer, or makes one. -/
theorem mergePeer_eq (ps : List PeerInfo) (p : Proto.Peer) : mergePeer ps p =
    match bytes32 p.nodeKey with
    | none => ps
    | some k => Upsert.upsert PeerInfo.nodeID p.nodeID (·.merge p k) (.fresh p.nodeID) ps := rfl

/-- Changing the row of one peer leaves the ids of the table alone. -/
theorem map_nodeID_update {f : PeerInfo → PeerInfo} (hf : ∀ pi, (f pi).nodeID = pi.nodeID) (id : ℕ)
    (ps : List PeerInfo) :
    (ps.map fun pi => if pi.nodeID = id then f pi else pi).map PeerInfo.nodeID =
      ps.map PeerInfo.nodeID :=
  Upsert.map_key_update hf

theorem nodup_mergePeer {ps : List PeerInfo} (h : (ps.map PeerInfo.nodeID).Nodup)
    (p : Proto.Peer) : ((mergePeer ps p).map PeerInfo.nodeID).Nodup := by
  rw [mergePeer_eq]
  split
  · exact h
  · exact Upsert.nodup_upsert (fun _ => rfl) rfl h

theorem nodup_mergePeers {ps : List PeerInfo} (h : (ps.map PeerInfo.nodeID).Nodup)
    (peers : List Proto.Peer) : ((mergePeers ps peers).map PeerInfo.nodeID).Nodup := by
  have hfold : ((peers.foldl mergePeer ps).map PeerInfo.nodeID).Nodup := by
    induction peers generalizing ps with
    | nil => exact h
    | cons p peers ih => exact ih (nodup_mergePeer h p)
  exact hfold.sublist (List.filter_sublist.map _)

/-- A row after one turn is the merged one, or an old one of another peer. -/
theorem mem_mergePeer {ps : List PeerInfo} {p : Proto.Peer} {pi : PeerInfo}
    (h : pi ∈ mergePeer ps p) :
    (∃ (k : Bytes32) (pi₀ : PeerInfo), bytes32 p.nodeKey = some k ∧ pi₀.nodeID = p.nodeID ∧
        pi = pi₀.merge p k) ∨
      pi ∈ ps ∧ (bytes32 p.nodeKey = none ∨ pi.nodeID ≠ p.nodeID) := by
  rw [mergePeer] at h
  split at h
  · next hk => exact .inr ⟨h, .inl hk⟩
  · next k hk =>
    split_ifs at h with hknown
    · obtain ⟨pi₀, hpi₀, rfl⟩ := List.mem_map.mp h
      split_ifs with hid
      · exact .inl ⟨k, pi₀, hk, hid, rfl⟩
      · exact .inr ⟨hpi₀, .inr hid⟩
    · rcases List.mem_append.mp h with h | h
      · refine .inr ⟨h, .inr fun hid => hknown ?_⟩
        exact List.any_eq_true.mpr ⟨pi, h, by simpa using hid⟩
      · exact .inl ⟨k, .fresh p.nodeID, hk, rfl, List.mem_singleton.mp h⟩

/-- **Every row comes from the netmap.** -/
theorem exists_of_mem_mergePeers {ps : List PeerInfo} {peers : List Proto.Peer} {pi : PeerInfo}
    (h : pi ∈ mergePeers ps peers) :
    ∃ p ∈ peers, ∃ (k : Bytes32) (pi₀ : PeerInfo), bytes32 p.nodeKey = some k ∧
      pi₀.nodeID = p.nodeID ∧ pi = pi₀.merge p k := by
  obtain ⟨hmem, hseen⟩ := List.mem_filter.mp h
  rw [decide_eq_true_iff] at hseen
  clear h
  -- The last turn that saw the id has written the row.
  induction peers using List.reverseRecOn with
  | nil => cases hseen
  | append_singleton peers p ih =>
    rw [List.foldl_append, List.foldl_cons, List.foldl_nil] at hmem
    rcases mem_mergePeer hmem with ⟨k, pi₀, hrest⟩ | ⟨hold, hother⟩
    · exact ⟨p, List.mem_append_right _ (List.mem_singleton_self p), k, pi₀, hrest⟩
    · have hseen' : pi.nodeID ∈ seenIDs peers := by
        simp only [seenIDs, List.filter_append, List.map_append, List.mem_append] at hseen
        refine hseen.resolve_right ?_
        intro hlast
        obtain ⟨q, hq, hid⟩ := List.mem_map.mp hlast
        obtain ⟨hq, hlen⟩ := List.mem_filter.mp hq
        obtain rfl := List.mem_singleton.mp hq
        rcases hother with hnone | hne
        · simp only [decide_eq_true_eq] at hlen
          simp [bytes32, hlen] at hnone
        · exact hne hid.symm
      obtain ⟨q, hq, hrest⟩ := ih hold hseen'
      exact ⟨q, List.mem_append_left _ hq, hrest⟩

namespace Daemon

theorem nodup_nil : (([] : List PeerInfo).map PeerInfo.nodeID).Nodup := List.nodup_nil

/-- The state before the first netmap: no peers, and no relay. -/
def new (exitNode : String) : Daemon := ⟨[], nodup_nil, exitNode, 0, false⟩

variable (equalFold : String → String → Bool)

/-- `selectExitPeerLocked`, for an iteration in the order `order`. -/
def selectExitPeerLocked (d : Daemon) (order : List PeerInfo) : Daemon :=
  { d with
    exitPeerID :=
      if d.exitNode = "" then 0
      else match order.find? fun pi => equalFold pi.hostname d.exitNode ∧ pi.exitRoutes ≠ [] with
        | none => 0
        | some pi => pi.nodeID }

/-- What `applyNetMap` does to the table under the lock. `order` is the order in which the exit node
is looked for. -/
def applyNetMap (d : Daemon) (nm : Proto.NetMap) (order : List PeerInfo) : Daemon :=
  selectExitPeerLocked equalFold
    { d with
      peers := mergePeers d.peers nm.peers
      ids := nodup_mergePeers d.ids nm.peers } order

/-- Change the peer with this id. -/
def updatePeer (d : Daemon) (id : ℕ) (f : PeerInfo → PeerInfo)
    (hf : ∀ pi, (f pi).nodeID = pi.nodeID) : Daemon :=
  { d with
    peers := d.peers.map fun pi => if pi.nodeID = id then f pi else pi
    ids := by
      rw [map_nodeID_update hf]
      exact d.ids }

/-- What `onPathUpdate` does under the lock, and whether it goes on to `syncPeers`. -/
def onPathUpdate (d : Daemon) (u : PathUpdate) : Bool × Daemon :=
  match d.peers.find? (·.nodeID = u.nodeID) with
  | none => (false, d)
  | some pi =>
    (pi.path ≠ u.state ∨ pi.pathEP ≠ u.endpoint,
      d.updatePeer u.nodeID ({ · with path := u.state, pathEP := u.endpoint }) fun _ => rfl)

/-- `peerNameByAddr`, for an iteration in the order `order`. -/
def peerNameByAddr (order : List PeerInfo) (addr : Addr) : String :=
  match order.find? fun pi => pi.ipv4 = addr.string ∨ pi.ipv6 = addr.string with
  | none => ""
  | some pi => pi.hostname

/-! ### What is programmed -/

/-- `RelayEndpointString`. -/
def relayEndpointString (k : Bytes32) : String :=
  "relay:" ++ String.ofList (GoText.hexEncode k.val)

/-- The addresses and routes a peer is programmed with. -/
def allowedIPs (d : Daemon) (pi : PeerInfo) : List Prefix :=
  pi.allowed ++ pi.subnetRoutes ++ if pi.nodeID = d.exitPeerID then pi.exitRoutes else []

/-- The endpoint of a peer: a direct path, or else the relay, or else the first hint that parses. -/
def endpoints (d : Daemon) (pi : PeerInfo) : Option (Addr × ℕ) × String :=
  if pi.path = .direct ∧ pi.pathEP ≠ none then (pi.pathEP, "")
  else if d.relayUp ∧ pi.online then (none, relayEndpointString pi.pubKey)
  else (pi.staticEPs.findSome? parseAddrPort, "")

/-- The configuration of a peer. -/
def peerConfig (d : Daemon) (pi : PeerInfo) : PeerConfig :=
  ⟨pi.pubKey, d.allowedIPs pi, (d.endpoints pi).1, (d.endpoints pi).2⟩

/-- The peer has an endpoint. -/
def programmed (d : Daemon) (pi : PeerInfo) : Bool :=
  (d.endpoints pi).1 ≠ none ∨ (d.endpoints pi).2 ≠ ""

/-- `buildPeerConfigsLocked`, for an iteration in the order `order`. -/
def buildPeerConfigsLocked (d : Daemon) (order : List PeerInfo) : List PeerConfig :=
  (order.filter d.programmed).map d.peerConfig

variable {equalFold} {d : Daemon} {nm : Proto.NetMap} {order : List PeerInfo}

@[simp] theorem peers_applyNetMap :
    (d.applyNetMap equalFold nm order).peers = mergePeers d.peers nm.peers := rfl

/-- Distinct keys in the netmap are distinct keys in the table. -/
theorem nodup_pubKey_applyNetMap (h : (nm.peers.map (·.nodeKey)).Nodup) :
    ((d.applyNetMap equalFold nm order).peers.map (·.pubKey)).Nodup := by
  have hids := (d.applyNetMap equalFold nm order).ids
  rw [peers_applyNetMap] at hids ⊢
  rw [List.nodup_map_iff_inj_on hids.of_map]
  intro x hx y hy hkey
  obtain ⟨p, hp, k, x₀, hk, hidx, rfl⟩ := exists_of_mem_mergePeers hx
  obtain ⟨q, hq, k', y₀, hk', hidy, rfl⟩ := exists_of_mem_mergePeers hy
  have hpq : p = q := by
    refine List.inj_on_of_nodup_map h hp hq ?_
    rw [← val_of_bytes32 hk, ← val_of_bytes32 hk']
    exact congrArg Subtype.val hkey
  refine List.inj_on_of_nodup_map hids hx hy ?_
  rw [nodeID_merge, nodeID_merge, hidx, hidy, hpq]

end Daemon

end OverMesh
