import OverMesh.Daemon.Peers

/-!
# Who a packet comes from

The packet filter and the file receiver take the source address of a packet for the identity of its
sender. WireGuard accepts a packet only from the peer that owns the longest programmed prefix around
the source, so the question is whether that peer is the one that has the address in the peer table.

It is not in general. A peer without an endpoint stays in the table but is not programmed, and a
route of another peer may cover its address; a route may also be as long as the address itself.
`Dominates` says that neither happens.

## Main definitions

* `Daemon.Identifies` — an accepted packet with the address of a peer comes from that peer
* `Daemon.Dominates` — whenever a route of another peer covers an address of a peer, the peer is
  programmed with a longer prefix around it

## Main results

* `identifies_applyNetMap_iff` — the two are equivalent
-/

namespace OverMesh

open Netip Key Wgengine

/-- The addresses that stand for the peer. -/
def PeerInfo.overlayAddrs (pi : PeerInfo) : List Addr := pi.allowed.map Prefix.addr

namespace Daemon

/-- The device after the table was programmed in the order `order`. -/
def engine (d : Daemon) (order : List PeerInfo) : Device :=
  Device.empty.setPeers (d.buildPeerConfigsLocked order)

/-- **Source addresses identify peers**, in whatever order the table is iterated over. -/
def Identifies (d : Daemon) : Prop :=
  ∀ order, order.Perm d.peers → ∀ pi ∈ d.peers, ∀ a ∈ pi.overlayAddrs, ∀ k,
    (d.engine order).accepts k a = true → k = pi.pubKey

/-- Whenever another programmed peer has a prefix around an address of `pi`, then `pi` is programmed
with a longer one. -/
def Dominates (d : Daemon) : Prop :=
  ∀ pi ∈ d.peers, ∀ a ∈ pi.overlayAddrs,
    ∀ q ∈ d.peers, q.nodeID ≠ pi.nodeID → d.programmed q = true →
      ∀ r ∈ d.allowedIPs q, r.contains a = true →
        d.programmed pi = true ∧ ∃ p ∈ d.allowedIPs pi, p.contains a = true ∧ r.bits < p.bits

section Blocks

variable {d : Daemon} {order : List PeerInfo}

/-- What the table of the device is built from. -/
def blocks (d : Daemon) (order : List PeerInfo) : List (Bytes32 × List Canonical) :=
  (d.buildPeerConfigsLocked order).map fun c => (c.publicKey, c.allowedIPs.map .of)

theorem blocks_eq : d.blocks order =
      (order.filter d.programmed).map fun q => (q.pubKey, (d.allowedIPs q).map .of) := by
  rw [blocks, buildPeerConfigsLocked, List.map_map]
  rfl

theorem mem_blocks {b : Bytes32 × List Canonical} : b ∈ d.blocks order ↔
      ∃ q ∈ order, d.programmed q = true ∧ (q.pubKey, (d.allowedIPs q).map .of) = b := by
  rw [blocks_eq, List.mem_map]
  simp only [List.mem_filter, and_assoc]

/-- The keys of the configuration are distinct if those of the table are. -/
theorem nodup_keys (hk : (d.peers.map (·.pubKey)).Nodup) (ho : order.Perm d.peers) :
    ((d.buildPeerConfigsLocked order).map (·.publicKey)).Nodup := by
  rw [buildPeerConfigsLocked, List.map_map]
  have hkeys : (order.map (·.pubKey)).Nodup := (ho.map _).nodup_iff.mpr hk
  exact hkeys.sublist (List.filter_sublist.map _)

/-- The table of the device is the one of the blocks. -/
theorem accepts_iff (hk : (d.peers.map (·.pubKey)).Nodup) (ho : order.Perm d.peers) {k : Bytes32}
    {a : Addr} : (d.engine order).accepts k a = true ↔
      PrefixTable.lookup Canonical.contains Canonical.bits
        (PrefixTable.program (d.blocks order)) a = some k := by
  rw [Device.accepts, decide_eq_true_iff, engine,
    (Device.setPeers_spec Device.empty (nodup_keys hk ho)).2, blocks]

theorem nodup_blocks (hk : (d.peers.map (·.pubKey)).Nodup) (ho : order.Perm d.peers) :
    ((d.blocks order).map Prod.fst).Nodup := by
  rw [blocks, List.map_map]
  exact nodup_keys hk ho

end Blocks

variable {d : Daemon}

/-- A peer that is accepted with an address has the longest prefix around it. -/
theorem exists_of_accepts (hk : (d.peers.map (·.pubKey)).Nodup) {order : List PeerInfo}
    (ho : order.Perm d.peers) {k : Bytes32} {a : Addr} (h : (d.engine order).accepts k a = true) :
    ∃ q ∈ d.peers, q.pubKey = k ∧ d.programmed q = true ∧ ∃ r ∈ d.allowedIPs q,
      r.contains a = true ∧
        ∀ q' ∈ d.peers, d.programmed q' = true → ∀ r' ∈ d.allowedIPs q', r'.contains a = true →
          r'.bits ≤ r.bits := by
  obtain ⟨b, hb, rfl, c, hc, hcovers, hmax⟩ :=
    PrefixTable.lookup_program_sound (nodup_blocks hk ho) ((accepts_iff hk ho).mp h)
  obtain ⟨q, hq, hprog, rfl⟩ := mem_blocks.mp hb
  obtain ⟨r, hr, rfl⟩ := List.mem_map.mp hc
  refine ⟨q, ho.mem_iff.mp hq, rfl, hprog, r, hr, by simpa using hcovers, ?_⟩
  intro q' hq' hprog' r' hr' hcovers'
  have hb' := mem_blocks.mpr ⟨q', ho.mem_iff.mpr hq', hprog', rfl⟩
  simpa using hmax _ hb' (.of r') (List.mem_map_of_mem hr') (by simpa using hcovers')

/-- An address that a programmed prefix covers is accepted from somebody. -/
theorem exists_accepts (hk : (d.peers.map (·.pubKey)).Nodup) {order : List PeerInfo}
    (ho : order.Perm d.peers) {q : PeerInfo} (hq : q ∈ d.peers) (hprog : d.programmed q = true)
    {r : Prefix} (hr : r ∈ d.allowedIPs q) {a : Addr} (hcovers : r.contains a = true) :
    ∃ k, (d.engine order).accepts k a = true := by
  have hb := mem_blocks.mpr ⟨q, ho.mem_iff.mpr hq, hprog, rfl⟩
  obtain ⟨e, he, heq⟩ :=
    PrefixTable.exists_mem_program (nodup_blocks hk ho) hb (List.mem_map_of_mem hr)
  have hcovers' : e.1.contains a = true := by rw [heq, Canonical.contains_of, hcovers]
  obtain ⟨k, hlookup⟩ := PrefixTable.exists_lookup Canonical.bits he hcovers'
  exact ⟨k, (accepts_iff hk ho).mpr hlookup⟩

/-- Of several peers with equally long prefixes the one that is programmed last is accepted. -/
theorem accepts_last (hk : (d.peers.map (·.pubKey)).Nodup) {q : PeerInfo} (hq : q ∈ d.peers)
    (hprog : d.programmed q = true) {r : Prefix} (hr : r ∈ d.allowedIPs q) {a : Addr}
    (hcovers : r.contains a = true)
    (hmax : ∀ q' ∈ d.peers, d.programmed q' = true → ∀ r' ∈ d.allowedIPs q',
      r'.contains a = true → r'.bits ≤ r.bits) :
    (d.engine (d.peers.erase q ++ [q])).accepts q.pubKey a = true := by
  have ho : (d.peers.erase q ++ [q]).Perm d.peers :=
    (List.perm_append_singleton q _).trans (List.perm_cons_erase hq).symm
  rw [accepts_iff hk ho]
  have hsplit : d.blocks (d.peers.erase q ++ [q]) =
      d.blocks (d.peers.erase q) ++ [(q.pubKey, (d.allowedIPs q).map .of)] := by
    rw [blocks_eq, blocks_eq, List.filter_append, List.map_append]
    simp [hprog]
  rw [hsplit]
  refine PrefixTable.lookup_program_last (fun _ _ => Canonical.eq_of_contains)
    (List.mem_map_of_mem hr) (by simpa using hcovers) ?_
  intro b hb c hc hcovers'
  rw [← hsplit] at hb
  obtain ⟨q', hq', hprog', rfl⟩ := mem_blocks.mp hb
  obtain ⟨r', hr', rfl⟩ := List.mem_map.mp hc
  simpa using hmax q' (ho.mem_iff.mp hq') hprog' r' hr' (by simpa using hcovers')

theorem identifies_iff (hk : (d.peers.map (·.pubKey)).Nodup) : d.Identifies ↔ d.Dominates := by
  constructor
  · intro h pi hpi a ha q hq hne hprog r hr hcovers
    by_contra hnot
    -- Somebody is accepted with the address, so it is `pi`, with a prefix that is the longest.
    obtain ⟨k, hacc⟩ := exists_accepts hk (List.Perm.refl _) hq hprog hr hcovers
    obtain rfl := h _ (List.Perm.refl _) pi hpi a ha k hacc
    obtain ⟨pi', hpi', hkey, hprog', p, hp, hcovers', hmax⟩ :=
      exists_of_accepts hk (List.Perm.refl _) hacc
    obtain rfl := List.inj_on_of_nodup_map hk hpi' hpi hkey
    have hle : p.bits ≤ r.bits := not_lt.mp fun hlt => hnot ⟨hprog', p, hp, hcovers', hlt⟩
    -- The prefix of `q` is no shorter, so `q` is accepted if it is programmed last.
    have hq' := h _ ((List.perm_append_singleton q _).trans (List.perm_cons_erase hq).symm) pi' hpi
      a ha q.pubKey (accepts_last hk hq hprog hr hcovers
        fun q' hqmem hq' r' hr' hc' => (hmax q' hqmem hq' r' hr' hc').trans hle)
    exact hne (congrArg PeerInfo.nodeID (List.inj_on_of_nodup_map hk hq hpi hq'))
  · intro h order ho pi hpi a ha k hk'
    obtain ⟨q, hq, rfl, hprog, r, hr, hcovers, hmax⟩ := exists_of_accepts hk ho hk'
    by_cases hid : q.nodeID = pi.nodeID
    · rw [List.inj_on_of_nodup_map d.ids hq hpi hid]
    · obtain ⟨hprog', p, hp, hcovers', hlt⟩ := h pi hpi a ha q hq hid hprog r hr hcovers
      exact absurd (hmax pi hpi hprog' p hp hcovers') (not_le.mpr hlt)

/-! ### After a netmap -/

section NetMap

variable {equalFold : String → String → Bool} {nm : Proto.NetMap}

/-- **When source addresses identify peers.** After a netmap with distinct keys was applied,
whatever the paths, the relay and the exit node are: an accepted packet with the address of a peer
comes from that peer exactly if no other programmed peer has a prefix around the address, or the
peer is programmed with a longer one. -/
theorem identifies_applyNetMap_iff (d : Daemon) (order : List PeerInfo)
    (hk : (nm.peers.map (·.nodeKey)).Nodup) :
    (d.applyNetMap equalFold nm order).Identifies ↔
      (d.applyNetMap equalFold nm order).Dominates :=
  identifies_iff (nodup_pubKey_applyNetMap hk)

end NetMap

/-! ### A gateway and a laptop

The gateway `gw` is an approved exit node, and this node has selected it. -/

/-- The gateway, and a laptop that reports the given endpoints. -/
def sampleNetMap (endpoints : List String) : Proto.NetMap where
  seq := 1
  self := ⟨1, "me", "default", ["10.0.0.1/32"], []⟩
  peers := [
    ⟨2, "gw", List.replicate 32 2, ["10.0.0.2/32"], ["192.0.2.1:51820"], true, ["0.0.0.0/0"]⟩,
    ⟨3, "laptop", List.replicate 32 3, ["10.0.0.3/32"], endpoints, false, []⟩]
  stunServers := []
  relays := []
  dns := none
  filter := []
  filterEnabled := false

/-- The table of the node. -/
def sampleTable (endpoints : List String) : Daemon :=
  Daemon.applyNetMap (fun s t => s = t) ⟨[], .nil, "gw", 0, false⟩ (sampleNetMap endpoints)
    (mergePeers [] (sampleNetMap endpoints).peers)

/-- As long as the laptop can be reached, its address is its own. -/
theorem identifies_reachable : (sampleTable ["192.0.2.2:51820"]).Identifies :=
  (identifies_applyNetMap_iff _ _ (by decide)).mpr (by unfold Dominates; decide +kernel)

/-- **The gateway speaks for the laptop** once the laptop has no endpoint. -/
theorem accepts_from_gateway :
    ((sampleNetMap []).peers.map (·.nodeKey)).Nodup ∧
      ((sampleTable []).peers.flatMap PeerInfo.overlayAddrs).Nodup ∧
      ∃ pi ∈ (sampleTable []).peers, pi.hostname = "laptop" ∧ ∃ a ∈ pi.overlayAddrs,
        ∃ q ∈ (sampleTable []).peers, q.hostname = "gw" ∧ q.pubKey ≠ pi.pubKey ∧
          ((sampleTable []).engine (sampleTable []).peers).accepts q.pubKey a = true := by
  decide +kernel

end Daemon

end OverMesh
