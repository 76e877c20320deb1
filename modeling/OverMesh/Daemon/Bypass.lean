import OverMesh.Daemon.Up
import OverMesh.Daemon.Peers
import OverMesh.Internal.Runs
import OverMesh.Ipam

/-!
# Hosts that bypass the exit node

While an exit node is in use, the daemon's own flows must not go through the tunnel.
`exitBypassHosts` collects where they go: the control server, the relays and the endpoints of the
peers. On macOS each of these addresses becomes a host route past the tunnel, and the code says that
overlay addresses never belong there.

Nothing in the function keeps them out. Endpoints are what peers report, and the server only checks
that they are addresses with a port.

The URLs of relays are parsed by `net/url` and names are looked up by the resolver of the system;
both are parameters. The table of peers is iterated over in any order.

## Main definitions

* `resolveRelayURLs`
* `BypassDaemon`, `BypassDaemon.exitBypassHosts`
* `BypassDaemon.step` — netmaps and path updates
* `BypassDaemon.Careful` — what a step names is in the underlay

## Main results

* `exitBypassHosts_underlay_iff` — the list is free of overlay addresses just when the state names
  none
* `exitBypassHosts_run` — it is in every state that careful steps lead to
-/

namespace OverMesh

open Netip Runs

/-- `net/url`, as far as it is used for relays. -/
structure Urls where
  Url : Type
  parse : String → Option Url
  hostname : Url → String
  port : Url → String
  /-- The URL with another host. -/
  withHost : Url → String → Url
  string : Url → String

/-- `resolveRelayURLs`: a relay without a host is on the host of the server. -/
def resolveRelayURLs (urls : Urls) (server : String) (relays : List String) : List String :=
  let serverHost := ((splitHostPort server.toList).map fun h => String.ofList h.1).getD server
  relays.filterMap fun r => (urls.parse r).map fun u =>
    urls.string
      (if urls.hostname u = "" then
        if urls.port u ≠ "" then urls.withHost u (joinHostPort serverHost (urls.port u))
        else urls.withHost u serverHost
      else u)

/-- `netip.AddrFromSlice`. -/
def addrFromSlice (b : List UInt8) : Option Addr :=
  let n := b.foldl (fun acc x => acc * 256 + x.toNat) 0
  if b.length = 4 then some (.v4 (BitVec.ofNat 32 n))
  else if b.length = 16 then some (.v6 (BitVec.ofNat 128 n) "")
  else none

/-- The address of an endpoint that a peer reports. -/
def endpointAddr (ep : String) : Option Addr :=
  (splitHostPort ep.toList).bind fun h => parseAddr (String.ofList h.1)

/-- `add` of `exitBypassHosts`. What was seen is what is in the list. -/
def addHost (out : List Addr) (ip : Addr) : List Addr :=
  if ip.unmap ∈ out then out else out ++ [ip.unmap]

theorem nodup_foldl_addHost {out : List Addr} (h : out.Nodup) (ips : List Addr) :
    (ips.foldl addHost out).Nodup := by
  induction ips generalizing out with
  | nil => exact h
  | cons ip ips ih =>
    refine ih ?_
    rw [addHost]
    split
    · exact h
    · next hnew =>
      rw [← List.concat_eq_append]
      exact h.concat hnew

theorem mem_foldl_addHost {out ips : List Addr} {a : Addr} :
    a ∈ ips.foldl addHost out ↔ a ∈ out ∨ ∃ ip ∈ ips, ip.unmap = a := by
  induction ips generalizing out with
  | nil => simp
  | cons ip ips ih =>
    have hadd : a ∈ addHost out ip ↔ a ∈ out ∨ ip.unmap = a := by
      rw [addHost]
      split
      · next hold =>
        refine ⟨.inl, fun h => h.elim id fun heq => heq ▸ hold⟩
      · rw [List.mem_append, List.mem_singleton, eq_comm]
    rw [List.foldl_cons, ih, hadd, List.exists_mem_cons_iff, or_assoc]

/-! ### The daemon -/

/-- The addresses at which a peer is reached: those of its path and of the endpoints it reports. -/
def PeerInfo.reachedAt (pi : PeerInfo) : List Addr :=
  (pi.pathEP.map Prod.fst).toList ++ pi.staticEPs.filterMap endpointAddr

/-- The daemon, as far as `exitBypassHosts` reads it. -/
structure BypassDaemon where
  d : Daemon
  /-- `d.state.Server`. -/
  server : String
  lastRelays : List String

namespace BypassDaemon

/-- A daemon that has just come up. -/
def start (server exitNode : String) : BypassDaemon := ⟨Daemon.new exitNode, server, []⟩

section Hosts

variable (urls : Urls) (lookupIP : String → Option (List (List UInt8)))

/-- The hosts: that of the server, and those of the relays. -/
def hosts (server : String) (relays : List String) : List String :=
  ((splitHostPort server.toList).map fun h => String.ofList h.1).toList ++
    relays.filterMap fun r =>
      ((urls.parse r).map urls.hostname).bind fun h => if h ≠ "" then some h else none

/-- The addresses of a host, which may be an address itself. -/
def hostAddrs (h : String) : List Addr :=
  match parseAddr h with
  | some ip => [ip]
  | none => ((lookupIP h).getD []).filterMap addrFromSlice

/-- `exitBypassHosts`, for an iteration over the peers in the order `order`. -/
def exitBypassHosts (s : BypassDaemon) (order : List PeerInfo) : List Addr :=
  ((hosts urls s.server s.lastRelays).flatMap (hostAddrs lookupIP) ++
    order.flatMap PeerInfo.reachedAt).foldl addHost []

theorem nodup_exitBypassHosts (s : BypassDaemon) (order : List PeerInfo) :
    (s.exitBypassHosts urls lookupIP order).Nodup := nodup_foldl_addHost List.nodup_nil _

variable {urls lookupIP} in
theorem mem_exitBypassHosts {s : BypassDaemon} {order : List PeerInfo} {a : Addr} :
    a ∈ s.exitBypassHosts urls lookupIP order ↔
      (∃ h ∈ hosts urls s.server s.lastRelays, ∃ ip ∈ hostAddrs lookupIP h, ip.unmap = a) ∨
        ∃ pi ∈ order, ∃ ip ∈ pi.reachedAt, ip.unmap = a := by
  rw [exitBypassHosts, mem_foldl_addHost]
  constructor
  · rintro (h | ⟨ip, hip, ha⟩)
    · exact absurd h List.not_mem_nil
    · rcases List.mem_append.mp hip with hip | hip
      · obtain ⟨h, hh, hip⟩ := List.mem_flatMap.mp hip
        exact .inl ⟨h, hh, ip, hip, ha⟩
      · obtain ⟨pi, hpi, hip⟩ := List.mem_flatMap.mp hip
        exact .inr ⟨pi, hpi, ip, hip, ha⟩
  · rintro (⟨h, hh, ip, hip, ha⟩ | ⟨pi, hpi, ip, hip, ha⟩)
    · exact .inr ⟨ip, List.mem_append_left _ (List.mem_flatMap.mpr ⟨h, hh, hip⟩), ha⟩
    · exact .inr ⟨ip, List.mem_append_right _ (List.mem_flatMap.mpr ⟨pi, hpi, hip⟩), ha⟩

end Hosts

/-! ### Overlay addresses -/

/-- Some of the prefixes contains the address. -/
def Covered (ps : List Prefix) (a : Addr) : Prop := ∃ p ∈ ps, p.contains a = true

instance (ps : List Prefix) (a : Addr) : Decidable (Covered ps a) :=
  inferInstanceAs (Decidable (∃ p ∈ ps, _))

theorem Covered.mono {ps qs : List Prefix} (h : ps ⊆ qs) {a : Addr} (ha : Covered ps a) :
    Covered qs a := by
  obtain ⟨p, hp, hpa⟩ := ha
  exact ⟨p, h hp, hpa⟩

/-- The prefixes that make up the overlay: those it is allocated from, and those of the peers. -/
def overlayPrefixes (overlay : List Prefix) (s : BypassDaemon) : List Prefix :=
  overlay ++ s.d.peers.flatMap PeerInfo.allowed

/-- The state names no overlay address: none that a host resolves to, and none that a peer is
reached at. -/
structure Underlay (overlay : List Prefix) (urls : Urls)
    (lookupIP : String → Option (List (List UInt8))) (s : BypassDaemon) : Prop where
  hosts : ∀ h ∈ hosts urls s.server s.lastRelays, ∀ ip ∈ hostAddrs lookupIP h,
    ¬ Covered (s.overlayPrefixes overlay) ip.unmap
  peers : ∀ pi ∈ s.d.peers, ∀ ip ∈ pi.reachedAt, ¬ Covered (s.overlayPrefixes overlay) ip.unmap

variable {overlay : List Prefix} {urls : Urls} {lookupIP : String → Option (List (List UInt8))}

/-- **The list is free of overlay addresses just when the state names none**, since nothing is left
out of it. -/
theorem exitBypassHosts_underlay_iff {s : BypassDaemon} {order : List PeerInfo}
    (ho : order.Perm s.d.peers) :
    (∀ a ∈ s.exitBypassHosts urls lookupIP order, ¬ Covered (s.overlayPrefixes overlay) a) ↔
      s.Underlay overlay urls lookupIP := by
  constructor
  · intro h
    refine ⟨fun n hn ip hip => ?_, fun pi hpi ip hip => ?_⟩
    · exact h _ (mem_exitBypassHosts.mpr (.inl ⟨n, hn, ip, hip, rfl⟩))
    · exact h _ (mem_exitBypassHosts.mpr (.inr ⟨pi, ho.mem_iff.mpr hpi, ip, hip, rfl⟩))
  · intro h a ha
    rcases mem_exitBypassHosts.mp ha with ⟨n, hn, ip, hip, rfl⟩ | ⟨pi, hpi, ip, hip, rfl⟩
    · exact h.hosts n hn ip hip
    · exact h.peers pi (ho.mem_iff.mp hpi) ip hip

/-! ### Netmaps and path updates -/

/-- What builds the state. A netmap changes the relays only when there is a connection manager; the
exit node is looked for in the order `order`. -/
inductive BypassOp where
  | netMap (nm : Proto.NetMap) (cm : Bool) (order : List PeerInfo)
  | pathUpdate (u : PathUpdate)

/-- The relays after a netmap. -/
def relaysAfter (urls : Urls) (s : BypassDaemon) (nm : Proto.NetMap) (cm : Bool) : List String :=
  if cm then resolveRelayURLs urls s.server nm.relays else s.lastRelays

/-- One step. -/
def step (urls : Urls) (equalFold : String → String → Bool) (s : BypassDaemon) :
    BypassOp → BypassDaemon
  | .netMap nm cm order =>
    { s with d := s.d.applyNetMap equalFold nm order, lastRelays := s.relaysAfter urls nm cm }
  | .pathUpdate u => { s with d := (s.d.onPathUpdate u).2 }

/-- The peers of a netmap that are not skipped. -/
def accepted (nm : Proto.NetMap) : List Proto.Peer := nm.peers.filter fun p => p.nodeKey.length = 32

/-- The overlay as a netmap gives it. -/
def netMapPrefixes (overlay : List Prefix) (nm : Proto.NetMap) : List Prefix :=
  overlay ++ (accepted nm).flatMap fun p => p.overlayIPs.filterMap parsePrefix

/-- **A step that names only the underlay.** A netmap does when no endpoint of its peers, nor a path
that its peers keep, nor the server or a relay is at an overlay address of that netmap. A path
update does when its endpoint is at none. -/
def Careful (overlay : List Prefix) (urls : Urls) (lookupIP : String → Option (List (List UInt8)))
    (s : BypassDaemon) : BypassOp → Prop
  | .netMap nm cm _ =>
    (∀ p ∈ accepted nm, ∀ ip ∈ p.endpoints.filterMap endpointAddr,
      ¬ Covered (netMapPrefixes overlay nm) ip.unmap) ∧
    (∀ pi ∈ s.d.peers, pi.nodeID ∈ seenIDs nm.peers → ∀ ep ∈ pi.pathEP.toList,
      ¬ Covered (netMapPrefixes overlay nm) ep.1.unmap) ∧
    ∀ h ∈ hosts urls s.server (s.relaysAfter urls nm cm), ∀ ip ∈ hostAddrs lookupIP h,
      ¬ Covered (netMapPrefixes overlay nm) ip.unmap
  | .pathUpdate u => ∀ ep ∈ u.endpoint.toList, ¬ Covered (s.overlayPrefixes overlay) ep.1.unmap

instance (s : BypassDaemon) : (op : BypassOp) → Decidable (s.Careful overlay urls lookupIP op)
  | .netMap _ _ _ => instDecidableAnd
  | .pathUpdate _ => List.decidableBAll _ _

/-- A merged peer keeps its path; a new one has none. -/
theorem pathEP_mergePeer {ps : List PeerInfo} {p : Proto.Peer} {pi : PeerInfo}
    (h : pi ∈ mergePeer ps p) :
    pi.pathEP = none ∨ ∃ pi' ∈ ps, pi'.nodeID = pi.nodeID ∧ pi'.pathEP = pi.pathEP := by
  rw [mergePeer] at h
  split at h
  · exact .inr ⟨pi, h, rfl, rfl⟩
  · split_ifs at h with hknown
    · obtain ⟨pi', hpi', rfl⟩ := List.mem_map.mp h
      refine .inr ⟨pi', hpi', ?_⟩
      split
      · exact ⟨rfl, rfl⟩
      · exact ⟨rfl, rfl⟩
    · rcases List.mem_append.mp h with h | h
      · exact .inr ⟨pi, h, rfl, rfl⟩
      · rw [List.mem_singleton.mp h]
        exact .inl rfl

theorem pathEP_mergePeers {ps : List PeerInfo} {peers : List Proto.Peer} {pi : PeerInfo}
    (h : pi ∈ mergePeers ps peers) :
    pi.pathEP = none ∨ ∃ pi' ∈ ps, pi'.nodeID = pi.nodeID ∧ pi'.pathEP = pi.pathEP := by
  replace h := (List.mem_filter.mp h).1
  induction peers generalizing ps with
  | nil => exact .inr ⟨pi, h, rfl, rfl⟩
  | cons p peers ih =>
    rcases ih h with hnone | ⟨pi', hpi', hid, hep⟩
    · exact .inl hnone
    · rcases pathEP_mergePeer hpi' with hnone | ⟨pi'', hpi'', hid', hep'⟩
      · exact .inl (hep.symm.trans hnone)
      · exact .inr ⟨pi'', hpi'', hid'.trans hid, hep'.trans hep⟩

/-- A peer of the table after a netmap comes from one that was not skipped. -/
theorem exists_accepted {ps : List PeerInfo} {nm : Proto.NetMap} {pi : PeerInfo}
    (h : pi ∈ mergePeers ps nm.peers) : ∃ p ∈ accepted nm, pi.staticEPs = p.endpoints ∧
      pi.allowed = p.overlayIPs.filterMap parsePrefix := by
  obtain ⟨p, hp, k, pi₀, hk, -, rfl⟩ := exists_of_mem_mergePeers h
  refine ⟨p, List.mem_filter.mpr ⟨hp, ?_⟩, rfl, rfl⟩
  rw [decide_eq_true_iff, ← val_of_bytes32 hk]
  exact k.property

theorem overlayPrefixes_netMap (s : BypassDaemon) (equalFold : String → String → Bool)
    (nm : Proto.NetMap) (cm : Bool) (order : List PeerInfo) :
    (s.step urls equalFold (.netMap nm cm order)).overlayPrefixes overlay ⊆
      netMapPrefixes overlay nm := by
  refine List.append_subset.mpr ⟨List.subset_append_left _ _, fun q hq => ?_⟩
  obtain ⟨pi, hpi, hq⟩ := List.mem_flatMap.mp hq
  obtain ⟨p, hp, -, hallowed⟩ := exists_accepted hpi
  rw [hallowed] at hq
  exact List.mem_append_right _ (List.mem_flatMap.mpr ⟨p, hp, hq⟩)

/-- The peers after a path update, each with its prefixes and hints. -/
theorem exists_of_mem_onPathUpdate {d : Daemon} {u : PathUpdate} {pi : PeerInfo}
    (h : pi ∈ (d.onPathUpdate u).2.peers) :
    ∃ pi' ∈ d.peers, pi.allowed = pi'.allowed ∧ pi.staticEPs = pi'.staticEPs ∧
      (pi.pathEP = pi'.pathEP ∨ pi.pathEP = u.endpoint) := by
  rw [Daemon.onPathUpdate] at h
  split at h
  · exact ⟨pi, h, rfl, rfl, .inl rfl⟩
  · obtain ⟨pi', hpi', rfl⟩ := List.mem_map.mp h
    refine ⟨pi', hpi', ?_⟩
    split
    · exact ⟨rfl, rfl, .inr rfl⟩
    · exact ⟨rfl, rfl, .inl rfl⟩

theorem overlayPrefixes_pathUpdate (s : BypassDaemon) (equalFold : String → String → Bool)
    (u : PathUpdate) : (s.step urls equalFold (.pathUpdate u)).overlayPrefixes overlay ⊆
      s.overlayPrefixes overlay := by
  refine List.append_subset.mpr ⟨List.subset_append_left _ _, fun q hq => ?_⟩
  obtain ⟨pi, hpi, hq⟩ := List.mem_flatMap.mp hq
  obtain ⟨pi', hpi', hallowed, -⟩ := exists_of_mem_onPathUpdate hpi
  rw [hallowed] at hq
  exact List.mem_append_right _ (List.mem_flatMap.mpr ⟨pi', hpi', hq⟩)

/-- A careful netmap leads to a state that names no overlay address, whatever was before. -/
theorem underlay_netMap {s : BypassDaemon} {equalFold : String → String → Bool} {nm : Proto.NetMap}
    {cm : Bool} {order : List PeerInfo}
    (h : s.Careful overlay urls lookupIP (.netMap nm cm order)) :
    (s.step urls equalFold (.netMap nm cm order)).Underlay overlay urls lookupIP := by
  obtain ⟨heps, hpaths, hhosts⟩ := h
  have hsub : (s.step urls equalFold (.netMap nm cm order)).overlayPrefixes overlay ⊆
      netMapPrefixes overlay nm := s.overlayPrefixes_netMap equalFold nm cm order
  refine ⟨fun n hn ip hip hcov => hhosts n hn ip hip (hcov.mono hsub), ?_⟩
  intro pi hpi ip hip hcov
  have hcov' := hcov.mono hsub
  rcases List.mem_append.mp hip with hpath | hstatic
  · obtain ⟨ep, hep, rfl⟩ := List.mem_map.mp (Option.toList_map .. ▸ hpath)
    rcases pathEP_mergePeers hpi with hnone | ⟨pi', hpi', hid, hsame⟩
    · rw [hnone] at hep
      exact absurd hep List.not_mem_nil
    · refine hpaths pi' hpi' ?_ ep (hsame ▸ hep) hcov'
      rw [hid]
      exact of_decide_eq_true (List.mem_filter.mp hpi).2
  · obtain ⟨p, hp, hstatics, -⟩ := exists_accepted hpi
    rw [hstatics] at hstatic
    exact heps p hp ip hstatic hcov'

/-- A careful path update keeps such a state. -/
theorem underlay_pathUpdate {s : BypassDaemon} {equalFold : String → String → Bool} {u : PathUpdate}
    (hs : s.Underlay overlay urls lookupIP) (h : s.Careful overlay urls lookupIP (.pathUpdate u)) :
    (s.step urls equalFold (.pathUpdate u)).Underlay overlay urls lookupIP := by
  have hsub : (s.step urls equalFold (.pathUpdate u)).overlayPrefixes overlay ⊆
      s.overlayPrefixes overlay := s.overlayPrefixes_pathUpdate equalFold u
  refine ⟨fun n hn ip hip hcov => hs.hosts n hn ip hip (hcov.mono hsub), ?_⟩
  intro pi hpi ip hip hcov
  have hcov' := hcov.mono hsub
  obtain ⟨pi', hpi', -, hstatics, hpath⟩ := exists_of_mem_onPathUpdate hpi
  rcases List.mem_append.mp hip with hip | hip
  · obtain ⟨ep, hep, rfl⟩ := List.mem_map.mp (Option.toList_map .. ▸ hip)
    rcases hpath with hold | hnew
    · refine hs.peers pi' hpi' ep.1 (List.mem_append_left _ ?_) hcov'
      rw [Option.toList_map, ← hold]
      exact List.mem_map_of_mem hep
    · exact h ep (hnew ▸ hep) hcov'
  · refine hs.peers pi' hpi' ip (List.mem_append_right _ ?_) hcov'
    rw [← hstatics]
    exact hip

/-- **Careful runs exempt no overlay address.** When the server is not in the overlay, and every
netmap and path update names only underlay addresses, then in the state reached the list contains no
address of the overlay prefixes or of a peer; and it never contains an address twice. -/
theorem exitBypassHosts_run {equalFold : String → String → Bool} {server exitNode : String}
    (hserver : ∀ h ∈ hosts urls server [], ∀ ip ∈ hostAddrs lookupIP h, ¬ Covered overlay ip.unmap)
    {ops : List BypassOp}
    (hops : Along (step urls equalFold) (Careful overlay urls lookupIP) (start server exitNode)
      ops)
    {order : List PeerInfo}
    (ho : order.Perm (run (step urls equalFold) (start server exitNode) ops).d.peers) :
    ((run (step urls equalFold) (start server exitNode) ops).exitBypassHosts urls lookupIP
        order).Nodup ∧
      ∀ a ∈ (run (step urls equalFold) (start server exitNode) ops).exitBypassHosts urls
          lookupIP order,
        ¬ Covered ((run (step urls equalFold) (start server exitNode) ops).overlayPrefixes
          overlay) a := by
  refine ⟨nodup_exitBypassHosts _ _ _ _, (exitBypassHosts_underlay_iff ho).mpr ?_⟩
  refine run_induction_along ?_ (fun s op hs hop => ?_) hops
  · refine ⟨fun h hh ip hip hcov => hserver h hh ip hip ?_,
      fun pi hpi => absurd hpi List.not_mem_nil⟩
    rw [overlayPrefixes] at hcov
    simpa [start, Daemon.new] using hcov
  · cases op with
    | netMap nm cm order => exact underlay_netMap hop
    | pathUpdate u => exact underlay_pathUpdate hs hop

/-- URLs of the scheme `https` with a host and nothing else. -/
def hostUrls : Urls where
  Url := String
  parse r :=
    if "https://".toList <+: r.toList then some (String.ofList (r.toList.drop 8)) else none
  hostname := id
  port _ := ""
  withHost _ h := h
  string h := "https://" ++ h

/-- A netmap with two peers and a relay, in which the second peer reports the endpoint `ep`. -/
def sampleNetMap (ep : String) : Proto.NetMap where
  seq := 1
  self := ⟨1, "laptop", "default", ["100.96.0.1/32"], []⟩
  peers :=
    [⟨2, "nas", List.replicate 32 2, ["100.96.0.2/32"], ["192.0.2.7:41641"], true, []⟩,
      ⟨3, "guest", List.replicate 32 3, ["100.96.0.3/32"], [ep], true, []⟩]
  stunServers := []
  relays := ["https://192.0.2.1"]
  dns := none
  filter := []
  filterEnabled := false

/-- A run from the beginning, with names compared as they are. -/
def sampleRun (ops : List BypassOp) : BypassDaemon :=
  run (step hostUrls fun x y => x == y) (start "192.0.2.1:41641" "nas") ops

/-- The list then, when no name resolves. -/
def sampleHosts (ops : List BypassOp) : List Addr :=
  (sampleRun ops).exitBypassHosts hostUrls (fun _ => none) (sampleRun ops).d.peers

/-- A netmap, and then a path to the first peer. -/
def sampleOps : List BypassOp :=
  [.netMap (sampleNetMap "198.51.100.3:41641") true [],
    .pathUpdate ⟨2, .direct, some (.v4 0xc0000208#32, 41641)⟩]

theorem exitBypassHosts_run_sample :
    (sampleHosts sampleOps).Nodup ∧ ∀ a ∈ sampleHosts sampleOps,
      ¬ Covered ((sampleRun sampleOps).overlayPrefixes
        [Ipam.defaultIPv4Prefix, Ipam.defaultIPv6Prefix]) a :=
  exitBypassHosts_run (by decide +kernel) (by decide +kernel) (List.Perm.refl _)

/-- The guest reports the overlay address of another peer as its endpoint, which the server accepts,
and the address is exempted from the tunnel. -/
theorem exitBypassHosts_overlay :
    (parseAddrPort "100.96.0.2:41641").isSome = true ∧
      .v4 0x64600002#32 ∈ sampleHosts [.netMap (sampleNetMap "100.96.0.2:41641") true []] ∧
      Ipam.defaultIPv4Prefix.contains (.v4 0x64600002#32) = true ∧
      ∃ pi ∈ (sampleRun [.netMap (sampleNetMap "100.96.0.2:41641") true []]).d.peers,
        .v4 0x64600002#32 ∈ pi.allowed.map Prefix.addr := by
  decide +kernel

end BypassDaemon

end OverMesh
