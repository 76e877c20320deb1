import OverMesh.Internal.NetipText
import OverMesh.Internal.PrefixTable
import OverMesh.Key

/-!
# Programming WireGuard

`internal/wgengine` hands the peer set to the WireGuard device as a list of configuration lines. The
lines are commands here, `uapiPeersConfig` renders the peer set as such a list, and `Device.exec` is
what the device does on a command. Of the device, the peers with their endpoints and the table of
allowed addresses are modelled.

The table is consulted for the source of every packet that was decrypted: the packet is accepted if
the peer it came from owns the longest prefix that covers the source.

## Main results

* `setPeers_eq` — a peer set replaces whatever the device had
* `setPeers_spec` — the peers and the table it leaves
-/

namespace OverMesh

open Netip Key

/-- `PeerConfig`. No endpoint is the zero value. -/
structure PeerConfig where
  publicKey : Bytes32
  allowedIPs : List Prefix
  endpoint : Option (Addr × ℕ)
  relayEndpoint : String
  deriving DecidableEq

namespace Wgengine

/-- Where packets for a peer are sent. -/
inductive Endpoint where
  | udp (ap : Addr × ℕ)
  | relay (s : String)
  deriving DecidableEq

/-- The configuration lines that are used. The peer commands are about the key named last. -/
inductive Uapi where
  | replacePeers
  | publicKey (k : Bytes32)
  | replaceAllowedIPs
  | allowedIP (p : Prefix)
  | endpoint (e : Endpoint)
  | persistentKeepalive (seconds : ℕ)

/-- `keepaliveSeconds`. -/
def keepaliveSeconds : ℕ := 25

/-- The endpoint of a peer: its address, or else its relay form. -/
def PeerConfig.dst (p : PeerConfig) : Option Endpoint :=
  match p.endpoint with
  | some ap => some (.udp ap)
  | none => if p.relayEndpoint ≠ "" then some (.relay p.relayEndpoint) else none

/-- The lines of one peer. -/
def uapiPeer (p : PeerConfig) : List Uapi :=
  [.publicKey p.publicKey, .replaceAllowedIPs] ++ p.allowedIPs.map .allowedIP ++
    (PeerConfig.dst p).toList.map .endpoint ++ [.persistentKeepalive keepaliveSeconds]

/-- `uapiPeersConfig`. -/
def uapiPeersConfig (peers : List PeerConfig) : List Uapi :=
  .replacePeers :: peers.flatMap uapiPeer

/-! ### The device -/

/-- A peer of the device. -/
structure DevicePeer where
  publicKey : Bytes32
  endpoint : Option Endpoint
  keepalive : ℕ
  deriving DecidableEq

/-- The device. `current` is the key the peer commands are about. -/
structure Device where
  peers : List DevicePeer
  allowedIPs : List (Canonical × Bytes32)
  current : Option Bytes32
  deriving DecidableEq

namespace Device

/-- A device without peers. -/
def empty : Device := ⟨[], [], none⟩

/-- Change the peer with key `k`. -/
def modify (d : Device) (k : Bytes32) (f : DevicePeer → DevicePeer) : Device :=
  { d with peers := d.peers.map fun p => if p.publicKey = k then f p else p }

/-- One command. A peer command before any key is an error of the device. -/
def exec (d : Device) : Uapi → Device
  | .replacePeers => { d with peers := [], allowedIPs := [] }
  | .publicKey k =>
    { d with
      peers := if d.peers.any (·.publicKey = k) then d.peers else d.peers ++ [⟨k, none, 0⟩]
      current := some k }
  | .replaceAllowedIPs =>
    match d.current with
    | none => d
    | some k => { d with allowedIPs := PrefixTable.remove d.allowedIPs k }
  | .allowedIP p =>
    match d.current with
    | none => d
    | some k => { d with allowedIPs := PrefixTable.insert d.allowedIPs (.of p) k }
  | .endpoint e =>
    match d.current with
    | none => d
    | some k => d.modify k ({ · with endpoint := some e })
  | .persistentKeepalive n =>
    match d.current with
    | none => d
    | some k => d.modify k ({ · with keepalive := n })

/-- `IpcSet`: the commands in order. -/
def ipcSet (d : Device) (cmds : List Uapi) : Device := cmds.foldl exec { d with current := none }

/-- `SetPeers`. -/
def setPeers (d : Device) (peers : List PeerConfig) : Device := d.ipcSet (uapiPeersConfig peers)

/-- A decrypted packet of peer `k` with this source address is accepted. -/
def accepts (d : Device) (k : Bytes32) (src : Addr) : Bool :=
  PrefixTable.lookup Canonical.contains Canonical.bits d.allowedIPs src = some k

/-! ### What a peer set leaves -/

/-- **A peer set replaces** whatever the device had. -/
theorem setPeers_eq (d : Device) (cfgs : List PeerConfig) :
    d.setPeers cfgs = empty.setPeers cfgs := rfl

/-- A command adds no peer but the one it names. -/
theorem exists_of_mem_peers_exec {d : Device} {cmd : Uapi} {p : DevicePeer}
    (h : p ∈ (d.exec cmd).peers) :
    (∃ q ∈ d.peers, q.publicKey = p.publicKey) ∨ cmd = .publicKey p.publicKey := by
  have hmodify : ∀ k (f : DevicePeer → DevicePeer), p ∈ (d.modify k f).peers →
      (∀ q, (f q).publicKey = q.publicKey) → ∃ q ∈ d.peers, q.publicKey = p.publicKey := by
    intro k f hp hf
    obtain ⟨q, hq, rfl⟩ := List.mem_map.mp hp
    refine ⟨q, hq, ?_⟩
    split_ifs
    · exact (hf q).symm
    · rfl
  cases cmd with
  | replacePeers => cases h
  | publicKey k =>
    simp only [exec] at h
    split_ifs at h
    · exact .inl ⟨p, h, rfl⟩
    · rcases List.mem_append.mp h with h | h
      · exact .inl ⟨p, h, rfl⟩
      · obtain rfl := List.mem_singleton.mp h
        exact .inr rfl
  | replaceAllowedIPs =>
    left
    rcases hk : d.current with _ | k <;> simp only [exec, hk] at h <;> exact ⟨p, h, rfl⟩
  | allowedIP a =>
    left
    rcases hk : d.current with _ | k <;> simp only [exec, hk] at h <;> exact ⟨p, h, rfl⟩
  | endpoint e =>
    left
    rcases hk : d.current with _ | k <;> simp only [exec, hk] at h
    · exact ⟨p, h, rfl⟩
    · exact hmodify k _ h fun _ => rfl
  | persistentKeepalive n =>
    left
    rcases hk : d.current with _ | k <;> simp only [exec, hk] at h
    · exact ⟨p, h, rfl⟩
    · exact hmodify k _ h fun _ => rfl

/-- A command adds no entry to the table but one for the prefix it gives to the current peer. -/
theorem mem_allowedIPs_exec {d : Device} {cmd : Uapi} {x : Canonical × Bytes32}
    (h : x ∈ (d.exec cmd).allowedIPs) : x ∈ d.allowedIPs ∧ cmd ≠ .replacePeers ∨
      ∃ p k, cmd = .allowedIP p ∧ d.current = some k ∧ x = (.of p, k) := by
  cases cmd with
  | replacePeers => cases h
  | publicKey k => exact .inl ⟨h, Uapi.noConfusion⟩
  | replaceAllowedIPs =>
    left
    simp only [exec] at h
    split at h
    · exact ⟨h, Uapi.noConfusion⟩
    · exact ⟨(List.mem_filter.mp h).1, Uapi.noConfusion⟩
  | allowedIP p =>
    simp only [exec] at h
    split at h
    · exact .inl ⟨h, Uapi.noConfusion⟩
    · next k hk =>
      rcases PrefixTable.mem_insert.mp h with ⟨hold, -⟩ | rfl
      · exact .inl ⟨hold, Uapi.noConfusion⟩
      · exact .inr ⟨p, k, rfl, hk, rfl⟩
  | endpoint e | persistentKeepalive n =>
    left
    simp only [exec] at h
    split at h
    · exact ⟨h, Uapi.noConfusion⟩
    · exact ⟨h, Uapi.noConfusion⟩

/-- A command leaves the current peer, or names it. -/
theorem current_exec {d : Device} {cmd : Uapi} {k : Bytes32}
    (h : (d.exec cmd).current = some k) : d.current = some k ∨ cmd = .publicKey k := by
  cases cmd with
  | replacePeers => exact .inl h
  | publicKey k' => exact .inr (congrArg _ (Option.some.inj h))
  | replaceAllowedIPs | allowedIP p | endpoint e | persistentKeepalive n =>
    left
    simp only [exec] at h
    split at h
    · exact h
    · exact h

/-- **No peer is left** that was not given, whether or not keys are given twice. -/
theorem exists_of_mem_peers_setPeers {d : Device} {cfgs : List PeerConfig} {p : DevicePeer}
    (h : p ∈ (d.setPeers cfgs).peers) : ∃ c ∈ cfgs, c.publicKey = p.publicKey := by
  have hnamed : ∀ (cmds : List Uapi) (d : Device), p ∈ (cmds.foldl exec d).peers →
      (∃ q ∈ d.peers, q.publicKey = p.publicKey) ∨ .publicKey p.publicKey ∈ cmds := by
    intro cmds
    induction cmds with
    | nil => exact fun d hp => .inl ⟨p, hp, rfl⟩
    | cons cmd cmds ih =>
      intro d hp
      rcases ih _ hp with ⟨q, hq, hkey⟩ | hmem
      · rw [← hkey]
        rcases exists_of_mem_peers_exec hq with hold | rfl
        · exact .inl hold
        · exact .inr List.mem_cons_self
      · exact .inr (List.mem_cons_of_mem _ hmem)
  rcases hnamed (cfgs.flatMap uapiPeer) (exec { d with current := none } .replacePeers) h with
    ⟨q, hq, -⟩ | hmem
  · cases hq
  · obtain ⟨c, hc, hcmd⟩ := List.mem_flatMap.mp hmem
    refine ⟨c, hc, ?_⟩
    simpa [uapiPeer, eq_comm] using hcmd

theorem foldl_exec_allowedIP {k : Bytes32} (ps : List Prefix) {d : Device}
    (hk : d.current = some k) : (ps.map Uapi.allowedIP).foldl exec d =
      { d with allowedIPs := PrefixTable.insertAll d.allowedIPs k (ps.map .of) } := by
  induction ps generalizing d with
  | nil => rfl
  | cons p ps ih =>
    rw [List.map_cons, List.foldl_cons, exec, hk, ih rfl]
    rfl

/-- Commands about the peer that was named last change its entry only. -/
theorem modify_concat {d : Device} {k : Bytes32} (ps : List DevicePeer) (q : DevicePeer)
    (hd : d.peers = ps ++ [q]) (hps : ∀ p ∈ ps, p.publicKey ≠ k) (hq : q.publicKey = k)
    (f : DevicePeer → DevicePeer) : d.modify k f = { d with peers := ps ++ [f q] } := by
  have hkept : ps.map (fun p => if p.publicKey = k then f p else p) = ps := by
    refine (List.map_congr_left ?_).trans (List.map_id _)
    intro p hp
    rw [if_neg (hps p hp)]
    rfl
  rw [modify, hd, List.map_append, hkept, List.map_singleton, if_pos hq]

/-- The commands of one peer, on a device that does not have it yet. -/
theorem foldl_exec_uapiPeer {d : Device} {p : PeerConfig}
    (hnew : ∀ q ∈ d.peers, q.publicKey ≠ p.publicKey) : (uapiPeer p).foldl exec d = {
      peers := d.peers ++ [⟨p.publicKey, PeerConfig.dst p, keepaliveSeconds⟩]
      allowedIPs := PrefixTable.insertAll (PrefixTable.remove d.allowedIPs p.publicKey) p.publicKey
        (p.allowedIPs.map .of)
      current := some p.publicKey } := by
  have hany : d.peers.any (·.publicKey = p.publicKey) = false := by
    simpa [List.any_eq_false] using hnew
  simp only [uapiPeer, List.foldl_append, List.foldl_cons, List.foldl_nil]
  have hnamed : d.exec (.publicKey p.publicKey) = { d with
      peers := d.peers ++ [⟨p.publicKey, none, 0⟩], current := some p.publicKey } := by
    rw [exec, hany]
    rfl
  rw [hnamed, foldl_exec_allowedIP (k := p.publicKey) _ rfl]
  cases PeerConfig.dst p with
  | none =>
    simp only [Option.toList_none, List.map_nil, List.foldl_nil, exec]
    exact modify_concat d.peers ⟨p.publicKey, none, 0⟩ rfl hnew rfl _
  | some e =>
    simp only [Option.toList_some, List.map_cons, List.map_nil, List.foldl_cons, List.foldl_nil,
      exec]
    rw [modify_concat d.peers ⟨p.publicKey, none, 0⟩ rfl hnew rfl]
    exact modify_concat d.peers ⟨p.publicKey, some e, 0⟩ rfl hnew rfl _

theorem setPeers_concat (d : Device) (cfgs : List PeerConfig) (c : PeerConfig) :
    d.setPeers (cfgs ++ [c]) = (uapiPeer c).foldl exec (d.setPeers cfgs) := by
  simp [setPeers, ipcSet, uapiPeersConfig, List.flatMap_append, List.foldl_append]

/-- **The device has exactly the peers it was given**, if no key is given twice, and its table is
programmed with their addresses one peer after the other. -/
theorem setPeers_spec (d : Device) {cfgs : List PeerConfig} (hk : (cfgs.map (·.publicKey)).Nodup) :
    (d.setPeers cfgs).peers =
        cfgs.map (fun c => ⟨c.publicKey, PeerConfig.dst c, keepaliveSeconds⟩) ∧
      (d.setPeers cfgs).allowedIPs =
        PrefixTable.program (cfgs.map fun c => (c.publicKey, c.allowedIPs.map .of)) := by
  induction cfgs using List.reverseRecOn with
  | nil => exact ⟨rfl, rfl⟩
  | append_singleton cfgs c ih =>
    rw [List.map_append, List.nodup_append] at hk
    obtain ⟨hpeers, hips⟩ := ih hk.1
    have hnew : ∀ q ∈ (d.setPeers cfgs).peers, q.publicKey ≠ c.publicKey := by
      intro q hq
      rw [hpeers] at hq
      obtain ⟨c', hc', rfl⟩ := List.mem_map.mp hq
      exact hk.2.2 _ (List.mem_map_of_mem hc') _ (by simp)
    rw [setPeers_concat, foldl_exec_uapiPeer hnew, List.map_append, List.map_append, hpeers, hips,
      List.map_singleton, List.map_singleton, PrefixTable.program_concat]
    exact ⟨rfl, rfl⟩

end Device

end Wgengine

end OverMesh
