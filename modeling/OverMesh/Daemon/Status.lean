import OverMesh.Daemon.Peers

/-!
# What the daemon stores and shows

The daemon keeps its last session in a file, `State`, and answers questions about the current one
with a `Status`. The peers that are shown are computed from the table of peers whenever that is
programmed anew.

## Main definitions

* `State`, `Status`, `PeerStatus`
* `Daemon.refreshPeerStatusLocked`
-/

namespace OverMesh

open Netip

/-- `runtime.GOOS`, as far as the daemon asks for it. -/
inductive Goos where
  | linux
  | darwin
  | other
  deriving DecidableEq

/-- The session in `State`. -/
structure State where
  server : String
  desiredUp : Bool
  useTLS : Bool
  advertiseRoutes : List String
  exitNode : String
  deriving DecidableEq

/-- `PeerStatus`. -/
structure PeerStatus where
  hostname : String
  ipv4 : String
  ipv6 : String
  online : Bool
  path : String
  endpoint : String
  rttMs : ℤ
  endpoints : List String
  routes : List String
  offersExit : Bool
  deriving DecidableEq

/-- `Status`, with the zero values as defaults. -/
structure Status where
  version : String
  running : Bool := false
  server : String := ""
  network : String := ""
  hostname : String := ""
  ipv4 : String := ""
  ipv6 : String := ""
  iface : String := ""
  engine : String := ""
  conn : String := ""
  relay : String := ""
  domain : String := ""
  advertisedRoutes : List String := []
  approvedRoutes : List String := []
  exitNode : String := ""
  exitNodeActive : Bool := false
  overdropDir : String := ""
  peers : List PeerStatus := []
  deriving DecidableEq

/-- The parts of the daemon that are only shown: the address of the relay, whether there is a
connection manager, and the round-trip times of the peers in milliseconds. -/
structure Links where
  relayURL : String
  connmgr : Bool
  rtt : ℕ → ℤ

/-- `AddrPort.String`. -/
def addrPortString : Option (Addr × ℕ) → String
  | none => "invalid AddrPort"
  | some (a, port) => if a.is4 then s!"{a.string}:{port}" else s!"[{a.string}]:{port}"

namespace Daemon

/-- How a peer is reached, before it is asked whether it is online. -/
def pathText (d : Daemon) (l : Links) (pi : PeerInfo) : String :=
  if pi.path = .direct then "direct"
  else if d.relayUp ∧ pi.online then "relay"
  else if pi.path = .connecting then "connecting"
  else if l.connmgr = false ∧ pi.staticEPs ≠ [] then "lan"
  else "none"

/-- A peer as it is shown. -/
def peerStatus (d : Daemon) (l : Links) (pi : PeerInfo) : PeerStatus where
  hostname := pi.hostname
  ipv4 := pi.ipv4
  ipv6 := pi.ipv6
  online := pi.online
  path := if pi.online then d.pathText l pi else "none"
  endpoint := if pi.path = .direct then addrPortString pi.pathEP else ""
  rttMs := if pi.path = .direct then l.rtt pi.nodeID else 0
  endpoints := pi.staticEPs
  routes := pi.subnetRoutes.map Prefix.string
  offersExit := pi.exitRoutes ≠ []

/-- `refreshPeerStatusLocked`, for an iteration in the order `order`. Peers of one name may come out
in any order, and do with the order of the iteration. -/
def refreshPeerStatusLocked (d : Daemon) (l : Links) (order : List PeerInfo) (st : Status) :
    Status :=
  { st with
    relay := if d.relayUp then l.relayURL else ""
    peers := (order.map (d.peerStatus l)).insertionSort fun p q => p.hostname ≤ q.hostname }

end Daemon

end OverMesh
