import Mathlib.Data.Nat.Notation

/-!
# Wire messages

The messages of `proto/overmesh/v1` that the coordinator sends to a node: the netmap with its
peers, and the packet filter inside it.
-/

namespace OverMesh

namespace Proto

/-- `PortRange`, inclusive. -/
structure PortRange where
  first : UInt32
  last : UInt32
  deriving DecidableEq

/-- `FilterRule`. No source means any source, no port means all ports. -/
structure FilterRule where
  allow : Bool
  srcCidrs : List String
  protocol : String
  dstPorts : List PortRange
  deriving DecidableEq

/-- `Node`: the receiving node's own record. -/
structure Node where
  nodeID : ℕ
  hostname : String
  networkID : String
  overlayIPs : List String
  approvedRoutes : List String
  deriving DecidableEq

/-- `Peer`: another node of the network. -/
structure Peer where
  nodeID : ℕ
  hostname : String
  nodeKey : List UInt8
  overlayIPs : List String
  endpoints : List String
  online : Bool
  allowedRoutes : List String
  deriving DecidableEq

/-- `DNSConfig`. -/
structure DNSConfig where
  domain : String
  deriving DecidableEq

/-- `NetMap`: a node's complete view of the network. -/
structure NetMap where
  seq : ℕ
  self : Node
  peers : List Peer
  stunServers : List String
  relays : List String
  dns : Option DNSConfig
  filter : List FilterRule
  filterEnabled : Bool
  deriving DecidableEq

end Proto

end OverMesh
