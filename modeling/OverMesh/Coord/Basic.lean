import OverMesh.Coord.AclCompile
import OverMesh.Internal.Channel
import OverMesh.Ipam

/-!
# The coordinator

`internal/coord`: the in-memory view of the mesh that the control plane keeps beside its database,
with the operations on streams and netmaps. Registration is in `Coord.Register`.

Every operation runs under one lock, so an operation is a function from coordinator to coordinator.
The maps of the source are functions; a missing key is `none`, `false` or `0`, which is what the
source reads for it. Channels live in two heaps, one for netmaps and one for signals, and the maps
`subs` and `sigSubs` hold their numbers. Store statements succeed, as `Store` has no other outcome
than a failed constraint.

## Main definitions

* `Coordinator.buildNetMapLocked`, `Coordinator.notifyNetworkLocked`
* `Coordinator.subscribe`, `Coordinator.unsubscribe`, `Coordinator.deleteNode`
* `Coordinator.updateEndpoints`, `Coordinator.setRouteApproved`, `Coordinator.aclChanged`
* `Coordinator.allocatorFor` — the allocator of a network, seeded on first use
-/

namespace OverMesh

open Netip GoText Channel Ipam Key

/-- A signal between two nodes, `SignalEnvelope`. -/
structure SignalEnvelope where
  machineKey : List UInt8
  toNodeID : ℕ
  fromNodeID : ℕ
  kind : ℕ
  payload : String
  session : ℕ
  deriving DecidableEq

/-- `Coordinator`. -/
structure Coordinator where
  st : Store
  stunServers : List String
  relays : List String
  dnsBase : String
  netmapPushes : ℕ
  ipams : ℤ → Option Allocator
  subs : ℤ → Option ℕ
  sigSubs : ℤ → Option ℕ
  online : ℤ → Bool
  seq : ℤ → ℕ
  chans : Heap Proto.NetMap
  sigChans : Heap SignalEnvelope

namespace Coordinator

/-- `New`: nothing is loaded ahead of time. -/
def new (st : Store) (stunServers relays : List String) (dnsBase : String) : Coordinator where
  st := st
  stunServers := stunServers
  relays := relays
  dnsBase := dnsBase
  netmapPushes := 0
  ipams := fun _ => none
  subs := fun _ => none
  sigSubs := fun _ => none
  online := fun _ => false
  seq := fun _ => 0
  chans := .empty
  sigChans := .empty

/-! ### Address allocation -/

/-- `allocatorFor`: the allocator of the network, on first use seeded with every address in the
database. The coordinator that is returned keeps it. -/
def allocatorFor (c : Coordinator) (nw : Network) : Except Ipam.Error (Allocator × Coordinator) :=
  match c.ipams nw.id with
  | some a => .ok (a, c)
  | none =>
    match Ipam.new (some nw.v4Prefix) (some nw.v6Prefix) with
    | .error e => .error e
    | .ok a =>
      let a := a.markUsed ((c.st.nodesInNetwork nw.id).map (·.ipv4))
      .ok (a, { c with ipams := Function.update c.ipams nw.id (some a) })

/-- The allocator of a network is the one in memory, or a fresh one seeded from the database. -/
def Allocates (c : Coordinator) (nw : Network) (a : Allocator) : Prop :=
  c.ipams nw.id = some a ∨ c.ipams nw.id = none ∧
    ∃ a₀, Ipam.new (some nw.v4Prefix) (some nw.v6Prefix) = .ok a₀ ∧
      a = a₀.markUsed ((c.st.nodesInNetwork nw.id).map (·.ipv4))

section Allocator

variable {c c' : Coordinator} {nw : Network} {a : Allocator} {e : Ipam.Error}

/-- `allocatorFor` returns the allocator of the network and keeps it. -/
theorem allocatorFor_ok (h : c.allocatorFor nw = .ok (a, c')) :
    c' = { c with ipams := Function.update c.ipams nw.id (some a) } ∧ c.Allocates nw a := by
  rw [allocatorFor] at h
  split at h
  · next a' ha' =>
    obtain ⟨rfl, rfl⟩ := Prod.mk.inj (Except.ok.inj h)
    refine ⟨?_, .inl ha'⟩
    rw [← ha', Function.update_eq_self]
  · next hnone =>
    split at h
    · cases h
    · next a₀ ha₀ =>
      obtain ⟨rfl, rfl⟩ := Prod.mk.inj (Except.ok.inj h)
      exact ⟨rfl, .inr ⟨hnone, a₀, ha₀, rfl⟩⟩

theorem allocatorFor_error_iff : c.allocatorFor nw = .error e ↔
      c.ipams nw.id = none ∧ Ipam.new (some nw.v4Prefix) (some nw.v6Prefix) = .error e := by
  rw [allocatorFor]
  cases hm : c.ipams nw.id with
  | some a => simp
  | none =>
    cases hn : Ipam.new (some nw.v4Prefix) (some nw.v6Prefix) <;> simp

end Allocator

/-! ### Netmaps -/

/-- The entry of a peer, `none` when its stored key does not parse. -/
def peerEntry (c : Coordinator) (p : Node) : Option Proto.Peer :=
  (NodePublic.unmarshalText p.nodeKey).map fun nkey => {
    nodeID := p.id.toNat
    hostname := p.hostname
    nodeKey := nkey.k.val
    overlayIPs := overlayCIDRs p
    endpoints := p.endpoints
    online := c.online p.id
    allowedRoutes := c.st.approvedNodeRoutes p.id }

/-- `buildNetMapLocked`: the complete netmap of node `n`, `none` when its network is missing. -/
def buildNetMapLocked (c : Coordinator) (n : Node) : Option Proto.NetMap :=
  (c.st.networkByID n.networkID).map fun nw => {
    seq := c.seq n.networkID
    self := {
      nodeID := n.id.toNat
      hostname := n.hostname
      networkID := nw.name
      overlayIPs := overlayCIDRs n
      approvedRoutes := c.st.approvedNodeRoutes n.id }
    peers := ((c.st.nodesInNetwork n.networkID).filter (·.id ≠ n.id)).filterMap c.peerEntry
    stunServers := c.stunServers
    relays := c.relays
    dns := if c.dnsBase ≠ "" then some ⟨nw.name ++ "." ++ c.dnsBase⟩ else none
    filter := (compileFilterForNode c.st n).1
    filterEnabled := (compileFilterForNode c.st n).2 }

/-- One turn of the loop of `notifyNetworkLocked`: a push that does not block. A stalled client
loses the map it has no room for. -/
def pushNetMap (c : Coordinator) (n : Node) : Coordinator :=
  match c.subs n.id, c.buildNetMapLocked n with
  | some ch, some nm => { c with
      chans := c.chans.modify ch fun q => (q.trySend nm).2
      netmapPushes := if ((c.chans.get ch).trySend nm).1 then c.netmapPushes + 1
        else c.netmapPushes }
  | _, _ => c

/-- `notifyNetworkLocked`. -/
def notifyNetworkLocked (c : Coordinator) (networkID : ℤ) : Coordinator :=
  (c.st.nodesInNetwork networkID).foldl pushNetMap
    { c with seq := Function.update c.seq networkID (c.seq networkID + 1) }

section Frame

variable (c : Coordinator) (w : ℤ)

/-- A push touches the channels and the push counter only. -/
theorem pushNetMap_eq (n : Node) :
    ∃ chans pushes, c.pushNetMap n = { c with chans := chans, netmapPushes := pushes } := by
  rw [pushNetMap]
  split
  · exact ⟨_, _, rfl⟩
  · exact ⟨c.chans, c.netmapPushes, rfl⟩

theorem foldl_pushNetMap_eq (ns : List Node) :
    ∃ chans pushes, ns.foldl pushNetMap c = { c with chans := chans, netmapPushes := pushes } := by
  induction ns generalizing c with
  | nil => exact ⟨c.chans, c.netmapPushes, rfl⟩
  | cons n ns ih =>
    obtain ⟨chans, pushes, h⟩ := c.pushNetMap_eq n
    obtain ⟨chans', pushes', h'⟩ := ih (c.pushNetMap n)
    exact ⟨chans', pushes', by rw [List.foldl_cons, h', h]⟩

/-- A notification touches the sequence number of the network, the channels and the push counter
only. -/
theorem notifyNetworkLocked_eq : ∃ chans pushes, c.notifyNetworkLocked w = { c with
      seq := Function.update c.seq w (c.seq w + 1), chans := chans, netmapPushes := pushes } :=
  foldl_pushNetMap_eq { c with seq := Function.update c.seq w (c.seq w + 1) } _

@[simp] theorem st_notifyNetworkLocked : (c.notifyNetworkLocked w).st = c.st := by
  obtain ⟨_, _, h⟩ := c.notifyNetworkLocked_eq w
  rw [h]

@[simp] theorem ipams_notifyNetworkLocked : (c.notifyNetworkLocked w).ipams = c.ipams := by
  obtain ⟨_, _, h⟩ := c.notifyNetworkLocked_eq w
  rw [h]

@[simp] theorem subs_notifyNetworkLocked : (c.notifyNetworkLocked w).subs = c.subs := by
  obtain ⟨_, _, h⟩ := c.notifyNetworkLocked_eq w
  rw [h]

@[simp] theorem seq_notifyNetworkLocked :
    (c.notifyNetworkLocked w).seq = Function.update c.seq w (c.seq w + 1) := by
  obtain ⟨_, _, h⟩ := c.notifyNetworkLocked_eq w
  rw [h]

end Frame

/-- `ACLChanged`. -/
def aclChanged (c : Coordinator) (networkID : ℤ) : Coordinator := c.notifyNetworkLocked networkID

/-! ### Endpoints and routes -/

/-- Why `UpdateEndpoints` fails. -/
inductive EndpointsError where
  | notFound
  | badEndpoint (endpoint : String)
  deriving DecidableEq

/-- The text of an error, `parseError` being that of the address parser. -/
def EndpointsError.message (quote parseError : String → String) : EndpointsError → String
  | .notFound => "store: not found"
  | .badEndpoint e => s!"bad endpoint {quote e}: {parseError e}"

/-- `UpdateEndpoints`. -/
def updateEndpoints (c : Coordinator) (mkey : MachinePublic) (endpoints : List String) :
    Except EndpointsError Unit × Coordinator :=
  match c.st.nodeByMachineKey mkey.string with
  | none => (.error .notFound, c)
  | some n =>
    match endpoints.find? fun e => (parseAddrPort e).isNone with
    | some e => (.error (.badEndpoint e), c)
    | none =>
      (.ok (), ({ c with st := c.st.updateNodeEndpoints n.id endpoints }).notifyNetworkLocked
        n.networkID)

/-- `NormalizeRoute`: the prefix with its host bits cleared. -/
def normalizeRoute (route : String) : Option String :=
  (parsePrefix (String.ofList (trimSpace route.toList))).map (·.masked.string)

/-- Why `SetRouteApproved` fails. -/
inductive RouteError where
  | notFound
  | badRoute (route : String)
  deriving DecidableEq

/-- The text of an error, `parseError` being that of the prefix parser. -/
def RouteError.message (parseError : String → String) : RouteError → String
  | .notFound => "store: not found"
  | .badRoute r => parseError r

/-- `SetRouteApproved`. -/
def setRouteApproved (c : Coordinator) (nodeID : ℤ) (route : String) (approved : Bool) :
    Except RouteError Unit × Coordinator :=
  match c.st.nodeByID nodeID with
  | none => (.error .notFound, c)
  | some n =>
    match normalizeRoute route with
    | none => (.error (.badRoute route), c)
    | some norm =>
      match c.st.setRouteApproved nodeID norm approved with
      | none => (.error .notFound, c)
      | some st => (.ok (), ({ c with st := st }).notifyNetworkLocked n.networkID)

/-! ### Streams -/

/-- Close the channel a map holds for a node. -/
def closeOld {α : Type*} (chans : Heap α) (cur : Option ℕ) : Heap α :=
  match cur with
  | none => chans
  | some old => chans.modify old Chan.close

/-- `Subscribe` up to its final notification. -/
def openStream (c : Coordinator) (now : ℤ) (n : Node) : Coordinator :=
  let c₁ : Coordinator := { c with
    st := c.st.touchNode n.id now
    subs := Function.update c.subs n.id (some c.chans.next)
    online := Function.update c.online n.id true }
  -- The channel is primed with the current map, before the sequence number moves on.
  let ch := match c₁.buildNetMapLocked n with
    | some nm => (Chan.make 8).send nm
    | none => Chan.make 8
  { c₁ with chans := (closeOld c.chans (c.subs n.id)).alloc ch }

/-- `Subscribe`: the node record and the number of its new channel. One stream per node: a new
stream closes the old one. -/
def subscribe (c : Coordinator) (now : ℤ) (mkey : MachinePublic) :
    Option (Node × ℕ) × Coordinator :=
  match c.st.nodeByMachineKey mkey.string with
  | none => (none, c)
  | some n => (some (n, c.chans.next), (c.openStream now n).notifyNetworkLocked n.networkID)

/-- The closure `Subscribe` returns, for the node and the channel it captured. -/
def unsubscribe (c : Coordinator) (now : ℤ) (n : Node) (ch : ℕ) : Coordinator :=
  if c.subs n.id = some ch then
    ({ c with
      subs := Function.update c.subs n.id none
      online := Function.update c.online n.id false
      st := c.st.touchNode n.id now }).notifyNetworkLocked n.networkID
  else c

/-- `DeleteNode`, whose error is `ErrNotFound`. The allocator may be created here, after the row is
gone. -/
def deleteNode (c : Coordinator) (id : ℤ) : Bool × Coordinator :=
  match c.st.nodeByID id with
  | none => (false, c)
  | some n =>
    match c.st.deleteNode id with
    | none => (false, c)
    | some st =>
      let c₁ : Coordinator := { c with
        st := st
        chans := closeOld c.chans (c.subs id)
        subs := Function.update c.subs id none
        sigChans := closeOld c.sigChans (c.sigSubs id)
        sigSubs := Function.update c.sigSubs id none
        online := Function.update c.online id false }
      let c₂ : Coordinator := match c₁.st.networkByID n.networkID with
        | none => c₁
        | some nw => match c₁.allocatorFor nw with
          | .error _ => c₁
          | .ok (a, c₂) => { c₂ with
              ipams := Function.update c₂.ipams nw.id (some (a.release n.ipv4)) }
      (true, c₂.notifyNetworkLocked n.networkID)

/-- **What a call of `UpdateEndpoints` can do**: nothing, or new endpoints for the node and a
notification. -/
theorem updateEndpoints_cases (c : Coordinator) (mkey : MachinePublic) (endpoints : List String) :
    (c.updateEndpoints mkey endpoints).2 = c ∨
      ∃ n, c.st.nodeByMachineKey mkey.string = some n ∧
        (c.updateEndpoints mkey endpoints).2 =
          ({ c with st := c.st.updateNodeEndpoints n.id endpoints }).notifyNetworkLocked
            n.networkID := by
  rw [updateEndpoints]
  split
  · exact .inl rfl
  · next n hn =>
    split
    · exact .inl rfl
    · exact .inr ⟨n, hn, rfl⟩

/-- **What a call of `SetRouteApproved` can do**: nothing, or the change of the table and a
notification. -/
theorem setRouteApproved_cases (c : Coordinator) (nodeID : ℤ) (route : String) (approved : Bool) :
    (c.setRouteApproved nodeID route approved).2 = c ∨
      ∃ n norm st, c.st.nodeByID nodeID = some n ∧
        c.st.setRouteApproved nodeID norm approved = some st ∧
        (c.setRouteApproved nodeID route approved).2 =
          ({ c with st := st }).notifyNetworkLocked n.networkID := by
  rw [setRouteApproved]
  split
  · exact .inl rfl
  · next n hn =>
    split
    · exact .inl rfl
    · next norm _ =>
      split
      · exact .inl rfl
      · next st hst => exact .inr ⟨n, norm, st, hn, hst, rfl⟩

/-- **What a call of `DeleteNode` can do**: nothing if there is no such node, and otherwise the row
goes, its streams are closed and its address is released. -/
theorem deleteNode_spec (c : Coordinator) (id : ℤ) :
    c.st.nodeByID id = none ∧ c.deleteNode id = (false, c) ∨
      ∃ n st nw ipams, c.st.nodeByID id = some n ∧ c.st.deleteNode id = some st ∧
        st.networkByID n.networkID = some nw ∧
        (c.ipams nw.id = none ∧ ipams = c.ipams ∨
          ∃ a, ({ c with st := st } : Coordinator).Allocates nw a ∧
            ipams = Function.update c.ipams nw.id (some (a.release n.ipv4))) ∧
        c.deleteNode id = (true, ({ c with
          st := st
          ipams := ipams
          chans := closeOld c.chans (c.subs id)
          subs := Function.update c.subs id none
          sigChans := closeOld c.sigChans (c.sigSubs id)
          sigSubs := Function.update c.sigSubs id none
          online := Function.update c.online id false }).notifyNetworkLocked n.networkID) := by
  rw [deleteNode]
  cases hn : c.st.nodeByID id with
  | none => exact .inl ⟨rfl, rfl⟩
  | some n =>
    obtain ⟨st, hst⟩ := Store.exists_deleteNode hn
    obtain ⟨nw, hnw, -⟩ := Store.exists_networkByID (Store.nodeByID_eq_some_iff.mp hn).1
    have hnw' : st.networkByID n.networkID = some nw := by
      rw [Store.networkByID, (Store.deleteNode_spec hst).2.1]
      exact hnw
    refine .inr ?_
    simp only [hst, hnw']
    split
    · next e he =>
      exact ⟨n, st, nw, c.ipams, rfl, rfl, hnw', .inl ⟨(allocatorFor_error_iff.mp he).1, rfl⟩, rfl⟩
    · next a c₂ ha =>
      obtain ⟨rfl, halloc⟩ := allocatorFor_ok ha
      refine ⟨n, st, nw, _, rfl, rfl, hnw', .inr ⟨a, halloc, rfl⟩, ?_⟩
      simp only [Function.update_idem]

/-! ### Signals -/

/-- `signalSubscribe`. -/
def signalSubscribe (c : Coordinator) (mkey : MachinePublic) : Option (Node × ℕ) × Coordinator :=
  match c.st.nodeByMachineKey mkey.string with
  | none => (none, c)
  | some n => (some (n, c.sigChans.next), { c with
      sigChans := (closeOld c.sigChans (c.sigSubs n.id)).alloc (.make 32)
      sigSubs := Function.update c.sigSubs n.id (some c.sigChans.next) })

/-- The closure `signalSubscribe` returns. -/
def signalUnsubscribe (c : Coordinator) (n : Node) (ch : ℕ) : Coordinator :=
  if c.sigSubs n.id = some ch then { c with sigSubs := Function.update c.sigSubs n.id none } else c

/-- `routeSignal`. The origin is stamped by the server. -/
def routeSignal (c : Coordinator) (sender : Node) (env : SignalEnvelope) : Coordinator :=
  match c.st.nodeByID env.toNodeID with
  | none => c
  | some dst =>
    if dst.networkID ≠ sender.networkID then c
    else match c.sigSubs dst.id with
      | none => c
      | some ch => { c with sigChans := c.sigChans.modify ch fun q => (q.trySend {
          machineKey := []
          toNodeID := env.toNodeID
          fromNodeID := sender.id.toNat
          kind := env.kind
          payload := env.payload
          session := env.session }).2 }

end Coordinator

end OverMesh
