import OverMesh.Coord.Register
import OverMesh.Store.Acl
import OverMesh.Internal.Runs

/-!
# Runs of the control plane

The control plane as a state machine: the coordinator, the closures its streams hold, and the rule
lists that were written but not announced yet. A step is one critical section of the coordinator's
lock, one statement of a handler that runs outside the lock, or one receive by the reader of a
stream; a run is any sequence of them. A restart keeps the database and nothing else.

Saving access rules is two steps. The handler writes them without the lock and calls `ACLChanged`
afterwards, so anything may happen in between.

## Main definitions

* `System`, `Op`, `System.step`
* `Quiet` — the steps that leave addresses, keys and owners of the nodes alone

## Main results

* `step_cases` — what a step can do to nodes, networks and allocators
-/

namespace OverMesh

open Netip Key Channel

/-- The control plane and what its callers hold. -/
structure System where
  c : Coordinator
  /-- The node and the channel each `Subscribe` captured for its unsubscribe closure. -/
  streams : List (Node × ℕ)
  /-- The same for signal streams. -/
  sigStreams : List (Node × ℕ)
  /-- Networks whose rules were written and whose `ACLChanged` call is still to come. -/
  unannounced : List ℤ

/-- The steps. -/
inductive Op where
  | register (now : ℤ) (req : RegisterRequest)
  | updateEndpoints (mkey : MachinePublic) (endpoints : List String)
  | subscribe (now : ℤ) (mkey : MachinePublic)
  /-- Call the closure of the `i`-th stream. -/
  | unsubscribe (now : ℤ) (i : ℕ)
  /-- The reader of a netmap channel takes one netmap out. -/
  | recv (ch : ℕ)
  | deleteNode (id : ℤ)
  | setRouteApproved (nodeID : ℤ) (route : String) (approved : Bool)
  | setACL (nw : ℤ) (rules : List ACLRule)
  | aclChanged (nw : ℤ)
  | signalSubscribe (mkey : MachinePublic)
  | signalUnsubscribe (i : ℕ)
  /-- An envelope comes in on the `i`-th signal stream. -/
  | routeSignal (i : ℕ) (env : SignalEnvelope)
  | recvSignal (ch : ℕ)
  | ensureNetwork (name : String) (v4 v6 : Prefix)
  | newSetupKey (now : ℤ) (raw : List UInt8) (nw : ℤ) (reusable : Bool) (expiresAt : Option ℤ)
    (ownerUserID : ℤ)
  | revokeSetupKey (id : ℤ)
  | restart

namespace System

/-- A server that was just started on a database. -/
def start (st : Store) (stunServers relays : List String) (dnsBase : String) : System :=
  ⟨Coordinator.new st stunServers relays dnsBase, [], [], []⟩

/-- Change the database. -/
def withStore (s : System) (st : Store) : System := { s with c := { s.c with st := st } }

/-- One step. -/
def step (s : System) : Op → System
  | .register now req => { s with c := (s.c.register now req).2 }
  | .updateEndpoints mkey endpoints => { s with c := (s.c.updateEndpoints mkey endpoints).2 }
  | .subscribe now mkey =>
    { s with
      c := (s.c.subscribe now mkey).2
      streams := s.streams ++ (s.c.subscribe now mkey).1.toList }
  | .unsubscribe now i =>
    match s.streams[i]? with
    | none => s
    | some (n, ch) => { s with c := s.c.unsubscribe now n ch }
  | .recv ch => { s with c := { s.c with chans := s.c.chans.modify ch Chan.recv } }
  | .deleteNode id => { s with c := (s.c.deleteNode id).2 }
  | .setRouteApproved nodeID route approved =>
    { s with c := (s.c.setRouteApproved nodeID route approved).2 }
  | .setACL nw rules =>
    match s.c.st.setACL nw rules with
    | .error _ => s
    | .ok st => { s.withStore st with unannounced := nw :: s.unannounced }
  | .aclChanged nw =>
    { s with c := s.c.aclChanged nw, unannounced := s.unannounced.erase nw }
  | .signalSubscribe mkey =>
    { s with
      c := (s.c.signalSubscribe mkey).2
      sigStreams := s.sigStreams ++ (s.c.signalSubscribe mkey).1.toList }
  | .signalUnsubscribe i =>
    match s.sigStreams[i]? with
    | none => s
    | some (n, ch) => { s with c := s.c.signalUnsubscribe n ch }
  | .routeSignal i env =>
    match s.sigStreams[i]? with
    | none => s
    | some (n, _) => { s with c := s.c.routeSignal n env }
  | .recvSignal ch => { s with c := { s.c with sigChans := s.c.sigChans.modify ch Chan.recv } }
  | .ensureNetwork name v4 v6 => s.withStore (s.c.st.ensureNetwork name v4 v6)
  | .newSetupKey now raw nw reusable expiresAt ownerUserID =>
    s.withStore ((s.c.st.newSetupKey now raw nw reusable expiresAt ownerUserID).getD s.c.st)
  | .revokeSetupKey id => s.withStore ((s.c.st.revokeSetupKey id).getD s.c.st)
  | .restart => start s.c.st s.c.stunServers s.c.relays s.c.dnsBase

end System

/-! ### What a step can do -/

/-- A node record without what other nodes never see of its comings and goings. -/
def Node.stable (n : Node) : Node := { n with endpoints := [], lastSeen := 0 }

/-- Rows that differ in no more than that. -/
theorem exists_stable_eq {rows rows' : List Node}
    (h : rows'.map Node.stable = rows.map Node.stable) {n' : Node} (hn' : n' ∈ rows') :
    ∃ n ∈ rows, n.stable = n'.stable := by
  have hmem : n'.stable ∈ rows.map Node.stable := by
    rw [← h]
    exact List.mem_map_of_mem hn'
  exact List.mem_map.mp hmem

/-- A step that leaves networks, allocators and the nodes alone, except for the endpoints they
report and the time they were last seen, and that charges no setup key. -/
structure Quiet (c c' : Coordinator) : Prop where
  nodes : c'.st.nodes.rows.map Node.stable = c.st.nodes.rows.map Node.stable
  seq : c'.st.nodes.seq = c.st.nodes.seq
  networks : c'.st.networks = c.st.networks
  ipams : c'.ipams = c.ipams
  keys : c.st.Uncharged c'.st

namespace Quiet

variable {c c' : Coordinator}

theorem refl (c : Coordinator) : Quiet c c := ⟨rfl, rfl, rfl, rfl, .of_eq rfl⟩

/-- The rows of a quiet step correspond. -/
theorem exists_row (h : Quiet c c') {n' : Node} (hn' : n' ∈ c'.st.nodes.rows) :
    ∃ n ∈ c.st.nodes.rows, n.stable = n'.stable :=
  exists_stable_eq h.nodes hn'

/-- A notification is quiet. -/
theorem notify (h : Quiet c c') (w : ℤ) : Quiet c (c'.notifyNetworkLocked w) := by
  refine ⟨?_, ?_, ?_, ?_, ?_⟩
  · rw [Coordinator.st_notifyNetworkLocked]
    exact h.nodes
  · rw [Coordinator.st_notifyNetworkLocked]
    exact h.seq
  · rw [Coordinator.st_notifyNetworkLocked]
    exact h.networks
  · rw [Coordinator.ipams_notifyNetworkLocked]
    exact h.ipams
  · rw [Coordinator.st_notifyNetworkLocked]
    exact h.keys

/-- A store whose nodes and networks are the same makes a quiet step. -/
theorem of_store {st : Store} (hnodes : st.nodes = c.st.nodes)
    (hnetworks : st.networks = c.st.networks) (hkeys : c.st.Uncharged st) :
    Quiet c { c with st := st } :=
  ⟨by rw [hnodes], by rw [hnodes], hnetworks, rfl, hkeys⟩

end Quiet

theorem map_stable_updateNode {s : Store} {id : ℤ} {f : Node → Node} {hid hmk hnw}
    (hf : ∀ n, (f n).stable = n.stable) :
    (s.updateNode id f hid hmk hnw).nodes.rows.map Node.stable = s.nodes.rows.map Node.stable := by
  rw [Store.rows_nodes_updateNode, List.map_map]
  refine List.map_congr_left ?_
  intro n _
  simp only [Function.comp_apply]
  split
  · exact hf n
  · rfl

theorem map_stable_touchNode (s : Store) (id now : ℤ) :
    (s.touchNode id now).nodes.rows.map Node.stable = s.nodes.rows.map Node.stable := by
  rw [Store.touchNode]
  exact map_stable_updateNode fun _ => rfl

theorem map_stable_updateNodeEndpoints (s : Store) (id : ℤ) (endpoints : List String) :
    (s.updateNodeEndpoints id endpoints).nodes.rows.map Node.stable =
      s.nodes.rows.map Node.stable := by
  rw [Store.updateNodeEndpoints]
  exact map_stable_updateNode fun _ => rfl

section Quiet

variable (c : Coordinator)

theorem quiet_updateEndpoints (mkey : MachinePublic) (endpoints : List String) :
    Quiet c (c.updateEndpoints mkey endpoints).2 := by
  rcases c.updateEndpoints_cases mkey endpoints with heq | ⟨n, -, heq⟩
  · rw [heq]
    exact .refl c
  · rw [heq]
    apply Quiet.notify
    exact ⟨map_stable_updateNodeEndpoints _ _ _, rfl, rfl, rfl, .of_eq rfl⟩

theorem quiet_subscribe (now : ℤ) (mkey : MachinePublic) : Quiet c (c.subscribe now mkey).2 := by
  rw [Coordinator.subscribe]
  split
  · exact .refl c
  · apply Quiet.notify
    exact ⟨map_stable_touchNode _ _ _, rfl, rfl, rfl, .of_eq rfl⟩

theorem quiet_unsubscribe (now : ℤ) (n : Node) (ch : ℕ) : Quiet c (c.unsubscribe now n ch) := by
  rw [Coordinator.unsubscribe]
  split
  · apply Quiet.notify
    exact ⟨map_stable_touchNode _ _ _, rfl, rfl, rfl, .of_eq rfl⟩
  · exact .refl c

theorem quiet_setRouteApproved (nodeID : ℤ) (route : String) (approved : Bool) :
    Quiet c (c.setRouteApproved nodeID route approved).2 := by
  rcases c.setRouteApproved_cases nodeID route approved with heq | ⟨n, norm, st, -, hst, heq⟩
  · rw [heq]
    exact .refl c
  · obtain ⟨hnodes, hnetworks, hkeys, -⟩ := Store.setRouteApproved_spec hst
    rw [heq]
    exact Quiet.notify (.of_store hnodes hnetworks (.of_eq hkeys)) _

theorem quiet_newSetupKey (now : ℤ) (raw : List UInt8) (nw : ℤ) (reusable : Bool)
    (expiresAt : Option ℤ) (owner : ℤ) : Quiet c { c with
      st := (c.st.newSetupKey now raw nw reusable expiresAt owner).getD c.st } := by
  refine .of_store (Store.nodes_newSetupKey ..) ?_ (.newSetupKey ..)
  rw [Store.newSetupKey]
  split
  · split <;> rfl
  · rfl

theorem quiet_revokeSetupKey (id : ℤ) :
    Quiet c { c with st := (c.st.revokeSetupKey id).getD c.st } := by
  refine .of_store (Store.nodes_revokeSetupKey ..) ?_ (.revokeSetupKey ..)
  rw [Store.revokeSetupKey]
  split <;> rfl

end Quiet

/-- Only the signal streams differ. -/
def SignalsOnly (s s' : System) : Prop :=
  ∃ sigSubs sigChans sigStreams, s' = { s with
    c := { s.c with sigSubs := sigSubs, sigChans := sigChans }
    sigStreams := sigStreams }

section SignalsOnly

variable {s s' : System}

theorem SignalsOnly.quiet (h : SignalsOnly s s') : Quiet s.c s'.c := by
  obtain ⟨_, _, _, rfl⟩ := h
  exact ⟨rfl, rfl, rfl, rfl, .of_eq rfl⟩

theorem SignalsOnly.chans (h : SignalsOnly s s') : s'.c.chans = s.c.chans := by
  obtain ⟨_, _, _, rfl⟩ := h
  rfl

theorem signalsOnly_signalSubscribe (s : System) (mkey : MachinePublic) :
    SignalsOnly s (s.step (.signalSubscribe mkey)) := by
  simp only [System.step, Coordinator.signalSubscribe]
  split <;> exact ⟨_, _, _, rfl⟩

theorem signalsOnly_signalUnsubscribe (s : System) (i : ℕ) :
    SignalsOnly s (s.step (.signalUnsubscribe i)) := by
  simp only [System.step, Coordinator.signalUnsubscribe]
  split
  · exact ⟨_, _, _, rfl⟩
  · split <;> exact ⟨_, _, _, rfl⟩

theorem signalsOnly_routeSignal (s : System) (i : ℕ) (env : SignalEnvelope) :
    SignalsOnly s (s.step (.routeSignal i env)) := by
  simp only [System.step, Coordinator.routeSignal]
  split
  · exact ⟨_, _, _, rfl⟩
  · split
    · exact ⟨_, _, _, rfl⟩
    · split
      · exact ⟨_, _, _, rfl⟩
      · split <;> exact ⟨_, _, _, rfl⟩

theorem signalsOnly_recvSignal (s : System) (ch : ℕ) : SignalsOnly s (s.step (.recvSignal ch)) :=
  ⟨_, _, _, rfl⟩

end SignalsOnly

/-- **What a step can do** to nodes, networks and allocators. -/
theorem step_cases (s : System) (op : Op) : Quiet s.c (s.step op).c ∨
      (∃ now req, op = .register now req ∧ (s.step op).c = (s.c.register now req).2) ∨
      (∃ id, op = .deleteNode id ∧ (s.step op).c = (s.c.deleteNode id).2) ∨
      (∃ name v4 v6, op = .ensureNetwork name v4 v6 ∧
        (s.step op).c = { s.c with st := s.c.st.ensureNetwork name v4 v6 }) ∨
      (s.step op).c = Coordinator.new s.c.st s.c.stunServers s.c.relays s.c.dnsBase := by
  cases op with
  | register now req => exact .inr (.inl ⟨now, req, rfl, rfl⟩)
  | deleteNode id => exact .inr (.inr (.inl ⟨id, rfl, rfl⟩))
  | ensureNetwork name v4 v6 => exact .inr (.inr (.inr (.inl ⟨name, v4, v6, rfl, rfl⟩)))
  | restart => exact .inr (.inr (.inr (.inr rfl)))
  | updateEndpoints mkey endpoints => exact .inl (quiet_updateEndpoints s.c mkey endpoints)
  | subscribe now mkey => exact .inl (quiet_subscribe s.c now mkey)
  | unsubscribe now i =>
    refine .inl ?_
    simp only [System.step]
    split
    · exact .refl _
    · exact quiet_unsubscribe s.c now _ _
  | recv ch => exact .inl ⟨rfl, rfl, rfl, rfl, .of_eq rfl⟩
  | setRouteApproved nodeID route approved =>
    exact .inl (quiet_setRouteApproved s.c nodeID route approved)
  | setACL nw rules =>
    refine .inl ?_
    simp only [System.step]
    split
    · exact .refl _
    · next st hst =>
      obtain ⟨hnodes, hnetworks, hkeys, -⟩ := Store.nodes_setACL hst
      exact Quiet.of_store hnodes hnetworks (.of_eq hkeys)
  | aclChanged nw => exact .inl (Quiet.notify (.refl s.c) nw)
  | signalSubscribe mkey => exact .inl (signalsOnly_signalSubscribe s mkey).quiet
  | signalUnsubscribe i => exact .inl (signalsOnly_signalUnsubscribe s i).quiet
  | routeSignal i env => exact .inl (signalsOnly_routeSignal s i env).quiet
  | recvSignal ch => exact .inl (signalsOnly_recvSignal s ch).quiet
  | newSetupKey now raw nw reusable expiresAt owner =>
    exact .inl (quiet_newSetupKey s.c now raw nw reusable expiresAt owner)
  | revokeSetupKey id => exact .inl (quiet_revokeSetupKey s.c id)

end OverMesh
