import OverMesh.Daemon.Peers
import OverMesh.Internal.Slots

/-!
# The connection manager

`ConnMgr` of `internal/magicsock` negotiates a direct path with every peer. A negotiation is a call
of `negotiate` on a goroutine of its own: it makes an ICE agent, exchanges credentials through the
control plane, and waits in `Dial` or `Accept`. Paths are reported to the daemon from four places:
the manager itself, the two callbacks of the agent, and the end of the call.

Every call of `negotiate` has an entry of its own in `negs`, with its agent and the channel it waits
for its answer on, at the position it keeps. A peer's newest session is thus the last entry for it.
What a call does between two accesses to something shared is one step. The clock, what the ICE
library returns and which of its events fire are inputs.

`SetPeers`, `Restart` and `Close` hold the lock while they go through the table, but reports do not
take it, so that each turn of their loops is a step of its own here.

The credentials and candidates that are passed to the library, the round trip times it is asked for,
and the context with which `Dial` is cancelled have no place here: `Dial` may return an error at any
time anyway.

## Main definitions

* `Negotiation`, `PeerConn`, `ConnMgr`
* `ConnMgr.work` — one step of `negotiate` or `runInitiator`
* `MagicOp`, `ConnMgr.step`
-/

namespace OverMesh

open Netip GoText

namespace Magicsock

/-! ### Agents -/

/-- `ice.ConnectionState`. -/
inductive IceState where
  | new
  | checking
  | connected
  | completed
  | failed
  | disconnected
  | closed
  deriving DecidableEq

/-- What the callbacks of an agent are called with. Of a selected pair that is the remote address.
-/
inductive AgentEvent where
  | selectedPair (address : String) (port : ℕ)
  | stateChange (s : IceState)

/-- The endpoint of a remote candidate. -/
def remoteEndpoint (address : String) (port : ℕ) : Option (Addr × ℕ) :=
  parseAddrPort (address ++ ":" ++ String.ofList (decString port))

/-- What the callback reports, if anything. -/
def AgentEvent.path : AgentEvent → Option (PathState × Option (Addr × ℕ))
  | .selectedPair address port => (remoteEndpoint address port).map fun ap => (.direct, some ap)
  | .stateChange s => if s = .failed ∨ s = .disconnected then some (.none, none) else none

/-- An agent. Events fire while it is open and are handled some time later. -/
structure Agent where
  /-- It was put into the table. -/
  attached : Bool
  /-- The callbacks are set. -/
  callbacks : Bool
  closed : Bool
  queue : List AgentEvent

/-! ### Negotiations -/

/-- What comes next in a call of `negotiate`. -/
inductive Stage where
  | start
  /-- Waiting for the socket. -/
  | bind
  | newAgent
  | attach
  | credentials
  /-- Before `SendOffer` or `SendAnswer`. -/
  | signal
  | gather
  /-- Waiting for the answer. -/
  | await
  /-- In `Dial` or `Accept`. -/
  | dial
  /-- After it returned without an error. -/
  | selected
  /-- The call has failed, and `runInitiator` sleeps before the next one. -/
  | backoff
  /-- The call, and for an initiator `runInitiator`, has returned. -/
  | returned
  deriving DecidableEq

/-- A call of `negotiate`. `answered` says whether there is an answer in its channel. -/
structure Negotiation where
  peer : ℕ
  session : ℕ
  initiator : Bool
  stage : Stage
  agent : Agent
  answered : Bool

namespace Negotiation

/-- A call that is about to begin. -/
def fresh (peer session : ℕ) (initiator : Bool) : Negotiation :=
  ⟨peer, session, initiator, .start, ⟨false, false, false, []⟩, false⟩

def closeAgent (n : Negotiation) : Negotiation :=
  { n with agent := { n.agent with closed := true } }

/-- An event fires. -/
def enqueue (n : Negotiation) (e : AgentEvent) : Negotiation :=
  { n with agent := { n.agent with queue := n.agent.queue ++ [e] } }

/-- The `k`-th event is handled. -/
def dequeue (n : Negotiation) (k : ℕ) : Negotiation :=
  { n with agent := { n.agent with queue := n.agent.queue.eraseIdx k } }

/-- The call returns `false, true`, upon which `runInitiator` sleeps. -/
def giveUp (n : Negotiation) : Negotiation :=
  { n with stage := if n.initiator then .backoff else .returned }

end Negotiation

/-- `peerConn`. Its agent is that of a negotiation. -/
structure PeerConn where
  session : ℕ
  agent : Option ℕ
  /-- The first negotiation there was for it. -/
  first : ℕ
  deriving DecidableEq

/-- A path update that was reported, with the negotiation it comes from, and whether there was a
newer one for the peer by then. What the manager itself reports comes from the next negotiation. -/
structure Report where
  update : PathUpdate
  source : ℕ
  late : Bool

/-- `ConnMgr`, the negotiations it has started, the answers that `HandleAnswer` is about to put into
the channel of one, and what was reported, the latest first. -/
structure ConnMgr where
  selfNode : ℕ
  peers : ℕ → Option PeerConn
  closed : Bool
  answerChans : ℕ × ℕ → Option ℕ
  negs : List Negotiation
  answers : List ℕ
  reports : List Report

namespace ConnMgr

/-- `NewConnMgr`. -/
def new (selfNode : ℕ) : ConnMgr := ⟨selfNode, fun _ => none, false, fun _ => none, [], [], []⟩

/-- There is a newer negotiation for the peer than the `i`-th one. -/
def Superseded (m : ConnMgr) (i p : ℕ) : Prop := p ∈ (m.negs.map (·.peer)).drop (i + 1)

instance (m : ConnMgr) (i p : ℕ) : Decidable (m.Superseded i p) :=
  inferInstanceAs (Decidable (_ ∈ _))

/-- `onPath`, called by the `i`-th negotiation. -/
def report (m : ConnMgr) (i p : ℕ) (path : PathState × Option (Addr × ℕ)) : ConnMgr :=
  { m with reports := ⟨⟨p, path.1, path.2⟩, i, m.Superseded i p⟩ :: m.reports }

/-- The path of a peer that was reported last. -/
def lastReport (m : ConnMgr) (p : ℕ) : Option Report := m.reports.find? (·.update.nodeID = p)

theorem lastReport_report_self (m : ConnMgr) (i p : ℕ) (path : PathState × Option (Addr × ℕ)) :
    (m.report i p path).lastReport p = some ⟨⟨p, path.1, path.2⟩, i, m.Superseded i p⟩ := by
  simp [lastReport, report]

theorem lastReport_report_of_ne (m : ConnMgr) (i : ℕ) {p q : ℕ} (h : q ≠ p)
    (path : PathState × Option (Addr × ℕ)) : (m.report i p path).lastReport q = m.lastReport q := by
  simp [lastReport, report, Ne.symm h]

def setNeg (m : ConnMgr) (i : ℕ) (n : Negotiation) : ConnMgr := { m with negs := m.negs.set i n }

/-- What is done to the `i`-th call, if there is one. -/
def onNeg (m : ConnMgr) (i : ℕ) (f : Negotiation → ConnMgr) : ConnMgr := (m.negs[i]?).elim m f

/-! ### The manager -/

/-- `teardownLocked`. -/
def teardownLocked (m : ConnMgr) (pc : PeerConn) : ConnMgr :=
  match pc.agent with
  | none => m
  | some i => m.onNeg i fun n => m.setNeg i n.closeAgent

/-- Nothing changes but that an agent is closed. -/
theorem teardownLocked_spec (m : ConnMgr) (pc : PeerConn) :
    ∃ l, m.teardownLocked pc = { m with negs := l } ∧ l.length = m.negs.length ∧
      ∀ (j : ℕ) (n : Negotiation), l[j]? = some n → ∃ n₀, m.negs[j]? = some n₀ ∧
        (pc.agent = some j ∧ n = n₀.closeAgent ∨ pc.agent ≠ some j ∧ n = n₀) := by
  rw [teardownLocked]
  cases hagent : pc.agent with
  | none => exact ⟨m.negs, rfl, rfl, fun j n hj => ⟨n, hj, .inr ⟨by simp, rfl⟩⟩⟩
  | some i =>
    simp only [onNeg]
    cases hi : m.negs[i]? with
    | none =>
      refine ⟨m.negs, rfl, rfl, fun j n hj => ⟨n, hj, .inr ⟨?_, rfl⟩⟩⟩
      rintro ⟨⟩
      rw [hi] at hj
      cases hj
    | some n₀ =>
      refine ⟨m.negs.set i n₀.closeAgent, rfl, List.length_set, ?_⟩
      intro j n hj
      rcases Slots.getElem?_set_cases hj with ⟨rfl, rfl⟩ | ⟨hne, hj⟩
      · exact ⟨n₀, hi, .inl ⟨rfl, rfl⟩⟩
      · exact ⟨n, hj, .inr ⟨fun h => hne (Option.some.inj h).symm, rfl⟩⟩

/-- Take a peer out of the table. -/
def remove (m : ConnMgr) (id : ℕ) : ConnMgr := { m with peers := Function.update m.peers id none }

/-- A new session: a new entry in the table, a report, and a call of `negotiate`. -/
def install (m : ConnMgr) (id session : ℕ) (initiator : Bool) : ConnMgr :=
  { m with
    peers := Function.update m.peers id (some ⟨session, none, m.negs.length⟩)
    negs := m.negs ++ [Negotiation.fresh id session initiator] }.report m.negs.length id
      (.connecting, none)

/-- `startInitiatorLocked`. -/
def startInitiatorLocked (m : ConnMgr) (id now : ℕ) : ConnMgr := m.install id now true

/-- One turn of the first loop of `SetPeers`, for a peer that is not online. -/
def setPeersGone (m : ConnMgr) (id : ℕ) : ConnMgr :=
  if m.closed then m
  else match m.peers id with
    | none => m
    | some pc => ((m.teardownLocked pc).remove id).report m.negs.length id (.none, none)

/-- One turn of the second loop of `SetPeers`, for a peer that is online. -/
def setPeersNew (m : ConnMgr) (id now : ℕ) : ConnMgr :=
  if m.closed ∨ (m.peers id).isSome ∨ m.selfNode ≥ id then m else m.startInitiatorLocked id now

/-- One turn of the loop of `Restart`. -/
def restart (m : ConnMgr) (id now : ℕ) : ConnMgr :=
  if m.closed then m
  else match m.peers id with
    | none => m
    | some pc =>
      let m := (m.teardownLocked pc).remove id
      if m.selfNode < id then m.startInitiatorLocked id now
      else m.report m.negs.length id (.connecting, none)

/-- The beginning of `Close`. -/
def close (m : ConnMgr) : ConnMgr := { m with closed := true }

/-- One turn of the loop of `Close`. -/
def closePeer (m : ConnMgr) (id : ℕ) : ConnMgr :=
  if m.closed then
    match m.peers id with
    | none => m
    | some pc => (m.teardownLocked pc).remove id
  else m

/-- `HandleOffer`. -/
def handleOffer (m : ConnMgr) (id session : ℕ) : ConnMgr :=
  if m.closed then m
  else match m.peers id with
    | none => m.install id session false
    | some pc =>
      if pc.session ≥ session then m
      else ((m.teardownLocked pc).remove id).install id session false

/-- `HandleAnswer`, up to the send. -/
def handleAnswer (m : ConnMgr) (id session : ℕ) : ConnMgr :=
  match m.peers id with
  | none => m
  | some pc =>
    if pc.session = session then
      { m with answers := m.answers ++ (m.answerChans (id, session)).toList }
    else m

/-- The send of `HandleAnswer`. There is room for one answer in the channel. -/
def answer (m : ConnMgr) (k : ℕ) : ConnMgr :=
  match m.answers[k]? with
  | none => m
  | some i =>
    { m.onNeg i fun n => m.setNeg i { n with answered := true } with
      answers := m.answers.eraseIdx k }

/-! ### The negotiations -/

/-- What a step of a call finds: whether the library, the signaler or the wait succeeds, the address
of the selected pair, and the time. -/
structure Outcome where
  ok : Bool
  pair : Option (String × ℕ)
  now : ℕ

/-- The deferred deletion of the answer channel. -/
def dropChan (m : ConnMgr) (n : Negotiation) : ConnMgr :=
  if n.initiator then
    { m with answerChans := Function.update m.answerChans (n.peer, n.session) none }
  else m

theorem negs_dropChan (m : ConnMgr) (n : Negotiation) : (m.dropChan n).negs = m.negs := by
  rw [dropChan]
  split_ifs <;> rfl

/-- An error after the agent was attached: the agent is closed. -/
def fail (m : ConnMgr) (i : ℕ) (n : Negotiation) : ConnMgr := m.setNeg i n.closeAgent.giveUp

/-- The call goes on to `stage`. -/
def goto (m : ConnMgr) (i : ℕ) (n : Negotiation) (stage : Stage) : ConnMgr :=
  m.setNeg i { n with stage := stage }

/-- Attach the agent, if the session is still that of the peer. -/
def attach (m : ConnMgr) (i : ℕ) (n : Negotiation) : ConnMgr :=
  match (m.peers n.peer).filter (·.session = n.session) with
  | none => m.setNeg i { n.closeAgent with stage := .returned }
  | some pc =>
    { m with peers := Function.update m.peers n.peer (some { pc with agent := some i }) }.setNeg i
      { n with stage := .credentials, agent := { n.agent with attached := true } }

/-- The end of `runInitiator`'s sleep: a new session, if the old one is still that of the peer. -/
def retry (m : ConnMgr) (i : ℕ) (n : Negotiation) (now : ℕ) : ConnMgr :=
  match (m.peers n.peer).filter fun pc => pc.session = n.session ∧ ¬ m.closed with
  | none => m.goto i n .returned
  | some pc =>
    { m with
      peers := Function.update m.peers n.peer (some { pc with session := now })
      negs := m.negs.set i { n with stage := .returned } ++ [Negotiation.fresh n.peer now true] }

/-- Make the answer channel. -/
def makeChan (m : ConnMgr) (i : ℕ) (n : Negotiation) : ConnMgr :=
  if n.initiator then
    { m with answerChans := Function.update m.answerChans (n.peer, n.session) (some i) }
  else m

theorem negs_makeChan (m : ConnMgr) (i : ℕ) (n : Negotiation) : (m.makeChan i n).negs = m.negs := by
  rw [makeChan]
  split_ifs <;> rfl

/-- One step of the `i`-th call. -/
def work (m : ConnMgr) (i : ℕ) (n : Negotiation) (out : Outcome) : ConnMgr :=
  match n.stage with
  | .start => m.goto i n (if m.closed then .returned else .bind)
  | .bind => if out.ok then m.goto i n .newAgent else m.setNeg i n.giveUp
  | .newAgent => if out.ok then m.goto i n .attach else m.setNeg i n.giveUp
  | .attach => m.attach i n
  | .credentials =>
    if out.ok then
      m.setNeg i { n with stage := .signal, agent := { n.agent with callbacks := true } }
    else m.fail i n
  | .signal =>
    if out.ok then (m.makeChan i n).goto i n .gather else ((m.makeChan i n).dropChan n).fail i n
  | .gather =>
    if out.ok then m.goto i n (if n.initiator then .await else .dial) else (m.dropChan n).fail i n
  | .await =>
    if out.ok then if n.answered then m.goto i n .dial else m
    else (m.dropChan n).fail i n
  | .dial =>
    if out.ok then m.goto i n .selected
    else ((m.report i n.peer (.none, none)).dropChan n).fail i n
  | .selected =>
    match out.pair.bind fun p => remoteEndpoint p.1 p.2 with
    | some ap => ((m.report i n.peer (.direct, some ap)).dropChan n).goto i n .returned
    | none => (m.dropChan n).goto i n .returned
  | .backoff => m.retry i n out.now
  | .returned => m

/-- An event fires, if the agent is open and has its callbacks. -/
def raise (m : ConnMgr) (i : ℕ) (n : Negotiation) (e : AgentEvent) : ConnMgr :=
  if n.agent.callbacks ∧ ¬ n.agent.closed then m.setNeg i (n.enqueue e) else m

/-- A callback is called. -/
def callback (m : ConnMgr) (i : ℕ) (n : Negotiation) (k : ℕ) : ConnMgr :=
  match n.agent.queue[k]? with
  | none => m
  | some e =>
    match e.path with
    | none => m.setNeg i (n.dequeue k)
    | some path => (m.setNeg i (n.dequeue k)).report i n.peer path

end ConnMgr

/-! ### Steps -/

open ConnMgr in
/-- The steps. -/
inductive MagicOp where
  | setPeersGone (id : ℕ)
  | setPeersNew (id now : ℕ)
  | restart (id now : ℕ)
  | close
  | closePeer (id : ℕ)
  | handleOffer (id session : ℕ)
  | handleAnswer (id session : ℕ)
  /-- The `k`-th answer is sent to its channel. -/
  | answer (k : ℕ)
  /-- The `i`-th call takes a step. -/
  | work (i : ℕ) (out : Outcome)
  /-- An event of the agent of the `i`-th call fires. -/
  | raise (i : ℕ) (e : AgentEvent)
  /-- The callback for the `k`-th of its events that have fired is called. -/
  | callback (i k : ℕ)

namespace ConnMgr

/-- One step. -/
def step (m : ConnMgr) : MagicOp → ConnMgr
  | .setPeersGone id => m.setPeersGone id
  | .setPeersNew id now => m.setPeersNew id now
  | .restart id now => m.restart id now
  | .close => m.close
  | .closePeer id => m.closePeer id
  | .handleOffer id session => m.handleOffer id session
  | .handleAnswer id session => m.handleAnswer id session
  | .answer k => m.answer k
  | .work i out => m.onNeg i fun n => m.work i n out
  | .raise i e => m.onNeg i fun n => m.raise i n e
  | .callback i k => m.onNeg i fun n => m.callback i n k

end ConnMgr

/-! ### Sample steps -/

open ConnMgr

/-- All goes well, and the selected pair is that of `192.0.2.9:41641`. -/
def success (now : ℕ) : Outcome := ⟨true, some ("192.0.2.9", 41641), now⟩

def failure (now : ℕ) : Outcome := ⟨false, none, now⟩

/-- The `i`-th call takes `n` steps. -/
def works (i n : ℕ) : List MagicOp := List.replicate n (.work i (success 0))

/-- The `i`-th call, which node 1 makes to node 2 as the initiator, up to `Dial`. -/
def upToDial (i session : ℕ) : List MagicOp :=
  works i 7 ++ [.handleAnswer 2 session, .answer 0] ++ works i 1

end Magicsock

end OverMesh
