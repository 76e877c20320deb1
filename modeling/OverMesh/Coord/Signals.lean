import OverMesh.Coord.Rows
import OverMesh.Coord.KeyUse
import OverMesh.Coord.Streams

/-!
# Who a signal comes from

A client that wants to signal opens a stream with its machine key. The server looks its node up once
and keeps the record: the goroutine that reads the stream stamps every envelope with the id in that
record, whatever the client has written there, and drops envelopes to other networks. Streams are
replaced and closed and nodes are deleted while it runs.

The id and the network of a node never change and an id is never given away twice, so the record
stays right about the node as long as the node exists. Nothing asks whether it does. A deletion
closes the channel the node is sent to, not the stream it sends on, and until the stream is torn
down its envelopes are still delivered, in the name of a node that is no more.

## Main definitions

* `Signalling` — the control plane, with the machine keys that opened the signal streams
* `Authentic` — what a step places in an inbox comes from whom it says
* `FromRegistered` — a step that delivers nothing in the name of a deleted node

## Main results

* `identity_step` — what no step changes about a node
* `authentic_step_iff`
* `authentic_iff` — **every delivery of a run is authentic if and only if none of its envelopes is
  delivered in the name of a deleted node**
-/

namespace OverMesh

open Key Channel Runs Coordinator OverMesh.System

/-- The control plane, with the machine key that opened each signal stream. -/
structure Signalling where
  sys : System
  openers : List MachinePublic

namespace Signalling

/-- A server that was just started on a database. -/
def start (st : Store) (stunServers relays : List String) (dnsBase : String) : Signalling :=
  ⟨System.start st stunServers relays dnsBase, []⟩

/-- One step. A stream that is opened is recorded under its machine key. -/
def step (t : Signalling) (op : Op) : Signalling where
  sys := t.sys.step op
  openers := match op with
    | .signalSubscribe mkey =>
      if (t.sys.c.signalSubscribe mkey).1.isSome then t.openers ++ [mkey] else t.openers
    | .restart => []
    | _ => t.openers

end Signalling

/-- What the server sends on for an envelope. -/
def SignalEnvelope.stamped (env : SignalEnvelope) (sender : Node) : SignalEnvelope where
  machineKey := []
  toNodeID := env.toNodeID
  fromNodeID := sender.id.toNat
  kind := env.kind
  payload := env.payload
  session := env.session

/-- The envelope is delivered: its destination is known, is in the network of the sender and has an
inbox with room. -/
structure Coordinator.Delivers (c : Coordinator) (sender : Node) (env : SignalEnvelope) (dst : Node)
    (ch : ℕ) : Prop where
  known : c.st.nodeByID env.toNodeID = some dst
  network : dst.networkID = sender.networkID
  inbox : c.sigSubs dst.id = some ch
  room : (c.sigChans.get ch).buf.length < (c.sigChans.get ch).cap

/-- The step places `out` in the inbox of node `d`. -/
def Placed (s : System) (op : Op) (d : ℤ) (out : SignalEnvelope) : Prop :=
  ∃ ch more, s.c.sigSubs d = some ch ∧
    ((s.step op).c.sigChans.get ch).accepted = (s.c.sigChans.get ch).accepted ++ more ∧ out ∈ more

/-- **What the step places in the inbox of a node is authentic**: it came in on a stream, its origin
is the node with the machine key that opened the stream, which is registered, and the two nodes are
in one network. -/
def Authentic (t : Signalling) (op : Op) : Prop :=
  ∀ d out, Placed t.sys op d out → ∃ i env key, op = .routeSignal i env ∧ t.openers[i]? = some key ∧
    ∃ n ∈ t.sys.c.st.nodes.rows, n.machineKey = key.string ∧ (out.fromNodeID : ℤ) = n.id ∧
      ∃ m ∈ t.sys.c.st.nodes.rows, m.id = d ∧ m.networkID = n.networkID

/-- An envelope is delivered only while the row of the node the stream was opened for is there. -/
def FromRegistered (t : Signalling) : Op → Prop
  | .routeSignal i env => ∀ n inbox, t.sys.sigStreams[i]? = some (n, inbox) →
      ∀ dst ch, t.sys.c.Delivers n env dst ch → ∃ m ∈ t.sys.c.st.nodes.rows, m.id = n.id
  | _ => True

/-! ### What never changes about a node -/

/-- Row ids are given out in order. -/
theorem seq_le_step (s : System) (op : Op) : s.c.st.nodes.seq ≤ (s.step op).c.st.nodes.seq := by
  by_cases hop : ∀ now req, op ≠ .register now req
  · exact (NoCharge.step s hop).seq.ge
  · push Not at hop
    obtain ⟨now, req, rfl⟩ := hop
    have hspec := register_spec s.c now req
    change s.c.st.nodes.seq ≤ (s.c.register now req).2.st.nodes.seq
    generalize s.c.register now req = res at hspec ⊢
    cases hspec with
    | rejected _ => exact le_refl _
    | returning _ hn =>
      exact (NoCharge.reRegister req _ (Store.nodeByMachineKey_eq_some_iff.mp hn).1).seq.ge
    | @enrolling _ k _ _ _ _ _ _ _ hres =>
      have hcharge : (s.c.st.chargeSetupKey k).nodes = s.c.st.nodes := rfl
      rcases hres.inserted.2 with heq | ⟨m, -, -, -, -, -, hseq⟩
      · rw [heq, hcharge]
      · rw [hseq, hcharge]
        omega

/-- **What no step changes about a node**: a row has the machine key and the network of the row that
had its id before, unless the id is a new one. -/
theorem identity_step (s : System) (op : Op) {m' : Node} (hm' : m' ∈ (s.step op).c.st.nodes.rows) :
    (∃ m ∈ s.c.st.nodes.rows, m.id = m'.id ∧ m.machineKey = m'.machineKey ∧
      m.networkID = m'.networkID) ∨ s.c.st.nodes.seq < m'.id := by
  have hrows := step_rows s op
  generalize (s.step op).c.st.nodes.rows = rows at hrows hm'
  cases hrows with
  | quiet h =>
    obtain ⟨m, hm, he⟩ := exists_stable_eq h hm'
    simp only [Node.stable, Node.mk.injEq] at he
    exact .inl ⟨m, hm, he.1, he.2.2.2.1, he.2.1⟩
  | returned now req hn =>
    obtain ⟨m, hm, rfl⟩ := List.mem_map.mp hm'
    refine .inl ⟨m, hm, ?_⟩
    split <;> simp
  | enrolled now ownerID req hmk hread hnw ha h4 h6 =>
    rcases List.mem_append.mp hm' with hm' | hm'
    · exact .inl ⟨m', hm', rfl, rfl, rfl⟩
    · rw [List.mem_singleton.mp hm']
      exact .inr (Int.lt_succ _)
  | deleted id => exact .inl ⟨m', List.mem_of_mem_filter hm', rfl, rfl, rfl⟩

/-! ### What enters an inbox -/

section Inbox

variable {c : Coordinator} {sender dst : Node} {env : SignalEnvelope} {ch : ℕ}

/-- An envelope that is delivered enters one inbox, stamped. -/
theorem accepted_routeSignal (hreg : Registered c.sigSubs c.sigChans)
    (h : c.Delivers sender env dst ch) (j : ℕ) :
    ((c.routeSignal sender env).sigChans.get j).accepted =
      (c.sigChans.get j).accepted ++ if j = ch then [env.stamped sender] else [] := by
  have heq : c.routeSignal sender env = { c with
      sigChans := c.sigChans.modify ch fun q => (q.trySend (env.stamped sender)).2 } := by
    rw [routeSignal, h.known]
    simp only [h.network, h.inbox, ne_eq, not_true_eq_false, if_false]
    rfl
  rw [heq]
  by_cases hj : j = ch
  · subst hj
    have hopen : (c.sigChans.get j).closed = false := hreg.opened dst.id j h.inbox
    rw [if_pos rfl, Heap.get_modify_self, Chan.trySend, if_neg (by simp [hopen]), if_pos h.room]
    simp [Chan.accepted]
  · rw [if_neg hj, Heap.get_modify_of_ne hj, List.append_nil]

/-- One that is not enters none. -/
theorem accepted_routeSignal_of_not (h : ∀ dst ch, ¬c.Delivers sender env dst ch) (j : ℕ) :
    ((c.routeSignal sender env).sigChans.get j).accepted = (c.sigChans.get j).accepted := by
  rw [routeSignal]
  split
  · rfl
  · next dst hdst =>
    split_ifs with hnw
    · rfl
    · split
      · rfl
      · next ch hch =>
        -- the inbox is there, so it is full
        have hfull : ¬(c.sigChans.get ch).buf.length < (c.sigChans.get ch).cap :=
          fun hroom => h dst ch ⟨hdst, not_not.mp hnw, hch, hroom⟩
        by_cases hj : j = ch
        · subst hj
          rw [Heap.get_modify_self, Chan.trySend, if_neg hfull]
          split <;> rfl
        · rw [Heap.get_modify_of_ne hj]

end Inbox

/-! ### Steps that place nothing -/

@[simp] theorem Coordinator.sigChans_notifyNetworkLocked (c : Coordinator) (w : ℤ) :
    (c.notifyNetworkLocked w).sigChans = c.sigChans := by
  obtain ⟨_, _, h⟩ := c.notifyNetworkLocked_eq w
  rw [h]

theorem sigChans_register (c : Coordinator) (now : ℤ) (req : RegisterRequest) :
    (c.register now req).2.sigChans = c.sigChans := by
  have hspec := register_spec c now req
  generalize c.register now req = res at hspec ⊢
  cases hspec with
  | rejected _ => rfl
  | @returning routes n _ hn =>
    obtain ⟨st, name, nw, -, -, -, -, -, -, -, heq⟩ :=
      reRegister_spec req routes (Store.nodeByMachineKey_eq_some_iff.mp hn).1
    rw [heq, sigChans_notifyNetworkLocked]
  | enrolling _ _ _ _ _ hres =>
    cases hres with
    | refused _ => rfl
    | exhausted _ _ => rfl
    | halfBuilt _ _ _ _ => rfl
    | enrolled => rw [sigChans_notifyNetworkLocked]

/-- **Steps that place nothing.** Unless the step is an envelope that comes in on a stream, nothing
enters an inbox. -/
theorem accepted_step (s : System) {op : Op} (hreg : Registered s.c.sigSubs s.c.sigChans)
    (hop : ∀ i env, op ≠ .routeSignal i env) {d : ℤ} {ch : ℕ} (hch : s.c.sigSubs d = some ch) :
    ((s.step op).c.sigChans.get ch).accepted = (s.c.sigChans.get ch).accepted ∨
      ((s.step op).c.sigChans.get ch).accepted = [] := by
  cases op with
  | routeSignal i env => exact absurd rfl (hop i env)
  | restart => exact .inr rfl
  | register now req =>
    refine .inl ?_
    rw [step, sigChans_register]
  | updateEndpoints mkey endpoints =>
    refine .inl ?_
    rw [step]
    rcases s.c.updateEndpoints_cases mkey endpoints with heq | ⟨n, -, heq⟩
    · rw [heq]
    · rw [heq, sigChans_notifyNetworkLocked]
  | subscribe now mkey =>
    refine .inl ?_
    simp only [step, subscribe]
    split
    · rfl
    · rw [sigChans_notifyNetworkLocked]
      rfl
  | unsubscribe now i =>
    refine .inl ?_
    simp only [step]
    split
    · rfl
    · rw [unsubscribe]
      split
      · rw [sigChans_notifyNetworkLocked]
      · rfl
  | deleteNode id =>
    refine .inl ?_
    rw [step]
    rcases s.c.deleteNode_spec id with ⟨-, heq⟩ | ⟨n, st, nw, ipams, -, -, -, -, heq⟩
    · rw [heq]
    · rw [heq, sigChans_notifyNetworkLocked]
      exact accepted_closeOld
  | setRouteApproved nodeID route approved =>
    refine .inl ?_
    rw [step]
    rcases s.c.setRouteApproved_cases nodeID route approved with heq | ⟨n, norm, st, -, -, heq⟩
    · rw [heq]
    · rw [heq, sigChans_notifyNetworkLocked]
  | setACL nw rules =>
    refine .inl ?_
    simp only [step]
    split <;> rfl
  | aclChanged nw =>
    refine .inl ?_
    rw [step, aclChanged, sigChans_notifyNetworkLocked]
  | signalSubscribe mkey =>
    refine .inl ?_
    simp only [step, Coordinator.signalSubscribe]
    split
    · rfl
    · -- the new channel is none of those in the map
      have hne : ch ≠ s.c.sigChans.next := (hreg.lt_next d ch hch).ne
      rw [Heap.get_alloc_of_ne (by simpa using hne), accepted_closeOld]
  | signalUnsubscribe i =>
    refine .inl ?_
    simp only [step]
    split
    · rfl
    · rw [signalUnsubscribe]
      split <;> rfl
  | recvSignal j =>
    refine .inl ?_
    rw [step]
    by_cases hj : ch = j
    · subst hj
      exact (congrArg Chan.accepted Heap.get_modify_self).trans Chan.accepted_recv
    · exact congrArg Chan.accepted (Heap.get_modify_of_ne hj)
  | recv _ | ensureNetwork _ _ _ | newSetupKey _ _ _ _ _ _ | revokeSetupKey _ => exact .inl rfl

theorem not_placed_of_ne (s : System) {op : Op} (hreg : Registered s.c.sigSubs s.c.sigChans)
    (hop : ∀ i env, op ≠ .routeSignal i env) {d : ℤ} {out : SignalEnvelope} :
    ¬Placed s op d out := by
  rintro ⟨ch, more, hch, heq, hout⟩
  have hnil : more = [] := by
    rcases accepted_step s hreg hop hch with h | h
    · exact List.append_right_eq_self.mp (heq.symm.trans h)
    · exact (List.append_eq_nil_iff.mp (heq.symm.trans h)).2
  rw [hnil] at hout
  exact List.not_mem_nil hout

/-- **What an envelope places**: if it is delivered, its stamped form in the inbox of the
destination and nothing else. -/
theorem placed_routeSignal_iff (s : System) (hreg : Registered s.c.sigSubs s.c.sigChans) {i : ℕ}
    {env : SignalEnvelope} {d : ℤ} {out : SignalEnvelope} :
    Placed s (.routeSignal i env) d out ↔ ∃ n inbox dst ch, s.sigStreams[i]? = some (n, inbox) ∧
      s.c.Delivers n env dst ch ∧ dst.id = d ∧ out = env.stamped n := by
  cases hi : s.sigStreams[i]? with
  | none =>
    have hstep : s.step (.routeSignal i env) = s := by rw [step, hi]
    refine iff_of_false ?_ ?_
    · rintro ⟨ch, more, -, heq, hout⟩
      rw [hstep] at heq
      rw [List.append_right_eq_self.mp heq.symm] at hout
      exact List.not_mem_nil hout
    · rintro ⟨n, inbox, dst, ch, hsome, -⟩
      exact Option.some_ne_none _ hsome.symm
  | some p =>
    obtain ⟨n, inbox⟩ := p
    have hstep : (s.step (.routeSignal i env)).c = s.c.routeSignal n env := by rw [step, hi]
    rw [Placed, hstep]
    constructor
    · rintro ⟨ch, more, hch, heq, hout⟩
      by_cases hdel : ∃ dst ch, s.c.Delivers n env dst ch
      · obtain ⟨dst, ch', hdel⟩ := hdel
        rw [accepted_routeSignal hreg hdel, List.append_cancel_left_eq] at heq
        split_ifs at heq with hj
        · rw [← heq, List.mem_singleton] at hout
          exact ⟨n, inbox, dst, ch', rfl, hdel, hreg.inj _ _ ch' hdel.inbox (hj ▸ hch), hout⟩
        · rw [← heq] at hout
          exact absurd hout List.not_mem_nil
      · push Not at hdel
        rw [accepted_routeSignal_of_not hdel] at heq
        rw [List.append_right_eq_self.mp heq.symm] at hout
        exact absurd hout List.not_mem_nil
    · rintro ⟨n', inbox', dst, ch, hsome, hdel, rfl, rfl⟩
      obtain ⟨rfl, rfl⟩ := Prod.mk.inj (Option.some.inj hsome)
      refine ⟨ch, [env.stamped n], hdel.inbox, ?_, List.mem_singleton_self _⟩
      rw [accepted_routeSignal hreg hdel, if_pos rfl]

/-! ### The invariant -/

/-- What the streams have captured of their node is true of it, as long as it exists. -/
structure SignalsInv (t : Signalling) : Prop where
  safe : StreamsSafe t.sys.c
  opened : t.sys.sigStreams.map (·.1.machineKey) = t.openers.map (·.string)
  pos : ∀ p ∈ t.sys.sigStreams, 0 < p.1.id
  le : ∀ p ∈ t.sys.sigStreams, p.1.id ≤ t.sys.c.st.nodes.seq
  captured : ∀ p ∈ t.sys.sigStreams, ∀ m ∈ t.sys.c.st.nodes.rows, m.id = p.1.id →
    m.machineKey = p.1.machineKey ∧ m.networkID = p.1.networkID

theorem signalsInv_start (st : Store) (stunServers relays : List String) (dnsBase : String) :
    SignalsInv (.start st stunServers relays dnsBase) where
  safe := .new _ _ _ _
  opened := rfl
  pos _ h := absurd h List.not_mem_nil
  le _ h := absurd h List.not_mem_nil
  captured _ h := absurd h List.not_mem_nil

/-- The streams after a step: one may have been opened, and a restart ends them all. -/
theorem sigStreams_step (s : System) (op : Op) : (∃ mkey, op = .signalSubscribe mkey ∧
      (s.step op).sigStreams = s.sigStreams ++ (s.c.signalSubscribe mkey).1.toList) ∨
    (op = .restart ∧ (s.step op).sigStreams = []) ∨
    ((∀ mkey, op ≠ .signalSubscribe mkey) ∧ op ≠ .restart ∧
      (s.step op).sigStreams = s.sigStreams) := by
  cases op with
  | signalSubscribe mkey => exact .inl ⟨mkey, rfl, rfl⟩
  | restart => exact .inr (.inl ⟨rfl, rfl⟩)
  | unsubscribe now i =>
    refine .inr (.inr ⟨fun _ => Op.noConfusion, Op.noConfusion, ?_⟩)
    simp only [step]
    split <;> rfl
  | setACL nw rules =>
    refine .inr (.inr ⟨fun _ => Op.noConfusion, Op.noConfusion, ?_⟩)
    simp only [step]
    split <;> rfl
  | signalUnsubscribe i =>
    refine .inr (.inr ⟨fun _ => Op.noConfusion, Op.noConfusion, ?_⟩)
    simp only [step]
    split <;> rfl
  | routeSignal i env =>
    refine .inr (.inr ⟨fun _ => Op.noConfusion, Op.noConfusion, ?_⟩)
    simp only [step]
    split <;> rfl
  | _ => exact .inr (.inr ⟨fun _ => Op.noConfusion, Op.noConfusion, rfl⟩)

namespace SignalsInv

variable {t : Signalling}

variable (h : SignalsInv t)
include h

/-- What was captured of a node that existed stays true of it. -/
theorem captured_step (op : Op) {p : Node × ℕ} (hp : p ∈ t.sys.sigStreams)
    {m : Node} (hm : m ∈ (t.sys.step op).c.st.nodes.rows) (hid : m.id = p.1.id) :
    m.machineKey = p.1.machineKey ∧ m.networkID = p.1.networkID := by
  rcases identity_step t.sys op hm with ⟨m₀, hm₀, hid₀, hmk, hnw⟩ | hnew
  · rw [← hmk, ← hnw]
    exact h.captured p hp m₀ hm₀ (hid₀.trans hid)
  · -- a new id is larger than that of any stream
    have hle := h.le p hp
    omega

/-- A step that opens no stream. -/
theorem of_sigStreams (op : Op) (hstreams : (t.sys.step op).sigStreams = t.sys.sigStreams)
    (hopeners : (t.step op).openers = t.openers) : SignalsInv (t.step op) where
  safe := streamsSafe_step t.sys op h.safe
  opened := by
    rw [hopeners, ← h.opened]
    exact congrArg _ hstreams
  pos p hp := h.pos p (hstreams ▸ hp)
  le p hp := (h.le p (hstreams ▸ hp)).trans (seq_le_step t.sys op)
  captured p hp m hm := h.captured_step op (hstreams ▸ hp) hm

/-- A stream is opened for the node with the machine key. -/
theorem signalSubscribe (mkey : MachinePublic) : SignalsInv (t.step (.signalSubscribe mkey)) := by
  cases hn : t.sys.c.st.nodeByMachineKey mkey.string with
  | none =>
    have hnone : (t.sys.c.signalSubscribe mkey).1 = none := by
      rw [Coordinator.signalSubscribe, hn]
    refine h.of_sigStreams _ ?_ ?_
    · rw [step, hnone, Option.toList_none, List.append_nil]
    · rw [Signalling.step, hnone]
      rfl
  | some n =>
    obtain ⟨hmem, hkey⟩ := Store.nodeByMachineKey_eq_some_iff.mp hn
    have hsome : (t.sys.c.signalSubscribe mkey).1 = some (n, t.sys.c.sigChans.next) := by
      rw [Coordinator.signalSubscribe, hn]
    have hstreams : (t.sys.step (.signalSubscribe mkey)).sigStreams =
        t.sys.sigStreams ++ [(n, t.sys.c.sigChans.next)] := by
      rw [step, hsome, Option.toList_some]
    have hopeners : (t.step (.signalSubscribe mkey)).openers = t.openers ++ [mkey] := by
      rw [Signalling.step, hsome]
      rfl
    have hnodes : (t.sys.c.signalSubscribe mkey).2.st.nodes = t.sys.c.st.nodes := by
      rw [Coordinator.signalSubscribe, hn]
    have hcases : ∀ p ∈ (t.sys.step (.signalSubscribe mkey)).sigStreams,
        p ∈ t.sys.sigStreams ∨ p.1 = n := by
      intro p hp
      rw [hstreams, List.mem_append, List.mem_singleton] at hp
      exact hp.imp_right (congrArg Prod.fst)
    refine ⟨streamsSafe_step t.sys _ h.safe, ?_, ?_, ?_, ?_⟩
    · rw [hopeners, List.map_append, ← h.opened, List.map_singleton, ← hkey]
      exact (congrArg _ hstreams).trans (by simp)
    · intro p hp
      rcases hcases p hp with hp | hp
      · exact h.pos p hp
      · rw [hp]
        exact t.sys.c.st.nodes.id_pos n hmem
    · intro p hp
      refine le_trans ?_ (seq_le_step t.sys _)
      rcases hcases p hp with hp | hp
      · exact h.le p hp
      · rw [hp]
        exact t.sys.c.st.nodes.id_le n hmem
    · intro p hp m hm hid
      rcases hcases p hp with hp | hp
      · exact h.captured_step _ hp hm hid
      · have hm' : m ∈ t.sys.c.st.nodes.rows := hnodes ▸ hm
        rw [hp] at hid ⊢
        rw [t.sys.c.st.nodes.eq_of_id_eq hm' hmem hid]
        exact ⟨rfl, rfl⟩

theorem step (op : Op) : SignalsInv (t.step op) := by
  rcases sigStreams_step t.sys op with ⟨mkey, rfl, -⟩ | ⟨rfl, -⟩ | ⟨hsub, hrestart, heq⟩
  · exact h.signalSubscribe mkey
  · exact signalsInv_start _ _ _ _
  · refine h.of_sigStreams op heq ?_
    rw [Signalling.step]
    · exact hsub
    · exact hrestart

/-- The machine key a stream was opened with. -/
theorem exists_opener {i inbox : ℕ} {n : Node} (hi : t.sys.sigStreams[i]? = some (n, inbox)) :
    ∃ key, t.openers[i]? = some key ∧ n.machineKey = key.string := by
  have hmap := congrArg (·[i]?) h.opened
  simp only [List.getElem?_map, hi, Option.map_some] at hmap
  obtain ⟨key, hkey, heq⟩ := Option.map_eq_some_iff.mp hmap.symm
  exact ⟨key, hkey, heq.symm⟩

end SignalsInv

/-- **When a step is authentic.** -/
theorem authentic_step_iff (t : Signalling) (op : Op) (h : SignalsInv t) :
    Authentic t op ↔ FromRegistered t op := by
  by_cases hop : ∀ i env, op ≠ .routeSignal i env
  · refine iff_of_true ?_ ?_
    · intro d out hplaced
      exact absurd hplaced (not_placed_of_ne t.sys h.safe.signals hop)
    · rw [FromRegistered]
      · trivial
      · exact hop
  · push Not at hop
    obtain ⟨i, env, rfl⟩ := hop
    constructor
    · intro hauth n inbox hi dst ch hdel
      obtain ⟨-, -, -, -, -, m, hm, -, hfrom, -⟩ := hauth dst.id (env.stamped n)
        ((placed_routeSignal_iff t.sys h.safe.signals).mpr ⟨n, inbox, dst, ch, hi, hdel, rfl, rfl⟩)
      have hpos : 0 < n.id := h.pos _ (List.mem_of_getElem? hi)
      refine ⟨m, hm, ?_⟩
      rw [← hfrom]
      exact Int.toNat_of_nonneg hpos.le
    · intro hcond d out hplaced
      obtain ⟨n, inbox, dst, ch, hi, hdel, rfl, rfl⟩ :=
        (placed_routeSignal_iff t.sys h.safe.signals).mp hplaced
      obtain ⟨m, hm, hid⟩ := hcond n inbox hi dst ch hdel
      obtain ⟨key, hkey, hopener⟩ := h.exists_opener hi
      have hp := List.mem_of_getElem? hi
      have hpos : 0 < n.id := h.pos _ hp
      obtain ⟨hmk, hnw⟩ := h.captured _ hp m hm hid
      refine ⟨i, env, key, rfl, hkey, m, hm, hmk.trans hopener, ?_, dst, ?_, rfl, ?_⟩
      · rw [hid]
        exact Int.toNat_of_nonneg hpos.le
      · exact (Store.nodeByID_eq_some_iff.mp hdel.known).1
      · rw [hnw]
        exact hdel.network

/-- **Whom signals come from.** In every run, started on any database, whatever is placed in an
inbox comes from the registered node that opened the stream, in the same network, if and only if no
envelope is delivered whose stream was opened for a node that has been deleted since. -/
theorem authentic_iff (st : Store) (stunServers relays : List String) (dnsBase : String)
    (ops : List Op) :
    Along Signalling.step Authentic (.start st stunServers relays dnsBase) ops ↔
      Along Signalling.step FromRegistered (.start st stunServers relays dnsBase) ops :=
  along_congr (signalsInv_start st stunServers relays dnsBase) (fun _ op h => h.step op)
    authentic_step_iff ops

/-- Two machines join and open a signal stream each, and the first node is deleted. -/
def sampleDeleted : Signalling :=
  run Signalling.step (.start sampleStore [] [] "mesh")
    [.register 0 (sampleRequest 1 "sk-01"),
      .register 0 (sampleRequest 2 "sk-01"),
      .signalSubscribe (sampleRequest 1 "").mkey,
      .signalSubscribe (sampleRequest 2 "").mkey, .deleteNode 1]

/-- **A signal from nobody.** An envelope that comes in on the stream of the deleted node is placed
in the inbox of the second one in the name of the first, and there is no such node. -/
theorem signal_from_deleted_node :
    Placed sampleDeleted.sys (.routeSignal 0 ⟨[], 2, 0, 1, "", 0⟩) 2 ⟨[], 2, 1, 1, "", 0⟩ ∧
      sampleDeleted.sys.c.st.nodes.rows.map (·.id) = [2] ∧
      ¬Authentic sampleDeleted (.routeSignal 0 ⟨[], 2, 0, 1, "", 0⟩) := by
  have hplaced : Placed sampleDeleted.sys (.routeSignal 0 ⟨[], 2, 0, 1, "", 0⟩) 2
      ⟨[], 2, 1, 1, "", 0⟩ :=
    ⟨1, [⟨[], 2, 1, 1, "", 0⟩], by decide +kernel, by decide +kernel, List.mem_singleton_self _⟩
  have hids : sampleDeleted.sys.c.st.nodes.rows.map (·.id) = [2] := by decide +kernel
  refine ⟨hplaced, hids, ?_⟩
  intro hauth
  obtain ⟨-, -, -, -, -, n, hn, -, hfrom, -⟩ := hauth 2 _ hplaced
  have hmem : n.id ∈ sampleDeleted.sys.c.st.nodes.rows.map (·.id) := List.mem_map_of_mem hn
  rw [hids, List.mem_singleton, ← hfrom] at hmem
  exact absurd hmem (by decide)

end OverMesh
