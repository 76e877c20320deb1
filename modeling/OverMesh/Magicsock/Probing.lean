import OverMesh.Internal.Runs
import OverMesh.Magicsock.ConnMgr

/-!
# Probing for a direct path

`runInitiator` negotiates until it has a direct path, and then returns. Whether somebody is still
trying is thus a matter of which goroutines run, and a path that is lost after that is reported and
not looked for again.

## Main definitions

* `ConnMgr.Probing` — `runInitiator` is running for the session of the peer
* `ConnMgr.Attended` — every peer with a greater id has a direct path, or somebody is trying
* `Steady` — a loss is reported only while somebody is trying, an established session has an address
  that can be read, and the peer that is to wait for offers does not make them

## Main results

* `attended_run` — **in every run in which that is so, a peer without a direct path is being
  probed**
* `disconnected_unattended` — a session that is disconnected after it was established
-/

namespace OverMesh

open Runs

namespace Magicsock

namespace Negotiation

/-- How far a call is, and for which session. -/
def progress (n : Negotiation) : ℕ × ℕ × Bool × Stage := (n.peer, n.session, n.initiator, n.stage)

end Negotiation

namespace ConnMgr

/-- `runInitiator` is running for the session that the peer has in the table. -/
def Probing (m : ConnMgr) (p : ℕ) (pc : PeerConn) : Prop :=
  ∃ n ∈ m.negs, n.peer = p ∧ n.session = pc.session ∧ n.initiator = true ∧ n.stage ≠ .returned

instance (m : ConnMgr) (p : ℕ) (pc : PeerConn) : Decidable (m.Probing p pc) :=
  inferInstanceAs (Decidable (∃ n ∈ m.negs, _))

/-- What was reported last is a direct path. -/
def Direct (m : ConnMgr) (p : ℕ) : Prop := ∃ r ∈ m.lastReport p, r.update.state = .direct

instance (m : ConnMgr) (p : ℕ) : Decidable (m.Direct p) :=
  inferInstanceAs (Decidable (∃ r ∈ m.lastReport p, _))

/-- Every peer that this node is to call has a direct path, or is being probed. -/
def Attended (m : ConnMgr) : Prop :=
  ∀ p, m.selfNode < p → ∀ pc ∈ m.peers p, m.Direct p ∨ m.Probing p pc

/-- The condition on a step. -/
def Steady (m : ConnMgr) : MagicOp → Prop
  | .handleOffer id session =>
    m.selfNode < id → m.closed = true ∨ (m.peers id).any (·.session ≥ session) = true
  | .work i out => ∀ n ∈ m.negs[i]?, m.selfNode < n.peer → ∀ pc ∈ m.peers n.peer,
    (n.stage = .dial → out.ok = false → m.Probing n.peer pc) ∧
    (n.stage = .selected → n.initiator = true → n.session = pc.session →
      (out.pair.bind fun p => remoteEndpoint p.1 p.2).isSome = true ∨ m.Direct n.peer)
  | .callback i k => ∀ n ∈ m.negs[i]?, ∀ e ∈ n.agent.queue[k]?, e.path.map Prod.fst = some .none →
    m.selfNode < n.peer → ∀ pc ∈ m.peers n.peer, m.Probing n.peer pc
  | _ => True

instance (m : ConnMgr) (op : MagicOp) : Decidable (Steady m op) := by
  cases op <;> unfold Steady <;> infer_instance

/-! ### What keeps a peer probed -/

variable {m m' : ConnMgr} {i p q : ℕ} {n n' : Negotiation} {pc : PeerConn}

theorem probing_iff :
    m.Probing p pc ↔ ∃ stage, (p, pc.session, true, stage) ∈ m.negs.map Negotiation.progress ∧
      stage ≠ .returned := by
  constructor
  · rintro ⟨n, hn, rfl, hsession, hinit, hstage⟩
    refine ⟨n.stage, List.mem_map.mpr ⟨n, hn, ?_⟩, hstage⟩
    rw [Negotiation.progress, hsession, hinit]
  · rintro ⟨stage, hmem, hstage⟩
    obtain ⟨n, hn, heq⟩ := List.mem_map.mp hmem
    simp only [Negotiation.progress, Prod.mk.injEq] at heq
    obtain ⟨hp, hsession, hinit, rfl⟩ := heq
    exact ⟨n, hn, hp, hsession, hinit, hstage⟩

section Attended

variable (h : m.Attended)
include h

/-- A step that leaves the calls, the sessions and the reports alone. -/
theorem Attended.congr (hself : m'.selfNode = m.selfNode)
    (hpeers : ∀ p, (m'.peers p).map PeerConn.session = (m.peers p).map PeerConn.session)
    (hnegs : m'.negs.map Negotiation.progress = m.negs.map Negotiation.progress)
    (hreports : m'.reports = m.reports) : m'.Attended := by
  intro p hp pc' hpc'
  rw [hself] at hp
  have hsession := hpeers p
  rw [Option.mem_def.mp hpc', Option.map_some] at hsession
  obtain ⟨pc, hpc, hsame⟩ := Option.map_eq_some_iff.mp hsession.symm
  refine (h p hp pc hpc).imp ?_ ?_
  · rw [Direct, Direct, lastReport, lastReport, hreports]
    exact id
  · rw [probing_iff, probing_iff, hnegs, hsame]
    exact id

/-- The entry of a call changes. If the call returns, and was the one that probed, there is a direct
path. -/
theorem Attended.setNeg (hi : m.negs[i]? = some n) (hpeer : n'.peer = n.peer)
    (hsession : n'.session = n.session) (hinit : n'.initiator = n.initiator)
    (hend : n'.stage = .returned → n.initiator = true → m.selfNode < n.peer →
      ∀ pc ∈ m.peers n.peer, n.session = pc.session → n.stage ≠ .returned → m.Direct n.peer) :
    (m.setNeg i n').Attended := by
  intro p hp pc hpc
  rcases h p hp pc hpc with hdirect | ⟨n₀, hn₀, hp₀, hs₀, hi₀, hst₀⟩
  · exact .inl hdirect
  · obtain ⟨j, hj⟩ := List.mem_iff_getElem?.mp hn₀
    by_cases hij : i = j
    · subst hij
      obtain rfl := Option.some.inj (hi.symm.trans hj)
      by_cases hret : n'.stage = .returned
      · subst hp₀
        exact .inl (hend hret hi₀ hp pc hpc hs₀ hst₀)
      · obtain ⟨hlt, -⟩ := List.getElem?_eq_some_iff.mp hi
        exact .inr ⟨n', List.mem_of_getElem? (List.getElem?_set_self hlt), hpeer.trans hp₀,
          hsession.trans hs₀, hinit.trans hi₀, hret⟩
    · exact .inr ⟨n₀, List.mem_of_getElem? ((List.getElem?_set_ne hij).trans hj), hp₀, hs₀, hi₀,
        hst₀⟩

/-- A report. -/
theorem Attended.report (i p : ℕ) (path : PathState × Option (Netip.Addr × ℕ))
    (hp : path.1 = .direct ∨ (m.selfNode < p → ∀ pc ∈ m.peers p, m.Probing p pc)) :
    (m.report i p path).Attended := by
  intro q hq pc hpc
  by_cases hqp : q = p
  · subst hqp
    rcases hp with hdirect | hprobing
    · exact .inl ⟨_, lastReport_report_self .., hdirect⟩
    · exact .inr (hprobing hq pc hpc)
  · refine (h q hq pc hpc).imp_left ?_
    rw [Direct, Direct, lastReport_report_of_ne m i hqp]
    exact id

/-- A peer is taken out of the table. -/
theorem Attended.remove (p : ℕ) : (m.remove p).Attended := by
  intro q hq pc hpc
  by_cases hqp : q = p
  · rw [hqp] at hpc
    cases (Function.update_self ..).symm.trans hpc
  · exact h q hq pc ((Function.update_of_ne hqp ..).symm.trans hpc)

/-- A peer gets a session, with a call that has begun, or is not for this node to call. -/
theorem Attended.append (p : ℕ) (pc : PeerConn) {session : ℕ} {initiator : Bool}
    (hsession : pc.session = session) (hp : m.selfNode < p → initiator = true) : ({ m with
      peers := Function.update m.peers p (some pc)
      negs := m.negs ++ [.fresh p session initiator] } : ConnMgr).Attended := by
  intro q hq pc' hpc
  by_cases hqp : q = p
  · subst hqp
    simp only [Function.update_self, Option.mem_def, Option.some.injEq] at hpc
    subst hpc
    exact .inr ⟨_, List.mem_append_right _ (List.mem_singleton.mpr rfl), rfl, hsession.symm, hp hq,
      by simp [Negotiation.fresh]⟩
  · refine (h q hq pc' ((Function.update_of_ne hqp ..).symm.trans hpc)).imp_right ?_
    rintro ⟨n, hn, hprops⟩
    exact ⟨n, List.mem_append_left _ hn, hprops⟩

/-! ### The manager -/

theorem Attended.teardownLocked (pc : PeerConn) : (m.teardownLocked pc).Attended := by
  rw [ConnMgr.teardownLocked]
  cases pc.agent with
  | none => exact h
  | some i =>
    simp only [onNeg]
    cases hi : m.negs[i]? with
    | none => exact h
    | some n => exact h.congr rfl (fun _ => rfl) (Slots.map_set_eq hi rfl) rfl

omit h in
theorem selfNode_teardownLocked (m : ConnMgr) (pc : PeerConn) :
    (m.teardownLocked pc).selfNode = m.selfNode := by
  obtain ⟨l, heq, -⟩ := m.teardownLocked_spec pc
  rw [heq]

theorem Attended.install {session : ℕ} {initiator : Bool}
    (hp : m.selfNode < p → initiator = true) : (m.install p session initiator).Attended := by
  refine (h.append p _ rfl hp).report m.negs.length p (.connecting, none) (.inr ?_)
  intro hlt pc hpc
  simp only [Function.update_self, Option.mem_def, Option.some.injEq] at hpc
  subst hpc
  exact ⟨_, List.mem_append_right _ (List.mem_singleton.mpr rfl), rfl, rfl, hp hlt, by
    simp [Negotiation.fresh]⟩

/-- What is reported about a peer that is not in the table. -/
theorem Attended.report_removed (p : ℕ) (pc : PeerConn) (i : ℕ)
    (path : PathState × Option (Netip.Addr × ℕ)) :
    (((m.teardownLocked pc).remove p).report i p path).Attended := by
  refine ((h.teardownLocked pc).remove p).report i p path (.inr ?_)
  intro _ pc' hpc'
  simp only [ConnMgr.remove, Function.update_self] at hpc'
  cases hpc'

theorem Attended.setPeersGone (p : ℕ) : (m.setPeersGone p).Attended := by
  rw [ConnMgr.setPeersGone]
  split_ifs
  · exact h
  · cases m.peers p with
    | none => exact h
    | some pc => exact h.report_removed p pc _ _

theorem Attended.setPeersNew (p now : ℕ) : (m.setPeersNew p now).Attended := by
  rw [ConnMgr.setPeersNew]
  split_ifs
  · exact h
  · exact h.install fun _ => rfl

theorem Attended.restart (p now : ℕ) : (m.restart p now).Attended := by
  rw [ConnMgr.restart]
  split_ifs
  · exact h
  · cases m.peers p with
    | none => exact h
    | some pc =>
      simp only
      split_ifs
      · exact ((h.teardownLocked pc).remove p).install fun _ => rfl
      · exact h.report_removed p pc _ _

theorem Attended.handleOffer {p session : ℕ} (hs : Steady m (.handleOffer p session)) :
    (m.handleOffer p session).Attended := by
  rw [ConnMgr.handleOffer]
  split_ifs with hclosed
  · exact h
  · -- an offer that is accepted comes from a peer that is to make it
    cases hpc : m.peers p with
    | none =>
      refine h.install fun hlt => ?_
      rcases hs hlt with hc | hold
      · exact absurd hc hclosed
      · simp [hpc] at hold
    | some pc =>
      simp only
      split_ifs with hold
      · exact h
      · refine ((h.teardownLocked pc).remove p).install fun hlt => ?_
        rcases hs ((selfNode_teardownLocked m pc).symm.trans_lt hlt) with hc | hold'
        · exact absurd hc hclosed
        · simp [hpc, hold] at hold'

theorem Attended.handleAnswer (p session : ℕ) : (m.handleAnswer p session).Attended := by
  rw [ConnMgr.handleAnswer]
  cases m.peers p with
  | none => exact h
  | some pc =>
    simp only
    split_ifs
    · exact h.congr rfl (fun _ => rfl) rfl rfl
    · exact h

theorem Attended.answer (k : ℕ) : (m.answer k).Attended := by
  rw [ConnMgr.answer]
  cases m.answers[k]? with
  | none => exact h
  | some i =>
    simp only [onNeg]
    cases hi : m.negs[i]? with
    | none => exact h.congr rfl (fun _ => rfl) rfl rfl
    | some n => exact h.congr rfl (fun _ => rfl) (Slots.map_set_eq hi rfl) rfl

/-! ### The calls -/

theorem Attended.dropChan (n : Negotiation) : (m.dropChan n).Attended := by
  rw [ConnMgr.dropChan]
  split_ifs
  · exact h.congr rfl (fun _ => rfl) rfl rfl
  · exact h

theorem Attended.makeChan (i : ℕ) (n : Negotiation) : (m.makeChan i n).Attended := by
  rw [ConnMgr.makeChan]
  split_ifs
  · exact h.congr rfl (fun _ => rfl) rfl rfl
  · exact h

/-- A call that goes on. -/
theorem Attended.goto (hi : m.negs[i]? = some n) {stage : Stage}
    (hstage : stage ≠ .returned) : (m.goto i n stage).Attended :=
  h.setNeg hi rfl rfl rfl fun hret => absurd hret hstage

/-- A call that returns. -/
theorem Attended.returned (hi : m.negs[i]? = some n)
    (hend : n.initiator = true → m.selfNode < n.peer → ∀ pc ∈ m.peers n.peer,
      n.session = pc.session → m.Direct n.peer) : (m.goto i n .returned).Attended :=
  h.setNeg hi rfl rfl rfl fun _ hinit hlt pc hpc hsession _ => hend hinit hlt pc hpc hsession

/-- A call that fails does not end `runInitiator`. -/
theorem Attended.giveUp (hi : m.negs[i]? = some n) : (m.setNeg i n.giveUp).Attended := by
  refine h.setNeg hi rfl rfl rfl ?_
  intro hret hinit
  simp [Negotiation.giveUp, hinit] at hret

theorem Attended.fail (hi : m.negs[i]? = some n) : (m.fail i n).Attended := by
  refine h.setNeg hi rfl rfl rfl ?_
  intro hret hinit
  simp [Negotiation.giveUp, Negotiation.closeAgent, hinit] at hret

theorem Attended.attach (hi : m.negs[i]? = some n) : (m.attach i n).Attended := by
  rw [ConnMgr.attach]
  cases hpc : (m.peers n.peer).filter (·.session = n.session) with
  | none =>
    -- the call was not the one that probed
    refine h.setNeg hi rfl rfl rfl ?_
    intro _ _ _ pc hpc' hsession
    rw [Option.mem_def.mp hpc'] at hpc
    simp [hsession] at hpc
  | some pc =>
    obtain ⟨hpc, -⟩ := Option.filter_eq_some_iff.mp hpc
    have hpeers : ({ m with
        peers := Function.update m.peers n.peer (some { pc with agent := some i }) } :
          ConnMgr).Attended := by
      refine h.congr rfl ?_ rfl rfl
      intro p
      by_cases hp : p = n.peer
      · subst hp
        simp [hpc]
      · simp [Function.update_of_ne hp]
    exact hpeers.setNeg hi rfl rfl rfl fun hret => by cases hret

/-- The next attempt probes the peer under its new session. -/
theorem Attended.retry (hi : m.negs[i]? = some n) (hopen : m.closed = false)
    (now : ℕ) : (m.retry i n now).Attended := by
  rw [ConnMgr.retry]
  cases hpc : (m.peers n.peer).filter fun pc => pc.session = n.session ∧ ¬ m.closed with
  | none =>
    refine h.returned hi ?_
    intro _ _ pc hpc' hsession
    rw [Option.mem_def.mp hpc'] at hpc
    simp [hsession, hopen] at hpc
  | some pc =>
    -- while the peer is out of the table, nobody needs to probe it
    have hreturn : ((m.remove n.peer).goto i n .returned).Attended := by
      refine (h.remove n.peer).returned hi ?_
      intro _ _ pc' hpc'
      simp only [ConnMgr.remove, Function.update_self] at hpc'
      cases hpc'
    have happ := hreturn.append n.peer { pc with session := now } rfl fun _ => rfl
    simpa only [ConnMgr.remove, ConnMgr.goto, ConnMgr.setNeg, Function.update_idem] using happ

theorem Attended.raise (hi : m.negs[i]? = some n) (e : AgentEvent) : (m.raise i n e).Attended := by
  rw [ConnMgr.raise]
  split_ifs
  · exact h.congr rfl (fun _ => rfl) (Slots.map_set_eq hi rfl) rfl
  · exact h

omit h in
/-- The callbacks report a direct path, or a loss. -/
theorem path_cases {e : AgentEvent} {path : PathState × Option (Netip.Addr × ℕ)}
    (h : e.path = some path) : path.1 = .direct ∨ path.1 = .none := by
  cases e with
  | selectedPair address port =>
    obtain ⟨ap, -, rfl⟩ := Option.map_eq_some_iff.mp h
    exact .inl rfl
  | stateChange s =>
    rw [AgentEvent.path] at h
    split_ifs at h
    obtain rfl := Option.some.inj h
    exact .inr rfl

theorem Attended.callback (hi : m.negs[i]? = some n) {k : ℕ}
    (hs : Steady m (.callback i k)) : (m.callback i n k).Attended := by
  have hset : (m.setNeg i (n.dequeue k)).Attended :=
    h.congr rfl (fun _ => rfl) (Slots.map_set_eq hi rfl) rfl
  rw [ConnMgr.callback]
  cases hk : n.agent.queue[k]? with
  | none => exact h
  | some e =>
    cases hpath : e.path with
    | none => simpa only [hpath] using hset
    | some path =>
      have hreport : ((m.setNeg i (n.dequeue k)).report i n.peer path).Attended := by
        refine hset.report i n.peer path ((path_cases hpath).imp_right ?_)
        intro hnone hlt pc hpc
        have hprobing := hs n hi e hk (by rw [hpath, Option.map_some, hnone]) hlt pc hpc
        rw [probing_iff] at hprobing ⊢
        rwa [show (m.setNeg i (n.dequeue k)).negs.map Negotiation.progress =
          m.negs.map Negotiation.progress from Slots.map_set_eq hi rfl]
      simpa only [hpath] using hreport

omit h in
theorem goto_dropChan (m : ConnMgr) (i : ℕ) (n : Negotiation) (stage : Stage) :
    (m.dropChan n).goto i n stage = (m.goto i n stage).dropChan n := by
  rw [ConnMgr.dropChan, ConnMgr.dropChan]
  split_ifs <;> rfl

/-- **One step of a call.** -/
theorem Attended.work (hi : m.negs[i]? = some n) (hopen : m.closed = false)
    {out : Outcome} (hs : Steady m (.work i out)) : (m.work i n out).Attended := by
  have hdrop : ∀ m' : ConnMgr, m'.negs = m.negs → (m'.dropChan n).negs[i]? = some n := by
    intro m' hm'
    rw [negs_dropChan, hm', hi]
  rw [ConnMgr.work]
  cases hstage : n.stage with
  | start => exact h.goto hi (by simp [hopen])
  | bind =>
    simp only
    split_ifs
    · exact h.goto hi (by simp)
    · exact h.giveUp hi
  | newAgent =>
    simp only
    split_ifs
    · exact h.goto hi (by simp)
    · exact h.giveUp hi
  | attach => exact h.attach hi
  | credentials =>
    simp only
    split_ifs
    · exact h.setNeg hi rfl rfl rfl fun hret => by cases hret
    · exact h.fail hi
  | signal =>
    have hmake : (m.makeChan i n).negs[i]? = some n := by rw [negs_makeChan, hi]
    simp only
    split_ifs
    · exact (h.makeChan i n).goto hmake (by simp)
    · exact ((h.makeChan i n).dropChan n).fail (by rw [negs_dropChan, hmake])
  | gather =>
    simp only
    split_ifs
    · exact h.goto hi (by simp)
    · exact h.goto hi (by simp)
    · exact (h.dropChan n).fail (hdrop m rfl)
  | await =>
    simp only
    split_ifs
    · exact h.goto hi (by simp)
    · exact h
    · exact (h.dropChan n).fail (hdrop m rfl)
  | dial =>
    simp only
    split_ifs with hok
    · exact h.goto hi (by simp)
    · have hloss : (m.report i n.peer (.none, none)).Attended := by
        refine h.report i n.peer _ (.inr ?_)
        intro hlt pc hpc
        exact (hs n hi hlt pc hpc).1 hstage ((Bool.not_eq_true _).mp hok)
      exact (hloss.dropChan n).fail (hdrop _ rfl)
  | selected =>
    cases hap : out.pair.bind fun p => remoteEndpoint p.1 p.2 with
    | some ap =>
      have hdirect := h.report i n.peer (.direct, some ap) (.inl rfl)
      simp only [goto_dropChan]
      refine (hdirect.returned hi ?_).dropChan n
      intro _ _ _ _ _
      exact ⟨_, lastReport_report_self .., rfl⟩
    | none =>
      simp only [goto_dropChan]
      refine (h.returned hi ?_).dropChan n
      intro hinit hlt pc hpc hsession
      rcases (hs n hi hlt pc hpc).2 hstage hinit hsession with hsome | hdirect
      · rw [hap] at hsome
        cases hsome
      · exact hdirect
  | backoff => exact h.retry hi hopen out.now
  | returned => exact h

end Attended

/-! ### Runs -/

theorem closed_teardownLocked (m : ConnMgr) (pc : PeerConn) :
    (m.teardownLocked pc).closed = m.closed := by
  obtain ⟨l, heq, -⟩ := m.teardownLocked_spec pc
  rw [heq]

theorem closed_dropChan (m : ConnMgr) (n : Negotiation) : (m.dropChan n).closed = m.closed := by
  rw [ConnMgr.dropChan]
  split_ifs <;> rfl

theorem closed_makeChan (m : ConnMgr) (i : ℕ) (n : Negotiation) :
    (m.makeChan i n).closed = m.closed := by
  rw [ConnMgr.makeChan]
  split_ifs <;> rfl

theorem closed_work (m : ConnMgr) (i : ℕ) (n : Negotiation) (out : Outcome) :
    (m.work i n out).closed = m.closed := by
  rw [ConnMgr.work]
  cases n.stage <;> simp only [ConnMgr.attach, ConnMgr.retry] <;> repeat' split
  all_goals simp only [ConnMgr.goto, ConnMgr.fail, ConnMgr.setNeg, ConnMgr.report, closed_dropChan,
    closed_makeChan]

/-- A manager that is closed stays closed. -/
theorem closed_step (m : ConnMgr) (op : MagicOp) (h : m.closed = true) :
    (m.step op).closed = true := by
  cases op with
  | setPeersGone p => rw [ConnMgr.step, ConnMgr.setPeersGone, if_pos h, h]
  | setPeersNew p now => rw [ConnMgr.step, ConnMgr.setPeersNew, if_pos (.inl h), h]
  | restart p now => rw [ConnMgr.step, ConnMgr.restart, if_pos h, h]
  | close => rfl
  | closePeer p =>
    rw [ConnMgr.step, ConnMgr.closePeer, if_pos h]
    cases m.peers p with
    | none => exact h
    | some pc => exact (closed_teardownLocked m pc).trans h
  | handleOffer p session => rw [ConnMgr.step, ConnMgr.handleOffer, if_pos h, h]
  | handleAnswer p session =>
    rw [ConnMgr.step, ConnMgr.handleAnswer]
    repeat' split
    all_goals exact h
  | answer k =>
    rw [ConnMgr.step, ConnMgr.answer]
    cases m.answers[k]? with
    | none => exact h
    | some i =>
      simp only [onNeg]
      cases m.negs[i]? <;> exact h
  | work i out =>
    rw [ConnMgr.step, onNeg]
    cases m.negs[i]? with
    | none => exact h
    | some n => exact (closed_work m i n out).trans h
  | raise i e =>
    rw [ConnMgr.step, onNeg]
    cases m.negs[i]? with
    | none => exact h
    | some n =>
      simp only [Option.elim_some, ConnMgr.raise]
      split_ifs <;> exact h
  | callback i k =>
    rw [ConnMgr.step, onNeg]
    cases m.negs[i]? with
    | none => exact h
    | some n =>
      simp only [Option.elim_some, ConnMgr.callback]
      repeat' split
      all_goals exact h

/-- **One step.** -/
theorem Attended.step (h : m.closed = false → m.Attended) (op : MagicOp) (hs : Steady m op)
    (hopen : (m.step op).closed = false) : (m.step op).Attended := by
  have hopen' : m.closed = false := by
    rw [← Bool.not_eq_true]
    intro hc
    rw [closed_step m op hc] at hopen
    cases hopen
  have h' := h hopen'
  cases op with
  | setPeersGone p => exact h'.setPeersGone p
  | setPeersNew p now => exact h'.setPeersNew p now
  | restart p now => exact h'.restart p now
  | close => cases hopen
  | closePeer p =>
    rw [ConnMgr.step, ConnMgr.closePeer, hopen', if_neg Bool.false_ne_true]
    exact h'
  | handleOffer p session => exact h'.handleOffer hs
  | handleAnswer p session => exact h'.handleAnswer p session
  | answer k => exact h'.answer k
  | work i out =>
    rw [ConnMgr.step, onNeg]
    cases hi : m.negs[i]? with
    | none => exact h'
    | some n => exact h'.work hi hopen' hs
  | raise i e =>
    rw [ConnMgr.step, onNeg]
    cases hi : m.negs[i]? with
    | none => exact h'
    | some n => exact h'.raise hi e
  | callback i k =>
    rw [ConnMgr.step, onNeg]
    cases hi : m.negs[i]? with
    | none => exact h'
    | some n => exact h'.callback hi hs

end ConnMgr

open ConnMgr

/-- **A peer without a direct path is being probed**, in every state of an open manager that is
reached by steady steps. -/
theorem attended_run {selfNode : ℕ} {ops : List MagicOp}
    (h : Along ConnMgr.step Steady (.new selfNode) ops)
    (hopen : (run ConnMgr.step (.new selfNode) ops).closed = false) :
    (run ConnMgr.step (.new selfNode) ops).Attended := by
  have hnew : (ConnMgr.new selfNode).closed = false → (ConnMgr.new selfNode).Attended := by
    intro _ p _ pc hpc
    cases hpc
  exact run_induction_along (P := fun m => m.closed = false → m.Attended) hnew
    (fun m op hm hs => Attended.step hm op hs) h hopen

/-! ### A session that is lost after it was established -/

/-- The first attempt fails in `Dial`, after the agent was connected and disconnected again, and the
second one is established. -/
theorem attended_second_attempt :
    (run ConnMgr.step (.new 1) ([.setPeersNew 2 10] ++ upToDial 0 10 ++
      [.raise 0 (.selectedPair "192.0.2.9" 41641), .callback 0 0,
        .raise 0 (.stateChange .disconnected), .callback 0 0,
        .work 0 (failure 0), .work 0 (failure 20)] ++ upToDial 1 20 ++ works 1 2)).Attended :=
  attended_run (by decide +kernel) (by decide +kernel)

/-- **Nobody looks for the path that is lost.** The session is established, `runInitiator` returns,
and then the agent is disconnected. -/
theorem disconnected_unattended :
    (run ConnMgr.step (.new 1) ([.setPeersNew 2 10] ++ upToDial 0 10 ++ works 0 2 ++
        [.raise 0 (.stateChange .disconnected), .callback 0 0])).closed = false ∧
      ¬ (run ConnMgr.step (.new 1) ([.setPeersNew 2 10] ++ upToDial 0 10 ++ works 0 2 ++
        [.raise 0 (.stateChange .disconnected), .callback 0 0])).Attended := by
  refine ⟨by decide +kernel, ?_⟩
  intro h
  have hlost := h 2 (by decide +kernel) ⟨10, some 0, 0⟩ (by decide +kernel)
  revert hlost
  decide +kernel

end Magicsock

end OverMesh
