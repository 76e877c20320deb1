import OverMesh.Internal.Runs
import OverMesh.Magicsock.ConnMgr

/-!
# Superseded sessions

`negotiate` looks whether its session is still that of the peer when it attaches its agent, and not
again. A session that is replaced after that goes on until `Dial` or `Accept` returns, and then
reports that there is no path, whatever the newer session has reported; so do the callbacks of its
agent that are still to run.

## Main definitions

* `Dormant` — what a call that will not report looks like
* `Replaceable` — a session is started only when the earlier calls for the peer are dormant
* `RetriesOnly` — for which peers `runInitiator` may start another attempt
* `SilentInv` — the invariant

## Main results

* `silent_run` — **if sessions are replaced only when the earlier calls are dormant, no report comes
  from a superseded one**
* `dial_fails_superseded` — an offer replaces a session that is in `Dial`
-/

namespace OverMesh

open Runs

namespace Magicsock

/-! ### The condition -/

/-- The stages with an agent in the table. -/
def Stage.isAttached : Stage → Bool
  | .credentials | .signal | .gather | .await | .dial | .selected => true
  | .start | .bind | .newAgent | .attach | .backoff | .returned => false

/-- The stages before that. -/
def Stage.isOpening : Stage → Bool
  | .start | .bind | .newAgent | .attach => true
  | .credentials | .signal | .gather | .await | .dial | .selected | .backoff | .returned => false

theorem Stage.isAttached_of_isOpening {stage : Stage} (h : stage.isOpening = true) :
    stage.isAttached = false := by
  cases stage <;> first | rfl | cases h

/-- The call will not report, once its session has been replaced. No callback that reports is still
to run, and the call has not begun, has returned, or is that of an initiator without an answer. -/
def Negotiation.Dormant (n : Negotiation) (answers : List ℕ) (i : ℕ) : Prop :=
  (∀ e ∈ n.agent.queue, e.path = none) ∧
    (n.stage.isAttached = true → n.initiator = true ∧ n.stage ≠ .dial ∧ n.stage ≠ .selected ∧
      n.answered = false ∧ i ∉ answers)

instance (n : Negotiation) (answers : List ℕ) (i : ℕ) : Decidable (n.Dormant answers i) :=
  inferInstanceAs (Decidable (_ ∧ (_ → _)))

namespace ConnMgr

/-- The peer for which a step starts a session, with its number. -/
def starts (m : ConnMgr) : MagicOp → Option (ℕ × ℕ)
  | .setPeersNew id now =>
    if m.closed ∨ (m.peers id).isSome ∨ m.selfNode ≥ id then none else some (id, now)
  | .restart id now =>
    if m.closed ∨ (m.peers id).isNone ∨ m.selfNode ≥ id then none else some (id, now)
  | .handleOffer id session =>
    if m.closed ∨ (m.peers id).any (·.session ≥ session) then none else some (id, session)
  | .work i out => (m.negs[i]?).bind fun n =>
    if n.stage = .backoff ∧ ¬ m.closed ∧ (m.peers n.peer).any (·.session = n.session) then
      some (n.peer, out.now)
    else none
  | _ => none

/-- The call that the step is one of. -/
def worker : MagicOp → Option ℕ
  | .work i _ => some i
  | _ => none

/-- A session is started only when all calls for the peer are dormant, and with a number that those
that have not returned do not have. -/
def Replaceable (m : ConnMgr) (op : MagicOp) : Prop :=
  ∀ x ∈ m.starts op, ∀ y ∈ m.negs.zipIdx, y.1.peer = x.1 → y.1.Dormant m.answers y.2 ∧
    (y.1.stage = .returned ∨ worker op = some y.2 ∨ y.1.session ≠ x.2)

instance (m : ConnMgr) (op : MagicOp) : Decidable (Replaceable m op) :=
  inferInstanceAs (Decidable (∀ x ∈ _, ∀ y ∈ _, _ → _))

/-- Only for some peers does `runInitiator` start another attempt. -/
def RetriesOnly (retried : ℕ → Prop) (m : ConnMgr) (op : MagicOp) : Prop :=
  (worker op).isSome = true → ∀ x ∈ m.starts op, retried x.1

instance (retried : ℕ → Prop) [DecidablePred retried] (m : ConnMgr) (op : MagicOp) :
    Decidable (RetriesOnly retried m op) :=
  inferInstanceAs (Decidable (_ → ∀ x ∈ _, _))

end ConnMgr

/-! ### The invariant -/

/-- The agent of a call is as far as the call is. -/
structure Negotiation.WellFormed (n : Negotiation) : Prop where
  callbacks : n.agent.callbacks = true → n.agent.attached = true
  opening : n.stage.isOpening = true → n.agent.attached = false
  attached : n.stage.isAttached = true → n.agent.attached = true
  backoff : n.stage = .backoff → n.agent.attached = true → n.agent.closed = true

/-- The `i`-th call has the session of the entry, and what was reported last comes from it, unless
the call is another attempt of `runInitiator` that has not reported yet. -/
structure PeerConn.Recorded (retried : ℕ → Prop) (pc : PeerConn) (m : ConnMgr) (p i : ℕ) : Prop
    where
  call : ∃ n, m.negs[i]? = some n ∧ n.peer = p ∧ n.session = pc.session
  newest : ¬ m.Superseded i p
  bounded : ∀ r ∈ m.reports, r.update.nodeID = p → r.source ≤ i
  last : ∃ r ∈ m.lastReport p, pc.first ≤ r.source ∧
    (r.source = i ∨ retried p ∧ ∀ r' ∈ m.reports, r'.update.nodeID = p → r'.source ≠ i)

/-- An entry of the table: it belongs to calls for its peer, and what was reported last comes from
one of them. -/
structure PeerConn.Current (retried : ℕ → Prop) (pc : PeerConn) (m : ConnMgr) (p : ℕ) : Prop where
  first : ∃ n, m.negs[pc.first]? = some n ∧ n.peer = p
  agent : ∀ i ∈ pc.agent, ∃ n, m.negs[i]? = some n ∧ n.peer = p
  recorded : ∃ i, pc.Recorded retried m p i

theorem PeerConn.Current.congr {retried : ℕ → Prop} {pc : PeerConn} {m m' : ConnMgr} {p : ℕ}
    (h : pc.Current retried m p) (hnegs : m'.negs = m.negs) (hreports : m'.reports = m.reports) :
    pc.Current retried m' p := by
  obtain ⟨hfirst, hagent, i, hcall, hnew, hbound, hlast⟩ := h
  refine ⟨?_, ?_, i, ?_, ?_, ?_, ?_⟩
  · rwa [hnegs]
  · rwa [hnegs]
  · rwa [hnegs]
  · rwa [ConnMgr.Superseded, hnegs]
  · rwa [hreports]
  · rwa [ConnMgr.lastReport, hreports]

/-- Superseded calls are dormant with their agents closed, and open agents are in the table. -/
structure SilentInv (retried : ℕ → Prop) (m : ConnMgr) : Prop where
  wf : ∀ (i : ℕ) (n : Negotiation), m.negs[i]? = some n → n.WellFormed
  late : ∀ (i : ℕ) (n : Negotiation), m.negs[i]? = some n → m.Superseded i n.peer →
    n.Dormant m.answers i ∧
    (n.agent.attached = true → n.agent.closed = true) ∧
    (n.stage ≠ .returned → ∀ pc ∈ m.peers n.peer, pc.session ≠ n.session)
  owned : ∀ (i : ℕ) (n : Negotiation), m.negs[i]? = some n → n.agent.attached = true →
    n.agent.closed = false →
    ∃ pc ∈ m.peers n.peer, pc.agent = some i
  table : ∀ p, ∀ pc ∈ m.peers p, pc.Current retried m p
  chans : ∀ p session i, m.answerChans (p, session) = some i →
    ∃ n, m.negs[i]? = some n ∧ n.peer = p ∧ n.session = session
  silent : ∀ r ∈ m.reports, r.late = false
  sources : ∀ r ∈ m.reports, r.source ≤ m.negs.length

namespace ConnMgr

variable {m m' : ConnMgr} {i j p : ℕ} {n n' : Negotiation}

theorem superseded_iff : m.Superseded i p ↔ ∃ j n, i < j ∧ m.negs[j]? = some n ∧ n.peer = p := by
  rw [Superseded, Slots.mem_drop_succ_iff]
  constructor
  · rintro ⟨j, hij, hj⟩
    rw [List.getElem?_map] at hj
    obtain ⟨n, hn, hp⟩ := Option.map_eq_some_iff.mp hj
    exact ⟨j, n, hij, hn, hp⟩
  · rintro ⟨j, n, hij, hn, rfl⟩
    exact ⟨j, hij, by rw [List.getElem?_map, hn, Option.map_some]⟩

/-- Of two calls for a peer one is superseded. -/
theorem superseded_of_ne (hi : m.negs[i]? = some n) (hj : m.negs[j]? = some n') (hij : j ≠ i)
    (hp : n'.peer = n.peer) (h : ¬ m.Superseded i n.peer) : m.Superseded j n'.peer := by
  rw [superseded_iff] at h ⊢
  have hlt : ¬ i < j := fun hlt => h ⟨j, n', hlt, hj, hp⟩
  exact ⟨i, n, by omega, hi, hp.symm⟩

/-- The last call is superseded by none. -/
theorem not_superseded (h : m.negs.length ≤ i + 1) : ¬ m.Superseded i p := by
  rw [Superseded, List.drop_eq_nil_of_le (by rwa [List.length_map])]
  exact List.not_mem_nil

/-- Entries for the same peers are superseded by each other as before. -/
theorem superseded_congr (h : m'.negs.map (·.peer) = m.negs.map (·.peer)) :
    m'.Superseded i p ↔ m.Superseded i p := by
  rw [Superseded, Superseded, h]

theorem superseded_setNeg (hi : m.negs[i]? = some n) (hp : n'.peer = n.peer) :
    (m.setNeg i n').Superseded j p ↔ m.Superseded j p :=
  superseded_congr (Slots.map_set_eq hi hp)

/-- A call for another peer supersedes none. -/
theorem superseded_concat {q : ℕ} (hq : q ≠ n'.peer) :
    ({ m with negs := m.negs ++ [n'] } : ConnMgr).Superseded i q ↔ m.Superseded i q := by
  rw [superseded_iff, superseded_iff]
  constructor
  · rintro ⟨j, n, hij, hj, rfl⟩
    rcases Slots.getElem?_concat_cases hj with hj | ⟨-, rfl⟩
    · exact ⟨j, n, hij, hj, rfl⟩
    · exact absurd rfl hq
  · rintro ⟨j, n, hij, hj, hp⟩
    exact ⟨j, n, hij, Slots.getElem?_concat_of_some hj n', hp⟩

end ConnMgr

open ConnMgr

namespace SilentInv


variable {retried : ℕ → Prop} {m m' : ConnMgr} {i j p : ℕ} {n n' n₀ : Negotiation}

variable (h : SilentInv retried m)
include h

/-- The first call of an entry is not newer than one that is not superseded. -/
theorem first_le (hnew : ¬ m.Superseded i p) {pc : PeerConn}
    (hpc : m.peers p = some pc) : pc.first ≤ i := by
  obtain ⟨n₀, hn₀, hp₀⟩ := (h.table _ pc hpc).first
  by_contra hlt
  exact hnew (superseded_iff.mpr ⟨pc.first, n₀, by omega, hn₀, hp₀⟩)

omit h in
/-- What reports on a peer in the table without being superseded is its newest call. -/
theorem newest_unique (hnew : ¬ m.Superseded i p)
    (hfrom : (∃ n, m.negs[i]? = some n ∧ n.peer = p) ∨ i = m.negs.length ∧ m.peers p = none)
    {pc : PeerConn} (hpc : m.peers p = some pc) {session : ℕ}
    (hcall : ∃ n, m.negs[j]? = some n ∧ n.peer = p ∧ n.session = session)
    (hnewest : ¬ m.Superseded j p) : i = j := by
  obtain ⟨n', hj, hp', -⟩ := hcall
  rcases hfrom with ⟨n, hi, hp⟩ | ⟨-, hnone⟩
  · by_contra hij
    subst hp
    exact hnewest (hp' ▸ superseded_of_ne hi hj (Ne.symm hij) hp' hnew)
  · cases hnone.symm.trans hpc

/-- **A report that is not superseded**, of a call for the peer or of the manager itself. -/
theorem report (hnew : ¬ m.Superseded i p)
    (hfrom : (∃ n, m.negs[i]? = some n ∧ n.peer = p) ∨ i = m.negs.length ∧ m.peers p = none)
    (path : PathState × Option (Netip.Addr × ℕ)) : SilentInv retried (m.report i p path) where
  wf := h.wf
  late := h.late
  owned := h.owned
  table q pc hpc := by
    obtain ⟨hfirst, hagent, j, hcall, hnewest, hbound, r, hr, hlast⟩ := h.table q pc hpc
    refine ⟨hfirst, hagent, j, hcall, hnewest, ?_, ?_⟩
    all_goals by_cases hqp : q = p
    · subst hqp
      intro r' hr' hp'
      rcases List.mem_cons.mp hr' with rfl | hr'
      · exact (newest_unique hnew hfrom hpc hcall hnewest).le
      · exact hbound r' hr' hp'
    · intro r' hr' hp'
      rcases List.mem_cons.mp hr' with rfl | hr'
      · exact absurd hp'.symm hqp
      · exact hbound r' hr' hp'
    · subst hqp
      exact ⟨_, m.lastReport_report_self .., h.first_le hnew hpc,
        .inl (newest_unique hnew hfrom hpc hcall hnewest)⟩
    · refine ⟨r, (m.lastReport_report_of_ne i hqp path).trans hr, hlast.1, hlast.2.imp_right ?_⟩
      rintro ⟨hretried, hnone⟩
      refine ⟨hretried, fun r' hr' hp' => ?_⟩
      rcases List.mem_cons.mp hr' with rfl | hr'
      · exact absurd hp'.symm hqp
      · exact hnone r' hr' hp'
  chans := h.chans
  silent := by
    intro r hr
    rcases List.mem_cons.mp hr with rfl | hr
    · simpa using hnew
    · exact h.silent r hr
  sources := by
    intro r hr
    rcases List.mem_cons.mp hr with rfl | hr
    · rcases hfrom with ⟨n, hn, -⟩ | ⟨rfl, -⟩
      · exact (List.getElem?_eq_some_iff.mp hn).1.le
      · exact Nat.le_refl _
    · exact h.sources r hr

/-- **The entry of one call changes.** -/
theorem setNeg (hi : m.negs[i]? = some n) (hpeer : n'.peer = n.peer)
    (hsession : n'.session = n.session) (hwf : n'.WellFormed)
    (hopen : n'.agent.attached = true → n'.agent.closed = false →
      n.agent.attached = true ∧ n.agent.closed = false ∨
        ¬ m.Superseded i n.peer ∧ ∃ pc ∈ m.peers n.peer, pc.agent = some i)
    (hreturned : n.stage = .returned → n'.stage = .returned)
    (hdormant : m.Superseded i n.peer → n.Dormant m.answers i → n'.Dormant m.answers i) :
    SilentInv retried (m.setNeg i n') := by
  -- every call is still there
  have hkept : ∀ {j : ℕ} {n₀ : Negotiation}, m.negs[j]? = some n₀ →
      ∃ n₁, (m.setNeg i n').negs[j]? = some n₁ ∧ n₁.peer = n₀.peer ∧ n₁.session = n₀.session := by
    intro j n₀ hj
    by_cases hij : i = j
    · subst hij
      obtain rfl := Option.some.inj (hi.symm.trans hj)
      obtain ⟨hlt, -⟩ := List.getElem?_eq_some_iff.mp hi
      exact ⟨n', List.getElem?_set_self hlt, hpeer, hsession⟩
    · exact ⟨n₀, (List.getElem?_set_ne hij).trans hj, rfl, rfl⟩
  constructor
  · intro j n₁ hj
    rcases Slots.getElem?_set_cases hj with ⟨-, rfl⟩ | ⟨-, hj⟩
    · exact hwf
    · exact h.wf j n₁ hj
  · intro j n₁ hj hsup
    rw [superseded_setNeg hi hpeer] at hsup
    rcases Slots.getElem?_set_cases hj with ⟨rfl, rfl⟩ | ⟨-, hj⟩
    · rw [hpeer] at hsup ⊢
      obtain ⟨hdor, hclosed, hother⟩ := h.late j n hi hsup
      refine ⟨hdormant hsup hdor, ?_, ?_⟩
      · intro hatt
        by_contra hne
        rcases hopen hatt ((Bool.not_eq_true _).mp hne) with ⟨hatt', hopen'⟩ | ⟨hnew, -⟩
        · rw [hclosed hatt'] at hopen'
          cases hopen'
        · exact hnew hsup
      · intro hstage pc hpc
        rw [hsession]
        exact hother (fun hret => hstage (hreturned hret)) pc hpc
    · exact h.late j n₁ hj hsup
  · intro j n₁ hj hatt hop
    rcases Slots.getElem?_set_cases hj with ⟨rfl, rfl⟩ | ⟨-, hj⟩
    · rw [hpeer]
      rcases hopen hatt hop with ⟨hatt', hop'⟩ | ⟨-, howned⟩
      · exact h.owned j n hi hatt' hop'
      · exact howned
    · exact h.owned j n₁ hj hatt hop
  · intro p pc hpc
    obtain ⟨⟨n₀, hn₀, hp₀⟩, hagent, k, ⟨n₂, hn₂, hp₂, hs₂⟩, hnew, hbound, hlast⟩ :=
      h.table p pc hpc
    refine ⟨?_, ?_, k, ?_, ?_, hbound, hlast⟩
    · obtain ⟨n₁, hn₁, hp₁, -⟩ := hkept hn₀
      exact ⟨n₁, hn₁, hp₁.trans hp₀⟩
    · intro a ha
      obtain ⟨n₀, hn₀, hp₀⟩ := hagent a ha
      obtain ⟨n₁, hn₁, hp₁, -⟩ := hkept hn₀
      exact ⟨n₁, hn₁, hp₁.trans hp₀⟩
    · obtain ⟨n₁, hn₁, hp₁, hs₁⟩ := hkept hn₂
      exact ⟨n₁, hn₁, hp₁.trans hp₂, hs₁.trans hs₂⟩
    · rwa [superseded_setNeg hi hpeer]
  · intro p session j hj
    obtain ⟨n₀, hn₀, hp₀, hs₀⟩ := h.chans p session j hj
    obtain ⟨n₁, hn₁, hp₁, hs₁⟩ := hkept hn₀
    exact ⟨n₁, hn₁, hp₁.trans hp₀, hs₁.trans hs₀⟩
  · exact h.silent
  · intro r hr
    exact (h.sources r hr).trans_eq List.length_set.symm

/-- **The table entry of one peer changes.** -/
theorem setPeer {o : Option PeerConn}
    (hlate : ∀ j n, m.negs[j]? = some n → n.peer = p → m.Superseded j p → n.stage ≠ .returned →
      ∀ pc ∈ o, pc.session ≠ n.session)
    (howned : ∀ j n, m.negs[j]? = some n → n.peer = p → n.agent.attached = true →
      n.agent.closed = false → ∃ pc ∈ o, pc.agent = some j)
    (htable : ∀ pc ∈ o, pc.Current retried m p) :
    SilentInv retried { m with peers := Function.update m.peers p o } where
  wf := h.wf
  late j n hj hsup := by
    obtain ⟨hdor, hclosed, hother⟩ := h.late j n hj hsup
    refine ⟨hdor, hclosed, ?_⟩
    intro hstage pc hpc
    by_cases hp : n.peer = p
    · simp only [hp, Function.update_self] at hpc
      exact hlate j n hj hp (hp ▸ hsup) hstage pc hpc
    · simp only [Function.update_of_ne hp] at hpc
      exact hother hstage pc hpc
  owned j n hj hatt hop := by
    by_cases hp : n.peer = p
    · simp only [hp, Function.update_self]
      exact howned j n hj hp hatt hop
    · simp only [Function.update_of_ne hp]
      exact h.owned j n hj hatt hop
  table q pc hpc := by
    by_cases hq : q = p
    · subst hq
      simp only [Function.update_self] at hpc
      exact (htable pc hpc).congr rfl rfl
    · simp only [Function.update_of_ne hq] at hpc
      exact (h.table q pc hpc).congr rfl rfl
  chans := h.chans
  silent := h.silent
  sources := h.sources

/-- **A call begins** for a peer that is not in the table. The earlier ones for the peer are
superseded by it. -/
theorem append (hnone : m.peers p = none) (session : ℕ) (initiator : Bool)
    (hall : ∀ (j : ℕ) (n : Negotiation), m.negs[j]? = some n → n.peer = p → n.Dormant m.answers j ∧
      (n.agent.attached = true → n.agent.closed = true)) :
    SilentInv retried { m with negs := m.negs ++ [.fresh p session initiator] } := by
  have hkept {j : ℕ} {n₀ : Negotiation} (hj : m.negs[j]? = some n₀) :=
    Slots.getElem?_concat_of_some hj (.fresh p session initiator)
  constructor
  · intro j n hj
    rcases Slots.getElem?_concat_cases hj with hj | ⟨-, rfl⟩
    · exact h.wf j n hj
    · exact ⟨by simp [Negotiation.fresh], by simp [Negotiation.fresh],
        by simp [Negotiation.fresh, Stage.isAttached], by simp [Negotiation.fresh]⟩
  · intro j n hj hsup
    rcases Slots.getElem?_concat_cases hj with hj | ⟨rfl, -⟩
    · by_cases hp : n.peer = p
      · obtain ⟨hdor, hclosed⟩ := hall j n hj hp
        refine ⟨hdor, hclosed, fun _ pc hpc => ?_⟩
        rw [hp, hnone] at hpc
        cases hpc
      · exact h.late j n hj ((superseded_concat hp).mp hsup)
    · exact absurd hsup (not_superseded (by simp))
  · intro j n hj hatt hop
    rcases Slots.getElem?_concat_cases hj with hj | ⟨-, rfl⟩
    · exact h.owned j n hj hatt hop
    · cases hatt
  · intro q pc hpc
    have hq : q ≠ p := by
      rintro rfl
      cases hnone.symm.trans hpc
    obtain ⟨⟨n₀, hn₀, hp₀⟩, hagent, k, ⟨n₂, hn₂, hp₂⟩, hnew, hbound, hlast⟩ := h.table q pc hpc
    refine ⟨⟨n₀, hkept hn₀, hp₀⟩, ?_, k, ⟨n₂, hkept hn₂, hp₂⟩, ?_, hbound, hlast⟩
    · intro a ha
      obtain ⟨n₁, hn₁, hp₁⟩ := hagent a ha
      exact ⟨n₁, hkept hn₁, hp₁⟩
    · rwa [superseded_concat hq]
  · intro q session j hj
    obtain ⟨n₀, hn₀, hp₀⟩ := h.chans q session j hj
    exact ⟨n₀, hkept hn₀, hp₀⟩
  · exact h.silent
  · intro r hr
    exact (h.sources r hr).trans (by simp)

/-- Answers come in for calls that are not superseded, or have returned. -/
theorem setAnswers {answers : List ℕ}
    (hsub : ∀ i ∈ answers, i ∈ m.answers ∨ ∀ n, m.negs[i]? = some n → m.Superseded i n.peer →
      n.stage = .returned) : SilentInv retried { m with answers := answers } where
  wf := h.wf
  late i n hi hsup := by
    obtain ⟨⟨hqueue, hstage⟩, hclosed, hother⟩ := h.late i n hi hsup
    refine ⟨⟨hqueue, ?_⟩, hclosed, hother⟩
    intro hatt
    obtain ⟨hinit, hdial, hselected, hanswered, hnot⟩ := hstage hatt
    refine ⟨hinit, hdial, hselected, hanswered, ?_⟩
    intro hmem
    rcases hsub i hmem with hold | hret
    · exact hnot hold
    · rw [hret n hi hsup] at hatt
      cases hatt
  owned := h.owned
  table p pc hpc := (h.table p pc hpc).congr rfl rfl
  chans := h.chans
  silent := h.silent
  sources := h.sources

theorem setChans {chans : ℕ × ℕ → Option ℕ}
    (hsub : ∀ p session i, chans (p, session) = some i → m.answerChans (p, session) = some i ∨
      ∃ n, m.negs[i]? = some n ∧ n.peer = p ∧ n.session = session) :
    SilentInv retried { m with answerChans := chans } where
  wf := h.wf
  late := h.late
  owned := h.owned
  table p pc hpc := (h.table p pc hpc).congr rfl rfl
  chans p session i hi := by
    rcases hsub p session i hi with hold | hnew
    · exact h.chans p session i hold
    · exact hnew
  silent := h.silent
  sources := h.sources

theorem close : SilentInv retried m.close where
  wf := h.wf
  late := h.late
  owned := h.owned
  table p pc hpc := (h.table p pc hpc).congr rfl rfl
  chans := h.chans
  silent := h.silent
  sources := h.sources

/-! ### The manager -/

theorem onNeg {f : Negotiation → ConnMgr}
    (hf : ∀ n, m.negs[i]? = some n → SilentInv retried (f n)) :
    SilentInv retried (m.onNeg i f) := by
  rw [ConnMgr.onNeg]
  cases hi : m.negs[i]? with
  | none => exact h
  | some n => exact hf n hi

theorem closeAgent (hi : m.negs[i]? = some n) : SilentInv retried (m.setNeg i n.closeAgent) := by
  obtain ⟨hcall, hopening, hattached, -⟩ := h.wf i n hi
  exact h.setNeg hi rfl rfl ⟨hcall, hopening, hattached, fun _ _ => rfl⟩ (fun _ hop => by cases hop)
    id fun _ hdor => hdor

theorem teardownLocked (pc : PeerConn) : SilentInv retried (m.teardownLocked pc) := by
  rw [ConnMgr.teardownLocked]
  cases pc.agent with
  | none => exact h
  | some i => exact h.onNeg fun n hi => h.closeAgent hi

/-- **A peer is torn down and taken out of the table.** -/
theorem remove {pc : PeerConn} (hpc : m.peers p = some pc) :
    SilentInv retried ((m.teardownLocked pc).remove p) := by
  have htear := h.teardownLocked pc
  obtain ⟨l, heq, -, hl⟩ := m.teardownLocked_spec pc
  rw [heq] at htear ⊢
  refine htear.setPeer (fun _ _ _ _ _ _ _ hpc' => by cases hpc') ?_ (fun _ hpc' => by cases hpc')
  -- the only agent that may have been open is the one that was closed
  intro j n hj hp hatt hop
  obtain ⟨pc', hpc', hagent⟩ := htear.owned j n hj hatt hop
  rw [hp] at hpc'
  obtain rfl := Option.some.inj (hpc.symm.trans hpc')
  obtain ⟨n₀, -, ⟨-, rfl⟩ | ⟨hne, -⟩⟩ := hl j n hj
  · cases hop
  · exact absurd hagent hne

/-- All calls for the peer are dormant, and those that have not returned have another number. -/
def Vacant (m : ConnMgr) (p session : ℕ) : Prop :=
  ∀ (j : ℕ) (n : Negotiation), m.negs[j]? = some n → n.peer = p →
    n.Dormant m.answers j ∧ (n.stage = .returned ∨ n.session ≠ session)

omit h in
theorem vacant_remove {session : ℕ} (hv : Vacant m p session) (pc : PeerConn) (q : ℕ) :
    Vacant ((m.teardownLocked pc).remove q) p session := by
  obtain ⟨l, heq, -, hl⟩ := m.teardownLocked_spec pc
  rw [heq]
  intro j n hj hp
  obtain ⟨n₀, hj₀, ⟨-, rfl⟩ | ⟨-, rfl⟩⟩ := hl j n hj
  · exact hv j n₀ hj₀ hp
  · exact hv j n hj₀ hp

/-- **A session is started for a peer that is not in the table.** -/
theorem install {session : ℕ} (hnone : m.peers p = none) (hv : Vacant m p session)
    (initiator : Bool) : SilentInv retried (m.install p session initiator) := by
  have happ : SilentInv retried { m with negs := m.negs ++ [.fresh p session initiator] } := by
    refine h.append hnone session initiator ?_
    intro j n hj hp
    refine ⟨(hv j n hj hp).1, ?_⟩
    intro hatt
    by_contra hop
    obtain ⟨pc, hpc, -⟩ := h.owned j n hj hatt ((Bool.not_eq_true _).mp hop)
    rw [hp, hnone] at hpc
    cases hpc
  have hnew : ¬ ({ m with negs := m.negs ++ [.fresh p session initiator] } : ConnMgr).Superseded
      m.negs.length p := not_superseded (by simp)
  have hrep := happ.report hnew (.inl ⟨_, List.getElem?_concat_length, rfl⟩) (.connecting, none)
  refine hrep.setPeer ?_ ?_ ?_
  · rintro j n hj hp hsup hstage pc ⟨⟩ hsession
    rcases Slots.getElem?_concat_cases hj with hj | ⟨rfl, -⟩
    · rcases (hv j n hj hp).2 with hret | hne
      · exact hstage hret
      · exact hne hsession.symm
    · exact hnew hsup
  · intro j n hj hp hatt hop
    obtain ⟨pc, hpc, -⟩ := hrep.owned j n hj hatt hop
    rw [hp] at hpc
    cases hnone.symm.trans hpc
  · rintro pc ⟨⟩
    refine ⟨⟨_, List.getElem?_concat_length, rfl⟩, (fun _ ha => by cases ha), m.negs.length,
      ⟨_, List.getElem?_concat_length, rfl, rfl⟩, hnew, ?_,
      ⟨_, lastReport_report_self .., Nat.le_refl _, .inl rfl⟩⟩
    intro r hr _
    rcases List.mem_cons.mp hr with rfl | hr
    · exact Nat.le_refl _
    · exact h.sources r hr

/-- What the manager itself reports is not superseded. -/
theorem report_own (hnone : m.peers p = none) (hi : i = m.negs.length)
    (path : PathState × Option (Netip.Addr × ℕ)) : SilentInv retried (m.report i p path) :=
  h.report (not_superseded (by omega)) (.inr ⟨hi, hnone⟩) path

/-! ### The calls -/

/-- A call ends, with its agent closed if it was attached. -/
theorem stop (hi : m.negs[i]? = some n) (hpeer : n'.peer = n.peer)
    (hsession : n'.session = n.session) (hqueue : n'.agent.queue = n.agent.queue)
    (hcallbacks : n'.agent.callbacks = true → n'.agent.attached = true)
    (hclosed : n'.agent.attached = true → n'.agent.closed = true)
    (hstage : n'.stage = .backoff ∨ n'.stage = .returned)
    (hreturned : n.stage ≠ .returned) : SilentInv retried (m.setNeg i n') := by
  have hopening : n'.stage.isOpening = false := by
    rcases hstage with hs | hs <;> rw [hs] <;> rfl
  have hattached : n'.stage.isAttached = false := by
    rcases hstage with hs | hs <;> rw [hs] <;> rfl
  refine h.setNeg hi hpeer hsession ?_ ?_ (fun hret => absurd hret hreturned) ?_
  · exact ⟨hcallbacks, by simp [hopening], by simp [hattached], fun _ => hclosed⟩
  · intro hatt hop
    rw [hclosed hatt] at hop
    cases hop
  · intro _ hdor
    exact ⟨by simpa [hqueue] using hdor.1, by simp [hattached]⟩

omit h in
theorem stage_giveUp (n : Negotiation) :
    n.giveUp.stage = .backoff ∨ n.giveUp.stage = .returned := by
  simp only [Negotiation.giveUp]
  split_ifs
  · exact .inl rfl
  · exact .inr rfl

theorem giveUp (hi : m.negs[i]? = some n) (hopening : n.stage.isOpening = true) :
    SilentInv retried (m.setNeg i n.giveUp) := by
  have hwf := h.wf i n hi
  refine h.stop hi rfl rfl rfl hwf.callbacks ?_ (stage_giveUp n) ?_
  · intro hatt
    cases (hwf.opening hopening).symm.trans hatt
  · intro hret
    rw [hret] at hopening
    cases hopening

theorem fail (hi : m.negs[i]? = some n) (hreturned : n.stage ≠ .returned) :
    SilentInv retried (m.fail i n) :=
  h.stop hi rfl rfl rfl (h.wf i n hi).callbacks (fun _ => rfl) (stage_giveUp n.closeAgent) hreturned

theorem goto (hi : m.negs[i]? = some n) {stage : Stage}
    (hopening : stage.isOpening = true → n.stage.isOpening = true)
    (hattached : stage.isAttached = true → n.stage.isAttached = true)
    (hbackoff : stage ≠ .backoff) (hreturned : n.stage ≠ .returned)
    (hdormant : m.Superseded i n.peer → n.Dormant m.answers i → stage.isAttached = true →
      stage ≠ .dial ∧ stage ≠ .selected) : SilentInv retried (m.goto i n stage) := by
  have hwf := h.wf i n hi
  refine h.setNeg hi rfl rfl ?_ (fun hatt hop => .inl ⟨hatt, hop⟩)
    (fun hret => absurd hret hreturned) ?_
  · exact ⟨hwf.callbacks, fun ho => hwf.opening (hopening ho),
      fun ha => hwf.attached (hattached ha), fun hb => absurd hb hbackoff⟩
  · intro hsup hdor
    refine ⟨hdor.1, fun ha => ?_⟩
    obtain ⟨hinit, -, -, hanswered, hnot⟩ := hdor.2 (hattached ha)
    obtain ⟨hdial, hselected⟩ := hdormant hsup hdor ha
    exact ⟨hinit, hdial, hselected, hanswered, hnot⟩

theorem dropChan (n : Negotiation) : SilentInv retried (m.dropChan n) := by
  rw [ConnMgr.dropChan]
  split_ifs
  · refine h.setChans ?_
    intro p session i hi
    rw [Function.update_apply] at hi
    split_ifs at hi
    exact .inl hi
  · exact h

theorem makeChan (hi : m.negs[i]? = some n) : SilentInv retried (m.makeChan i n) := by
  rw [ConnMgr.makeChan]
  split_ifs
  · refine h.setChans ?_
    intro p session j hj
    rw [Function.update_apply] at hj
    split_ifs at hj with hkey
    · obtain rfl := Option.some.inj hj
      obtain ⟨hp, hs⟩ := Prod.mk.inj hkey
      exact .inr ⟨n, hi, hp.symm, hs.symm⟩
    · exact .inl hj
  · exact h

/-- A call fails that may have a channel for its answer. -/
theorem dropChan_fail (hi : m.negs[i]? = some n)
    (hreturned : n.stage ≠ .returned) : SilentInv retried ((m.dropChan n).fail i n) :=
  (h.dropChan n).fail ((congrArg (·[i]?) (negs_dropChan _ n)).trans hi) hreturned

/-- From one stage before the agent is attached to another. -/
theorem goto_opening (hi : m.negs[i]? = some n) {stage : Stage}
    (hfrom : n.stage.isOpening = true) (hto : stage.isOpening = true) :
    SilentInv retried (m.goto i n stage) := by
  have hattached : stage.isAttached = false := Stage.isAttached_of_isOpening hto
  refine h.goto hi (fun _ => hfrom) ?_ ?_ ?_ ?_
  · intro ha
    cases hattached.symm.trans ha
  · rintro rfl
    cases hto
  · intro hret
    rw [hret] at hfrom
    cases hfrom
  · intro _ _ ha
    cases hattached.symm.trans ha

/-- From one stage with the agent attached to another. -/
theorem goto_attached (hi : m.negs[i]? = some n) {stage : Stage}
    (hfrom : n.stage.isAttached = true) (hto : stage.isAttached = true)
    (hdormant : m.Superseded i n.peer → n.Dormant m.answers i →
      stage ≠ .dial ∧ stage ≠ .selected) : SilentInv retried (m.goto i n stage) := by
  refine h.goto hi ?_ (fun _ => hfrom) ?_ ?_ fun hsup hdor _ => hdormant hsup hdor
  · intro ho
    cases (Stage.isAttached_of_isOpening ho).symm.trans hto
  · rintro rfl
    cases hto
  · intro hret
    rw [hret] at hfrom
    cases hfrom

/-- **The agent is attached only while the session is that of the peer.** -/
theorem attach (hi : m.negs[i]? = some n) (hstage : n.stage = .attach) :
    SilentInv retried (m.attach i n) := by
  have hwf := h.wf i n hi
  rw [ConnMgr.attach]
  cases hpc : (m.peers n.peer).filter (·.session = n.session) with
  | none =>
    exact h.stop hi rfl rfl rfl hwf.callbacks (fun _ => rfl) (.inr rfl) (by simp [hstage])
  | some pc =>
    obtain ⟨hpc, hsession⟩ := Option.filter_eq_some_iff.mp hpc
    have hnew : ¬ m.Superseded i n.peer := by
      intro hsup
      exact (h.late i n hi hsup).2.2 (by simp [hstage]) pc hpc (by simpa using hsession)
    have htable := h.table n.peer pc hpc
    have hpeer : SilentInv retried { m with
        peers := Function.update m.peers n.peer (some { pc with agent := some i }) } := by
      refine h.setPeer ?_ ?_ ?_
      · rintro j n' hj hp hsup hret _ ⟨⟩
        exact (h.late j n' hj (hp ▸ hsup)).2.2 hret pc (hp ▸ hpc)
      · intro j n' hj hp hatt hop
        -- another agent that is open would belong to the newest call, which is this one
        by_cases hji : j = i
        · subst hji
          obtain rfl := Option.some.inj (hi.symm.trans hj)
          cases (hwf.opening (by rw [hstage]; rfl)).symm.trans hatt
        · have hsup := superseded_of_ne hi hj hji hp hnew
          cases ((h.late j n' hj hsup).2.1 hatt).symm.trans hop
      · rintro _ ⟨⟩
        obtain ⟨k, hcall, hnewest, hbound, hlast⟩ := htable.recorded
        exact ⟨htable.first, by rintro _ ⟨⟩; exact ⟨n, hi, rfl⟩, k, hcall, hnewest, hbound, hlast⟩
    refine hpeer.setNeg hi rfl rfl ?_ ?_ (by simp [hstage]) (fun hsup => absurd hsup hnew)
    · exact ⟨fun _ => rfl, (fun ho => by cases ho), fun _ => rfl, (fun hb => by cases hb)⟩
    · intro _ _
      exact .inr ⟨hnew, _, Function.update_self .., rfl⟩

/-- **The next attempt of an initiator.** -/
theorem retry (hi : m.negs[i]? = some n) (hstage : n.stage = .backoff) {now : ℕ}
    (hall : ¬ m.closed = true → (m.peers n.peer).any (·.session = n.session) = true →
      retried n.peer ∧ ∀ (j : ℕ) (n' : Negotiation), m.negs[j]? = some n' → n'.peer = n.peer →
        n'.Dormant m.answers j ∧ (n'.stage = .returned ∨ j = i ∨ n'.session ≠ now)) :
    SilentInv retried (m.retry i n now) := by
  have hreturn : SilentInv retried (m.goto i n .returned) :=
    h.goto hi (by simp [Stage.isOpening]) (by simp [Stage.isAttached]) (by simp) (by simp [hstage])
      (by simp [Stage.isAttached])
  rw [ConnMgr.retry]
  cases hpc : (m.peers n.peer).filter fun pc => pc.session = n.session ∧ ¬ m.closed with
  | none => exact hreturn
  | some pc =>
    obtain ⟨hpc, hcur⟩ := Option.filter_eq_some_iff.mp hpc
    obtain ⟨hsession, hopen⟩ := of_decide_eq_true hcur
    have hnew : ¬ m.Superseded i n.peer := by
      intro hsup
      exact (h.late i n hi hsup).2.2 (by simp [hstage]) pc hpc hsession
    obtain ⟨hretried, hall'⟩ := hall hopen (by rw [hpc]; simpa using hsession)
    -- what holds of the calls for the peer once this one has returned
    have hothers : ∀ (j : ℕ) (n' : Negotiation), (m.goto i n .returned).negs[j]? = some n' →
        n'.peer = n.peer → n'.Dormant m.answers j ∧
          (n'.agent.attached = true → n'.agent.closed = true) ∧
          (n'.stage ≠ .returned → n'.session ≠ now) := by
      intro j n' hj hp
      rcases Slots.getElem?_set_cases hj with ⟨rfl, rfl⟩ | ⟨hji, hj⟩
      · have hdor := (hall' j n hi rfl).1
        exact ⟨⟨hdor.1, by simp [Stage.isAttached]⟩, (h.wf j n hi).backoff hstage, by simp⟩
      · obtain ⟨-, hclosed, -⟩ := h.late j n' hj (superseded_of_ne hi hj hji hp hnew)
        obtain ⟨hdor, hnum⟩ := hall' j n' hj hp
        exact ⟨hdor, hclosed, fun hret => (hnum.resolve_left hret).resolve_left hji⟩
    -- the entry is taken out, the call begins, and the entry comes back with its session
    have hclear := hreturn.setPeer (p := n.peer) (o := none)
      (fun _ _ _ _ _ _ _ hpc' => by cases hpc')
      (fun j n' hj hp hatt hop => by cases ((hothers j n' hj hp).2.1 hatt).symm.trans hop)
      (fun _ hpc' => by cases hpc')
    have happ := hclear.append (Function.update_self ..) now true
      fun j n' hj hp => ⟨(hothers j n' hj hp).1, (hothers j n' hj hp).2.1⟩
    have hset := happ.setPeer (p := n.peer) (o := some { pc with session := now }) ?_ ?_ ?_
    · rw [Function.update_idem] at hset
      exact hset
    · rintro j n' hj hp hsup hret _ ⟨⟩
      rcases Slots.getElem?_concat_cases hj with hj | ⟨rfl, -⟩
      · exact Ne.symm ((hothers j n' hj hp).2.2 hret)
      · exact absurd hsup (not_superseded (by simp))
    · intro j n' hj hp hatt hop
      rcases Slots.getElem?_concat_cases hj with hj | ⟨-, rfl⟩
      · cases ((hothers j n' hj hp).2.1 hatt).symm.trans hop
      · cases hatt
    · rintro _ ⟨⟩
      obtain ⟨⟨n₁, hn₁, hp₁⟩, hagent, k, ⟨n₂, hn₂, -⟩, -, hbound, r, hr, hle, -⟩ :=
        hreturn.table n.peer pc hpc
      obtain ⟨hlt, -⟩ := List.getElem?_eq_some_iff.mp hn₂
      refine ⟨⟨n₁, Slots.getElem?_concat_of_some hn₁ _, hp₁⟩, ?_, _,
        ⟨_, List.getElem?_concat_length, rfl, rfl⟩, not_superseded (by simp), ?_,
        ⟨r, hr, hle, .inr ⟨hretried, ?_⟩⟩⟩
      · intro a ha
        obtain ⟨n₀, hn₀, hp₀⟩ := hagent a ha
        exact ⟨n₀, Slots.getElem?_concat_of_some hn₀ _, hp₀⟩
      · intro r' hr' hp'
        exact (hbound r' hr' hp').trans hlt.le
      · intro r' hr' hp'
        exact ((hbound r' hr' hp').trans_lt hlt).ne

/-- An event fires only while the agent is open. -/
theorem raise (hi : m.negs[i]? = some n) (e : AgentEvent) : SilentInv retried (m.raise i n e) := by
  have hwf := h.wf i n hi
  rw [ConnMgr.raise]
  split_ifs with hopen
  · refine h.setNeg hi rfl rfl ⟨hwf.callbacks, hwf.opening, hwf.attached, hwf.backoff⟩
      (fun hatt hop => .inl ⟨hatt, hop⟩) id ?_
    intro hsup _
    exact absurd ((h.late i n hi hsup).2.1 (hwf.callbacks hopen.1)) hopen.2
  · exact h

/-- A callback reports only if the call is not superseded. -/
theorem callback (hi : m.negs[i]? = some n) (k : ℕ) : SilentInv retried (m.callback i n k) := by
  have hwf := h.wf i n hi
  rw [ConnMgr.callback]
  cases hk : n.agent.queue[k]? with
  | none => exact h
  | some e =>
    have hset : SilentInv retried (m.setNeg i (n.dequeue k)) := by
      refine h.setNeg hi rfl rfl ⟨hwf.callbacks, hwf.opening, hwf.attached, hwf.backoff⟩
        (fun hatt hop => .inl ⟨hatt, hop⟩) id ?_
      intro _ hdor
      exact ⟨fun e he => hdor.1 e (List.mem_of_mem_eraseIdx he), hdor.2⟩
    cases hpath : e.path with
    | none => simpa only [hpath] using hset
    | some path =>
      have hnew : ¬ (m.setNeg i (n.dequeue k)).Superseded i n.peer := by
        rw [superseded_setNeg hi (show (n.dequeue k).peer = n.peer from rfl)]
        intro hsup
        have hnone := (h.late i n hi hsup).1.1 e (List.mem_of_getElem? hk)
        cases hnone.symm.trans hpath
      simpa only [hpath] using hset.report hnew
        (.inl ⟨_, List.getElem?_set_self (List.getElem?_eq_some_iff.mp hi).1, rfl⟩) path

/-- **One step of a call.** -/
theorem work (hi : m.negs[i]? = some n) (out : Outcome)
    (hall : n.stage = .backoff → ¬ m.closed = true →
      (m.peers n.peer).any (·.session = n.session) = true →
      retried n.peer ∧ ∀ (j : ℕ) (n' : Negotiation), m.negs[j]? = some n' → n'.peer = n.peer →
        n'.Dormant m.answers j ∧ (n'.stage = .returned ∨ j = i ∨ n'.session ≠ out.now)) :
    SilentInv retried (m.work i n out) := by
  have hwf := h.wf i n hi
  have hdormant : m.Superseded i n.peer → n.Dormant m.answers i :=
    fun hsup => (h.late i n hi hsup).1
  rw [ConnMgr.work]
  cases hstage : n.stage with
  | start =>
    refine h.goto hi ?_ ?_ ?_ (by simp [hstage]) ?_ <;>
      split_ifs <;> simp [Stage.isOpening, Stage.isAttached, hstage]
  | bind =>
    simp only
    split_ifs
    · exact h.goto_opening hi (by rw [hstage]; rfl) rfl
    · exact h.giveUp hi (by rw [hstage]; rfl)
  | newAgent =>
    simp only
    split_ifs
    · exact h.goto_opening hi (by rw [hstage]; rfl) rfl
    · exact h.giveUp hi (by rw [hstage]; rfl)
  | attach => exact h.attach hi hstage
  | credentials =>
    simp only
    split_ifs
    · have hatt := hwf.attached (by rw [hstage]; rfl)
      refine h.setNeg hi rfl rfl ⟨fun _ => hatt, (fun ho => by cases ho), fun _ => hatt,
        (fun hb => by cases hb)⟩ (fun hatt hop => .inl ⟨hatt, hop⟩) (by simp [hstage]) ?_
      intro _ hdor
      obtain ⟨hinit, -, -, hanswered, hnot⟩ := hdor.2 (by rw [hstage]; rfl)
      exact ⟨hdor.1, fun _ => ⟨hinit, by simp, by simp, hanswered, hnot⟩⟩
    · exact h.fail hi (by simp [hstage])
  | signal =>
    have hchan := h.makeChan hi
    have hi' := (congrArg (·[i]?) (m.negs_makeChan i n)).trans hi
    simp only
    split_ifs
    · exact hchan.goto_attached hi' (by rw [hstage]; rfl) rfl (by simp)
    · exact hchan.dropChan_fail hi' (by simp [hstage])
  | gather =>
    simp only
    split_ifs with hok hinit
    · exact h.goto_attached hi (by rw [hstage]; rfl) rfl (by simp)
    · refine h.goto_attached hi (by rw [hstage]; rfl) rfl ?_
      intro _ hdor
      exact absurd (hdor.2 (by rw [hstage]; rfl)).1 hinit
    · exact h.dropChan_fail hi (by simp [hstage])
  | await =>
    simp only
    split_ifs with hok hans
    · refine h.goto_attached hi (by rw [hstage]; rfl) rfl ?_
      intro _ hdor
      have hnot := (hdor.2 (by rw [hstage]; rfl)).2.2.2.1
      cases hnot.symm.trans hans
    · exact h
    · exact h.dropChan_fail hi (by simp [hstage])
  | dial =>
    have hnew : ¬ m.Superseded i n.peer := by
      intro hsup
      exact ((hdormant hsup).2 (by rw [hstage]; rfl)).2.1 hstage
    simp only
    split_ifs
    · exact h.goto_attached hi (by rw [hstage]; rfl) rfl fun hsup => absurd hsup hnew
    · exact (h.report hnew (.inl ⟨n, hi, rfl⟩) _).dropChan_fail hi (by simp [hstage])
  | selected =>
    have hnew : ¬ m.Superseded i n.peer := by
      intro hsup
      exact ((hdormant hsup).2 (by rw [hstage]; rfl)).2.2.1 hstage
    have hend : ∀ m' : ConnMgr, SilentInv retried m' → m'.negs = m.negs →
        SilentInv retried ((m'.dropChan n).goto i n .returned) := by
      intro m' h' hnegs
      refine (h'.dropChan n).goto ?_ (by simp [Stage.isOpening]) (by simp [Stage.isAttached])
        (by simp) (by simp [hstage]) (by simp [Stage.isAttached])
      rw [negs_dropChan, hnegs, hi]
    cases out.pair.bind fun p => remoteEndpoint p.1 p.2 with
    | none => exact hend m h rfl
    | some ap => exact hend _ (h.report hnew (.inl ⟨n, hi, rfl⟩) _) rfl
  | backoff => exact h.retry hi hstage (hall hstage)
  | returned => exact h

theorem answer (k : ℕ) : SilentInv retried (m.answer k) := by
  rw [ConnMgr.answer]
  cases hk : m.answers[k]? with
  | none => exact h
  | some i =>
    have hans : SilentInv retried (m.onNeg i fun n => m.setNeg i { n with answered := true }) := by
      refine h.onNeg ?_
      intro n hi
      have hwf := h.wf i n hi
      refine h.setNeg hi rfl rfl ⟨hwf.callbacks, hwf.opening, hwf.attached, hwf.backoff⟩
        (fun hatt hop => .inl ⟨hatt, hop⟩) id ?_
      -- no answer is on its way to a dormant call
      intro _ hdor
      exact ⟨hdor.1, fun hatt => absurd (List.mem_of_getElem? hk) (hdor.2 hatt).2.2.2.2⟩
    refine hans.setAnswers ?_
    intro j hj
    left
    have hsame : (m.onNeg i fun n => m.setNeg i { n with answered := true }).answers =
        m.answers := by
      rw [ConnMgr.onNeg]
      cases m.negs[i]? <;> rfl
    rw [hsame]
    exact List.mem_of_mem_eraseIdx hj

theorem handleAnswer (p session : ℕ) : SilentInv retried (m.handleAnswer p session) := by
  rw [ConnMgr.handleAnswer]
  cases hpc : m.peers p with
  | none => exact h
  | some pc =>
    simp only
    split_ifs with hsession
    · refine h.setAnswers ?_
      intro i hi
      rcases List.mem_append.mp hi with hold | hnew
      · exact .inl hold
      · -- a call that is superseded and has not returned has another session
        right
        intro n hn hsup
        obtain ⟨n', hn', hp', hs'⟩ := h.chans p session i (Option.mem_toList.mp hnew)
        obtain rfl := Option.some.inj (hn.symm.trans hn')
        by_contra hret
        exact (h.late i n hn hsup).2.2 hret pc (hp' ▸ hpc) (hsession.trans hs'.symm)
    · exact h

omit h in
/-- The condition, for the session that the step starts. -/
theorem vacant_of_replaceable {op : MagicOp} {session : ℕ} (hop : m.starts op = some (p, session))
    (hworker : worker op = none) (hr : Replaceable m op) : Vacant m p session := by
  intro j n hj hp
  obtain ⟨hdor, hnum⟩ := hr _ hop (n, j) (List.mem_zipIdx_iff_getElem?.mpr hj) hp
  refine ⟨hdor, ?_⟩
  rcases hnum with hret | hw | hne
  · exact .inl hret
  · rw [hworker] at hw
    cases hw
  · exact .inr hne

theorem setPeersGone (p : ℕ) : SilentInv retried (m.setPeersGone p) := by
  rw [ConnMgr.setPeersGone]
  split_ifs
  · exact h
  · cases hpc : m.peers p with
    | none => exact h
    | some pc =>
      refine (h.remove hpc).report_own (Function.update_self ..) ?_ _
      obtain ⟨l, heq, hlen, -⟩ := m.teardownLocked_spec pc
      rw [heq]
      exact hlen.symm

theorem closePeer (p : ℕ) : SilentInv retried (m.closePeer p) := by
  rw [ConnMgr.closePeer]
  split_ifs
  · cases hpc : m.peers p with
    | none => exact h
    | some pc => exact h.remove hpc
  · exact h

theorem setPeersNew {p now : ℕ} (hr : Replaceable m (.setPeersNew p now)) :
    SilentInv retried (m.setPeersNew p now) := by
  rw [ConnMgr.setPeersNew]
  split_ifs with hskip
  · exact h
  · have hnone : m.peers p = none := by
      simpa using (not_or.mp (not_or.mp hskip).2).1
    have hstarts : m.starts (.setPeersNew p now) = some (p, now) := if_neg hskip
    exact h.install hnone (vacant_of_replaceable hstarts rfl hr) true

theorem restart {p now : ℕ} (hr : Replaceable m (.restart p now)) :
    SilentInv retried (m.restart p now) := by
  rw [ConnMgr.restart]
  split_ifs with hclosed
  · exact h
  · cases hpc : m.peers p with
    | none => exact h
    | some pc =>
      have hself : ((m.teardownLocked pc).remove p).selfNode = m.selfNode := by
        obtain ⟨l, heq, -⟩ := m.teardownLocked_spec pc
        rw [heq]
        rfl
      simp only [hself]
      split_ifs with hlt
      · have hstarts : m.starts (.restart p now) = some (p, now) := by
          simp [starts, hclosed, hpc, hlt]
        exact (h.remove hpc).install (Function.update_self ..)
          (vacant_remove (vacant_of_replaceable hstarts rfl hr) pc p) true
      · exact (h.remove hpc).report_own (Function.update_self ..) rfl _

theorem handleOffer {p session : ℕ} (hr : Replaceable m (.handleOffer p session)) :
    SilentInv retried (m.handleOffer p session) := by
  rw [ConnMgr.handleOffer]
  split_ifs with hclosed
  · exact h
  · cases hpc : m.peers p with
    | none =>
      have hstarts : m.starts (.handleOffer p session) = some (p, session) := by
        simp [starts, hclosed, hpc]
      exact h.install hpc (vacant_of_replaceable hstarts rfl hr) false
    | some pc =>
      simp only
      split_ifs with hold
      · exact h
      · have hstarts : m.starts (.handleOffer p session) = some (p, session) := by
          simp [starts, hclosed, hpc, Nat.lt_of_not_le hold]
        exact (h.remove hpc).install (Function.update_self ..)
          (vacant_remove (vacant_of_replaceable hstarts rfl hr) pc p) false

/-- **One step.** -/
theorem step (op : MagicOp) (hr : Replaceable m op)
    (hretries : RetriesOnly retried m op) : SilentInv retried (m.step op) := by
  cases op with
  | setPeersGone p => exact h.setPeersGone p
  | setPeersNew p now => exact h.setPeersNew hr
  | restart p now => exact h.restart hr
  | close => exact h.close
  | closePeer p => exact h.closePeer p
  | handleOffer p session => exact h.handleOffer hr
  | handleAnswer p session => exact h.handleAnswer p session
  | answer k => exact h.answer k
  | work i out =>
    refine h.onNeg ?_
    intro n hi
    refine h.work hi out ?_
    intro hstage hopen hcurrent
    have hstarts : m.starts (.work i out) = some (n.peer, out.now) := by
      simp [starts, hi, hstage, hopen, hcurrent]
    refine ⟨hretries rfl _ hstarts, fun j n' hj hp => ?_⟩
    obtain ⟨hdor, hnum⟩ := hr _ hstarts (n', j) (List.mem_zipIdx_iff_getElem?.mpr hj) hp
    refine ⟨hdor, hnum.imp_right (Or.imp_left ?_)⟩
    intro hw
    exact (Option.some.inj hw).symm
  | raise i e => exact h.onNeg fun n hi => h.raise hi e
  | callback i k => exact h.onNeg fun n hi => h.callback hi k


end SilentInv

theorem silentInv_new (retried : ℕ → Prop) (selfNode : ℕ) :
    SilentInv retried (ConnMgr.new selfNode) where
  wf i n hi := by simp [ConnMgr.new] at hi
  late i n hi := by simp [ConnMgr.new] at hi
  owned i n hi := by simp [ConnMgr.new] at hi
  table p pc hpc := by cases hpc
  chans p session i hi := by cases hi
  silent r hr := by cases hr
  sources r hr := by cases hr

/-- **The invariant holds after every run** that keeps to the condition. -/
theorem silentInv_run (retried : ℕ → Prop) {selfNode : ℕ} {ops : List MagicOp}
    (h : Along ConnMgr.step Replaceable (.new selfNode) ops)
    (hretries : Along ConnMgr.step (RetriesOnly retried) (.new selfNode) ops) :
    SilentInv retried (run ConnMgr.step (.new selfNode) ops) :=
  run_induction_along (silentInv_new retried selfNode)
    (fun _ op hm hr => hm.step op hr.1 hr.2) (h.and hretries)

/-! ### The record of the daemon -/

/-- The daemon after all that was reported, the latest first. -/
def recordReports (d : Daemon) (rs : List Report) : Daemon :=
  rs.foldr (fun r d => (d.onPathUpdate r.update).2) d

/-- A row after a path update is that of the update, or the row that was there. -/
theorem mem_onPathUpdate {d : Daemon} {u : PathUpdate} {pi : PeerInfo}
    (h : pi ∈ (d.onPathUpdate u).2.peers) :
    pi.nodeID = u.nodeID ∧ pi.path = u.state ∧ pi.pathEP = u.endpoint ∨
      pi.nodeID ≠ u.nodeID ∧ pi ∈ d.peers := by
  rw [Daemon.onPathUpdate] at h
  split at h
  · next hnone =>
    have hne := List.find?_eq_none.mp hnone pi h
    exact .inr ⟨by simpa using hne, h⟩
  · obtain ⟨pi₀, hmem, rfl⟩ := List.mem_map.mp h
    split_ifs with hid
    · exact .inl ⟨hid, rfl, rfl⟩
    · exact .inr ⟨hid, hmem⟩

/-- **The daemon has the path that was reported last.** -/
theorem path_recordReports {d : Daemon} {rs : List Report} {p : ℕ} {r : Report}
    (hr : rs.find? (·.update.nodeID = p) = some r) :
    ∀ pi ∈ (recordReports d rs).peers, pi.nodeID = p →
      pi.path = r.update.state ∧ pi.pathEP = r.update.endpoint := by
  induction rs with
  | nil => cases hr
  | cons r₀ rs ih =>
    intro pi hpi hp
    rcases mem_onPathUpdate hpi with ⟨hid, hpath⟩ | ⟨hid, hold⟩
    · -- the latest report is about this peer
      rw [List.find?_cons_of_pos (by simp [← hid, hp])] at hr
      obtain rfl := Option.some.inj hr
      exact hpath
    · rw [List.find?_cons_of_neg (by simpa [hp] using Ne.symm hid)] at hr
      exact ih hr pi hold hp

/-- **No report comes from a superseded session**, in every run in which a session is started only
once the earlier calls for the peer are dormant. The session of an entry in the table is that of a
call `i`, and the daemon's record of the peer comes from this call if `runInitiator` makes no second
attempt for the peer, or if the call has reported anything. In between the record is that of an
earlier attempt for the same entry, as the next attempt of `runInitiator` begins without a report.
-/
theorem silent_run {selfNode : ℕ} {ops : List MagicOp}
    (h : Along ConnMgr.step Replaceable (.new selfNode) ops) (d : Daemon) :
    (∀ r ∈ (run ConnMgr.step (.new selfNode) ops).reports, r.late = false) ∧
      ∀ p, ∀ pc ∈ (run ConnMgr.step (.new selfNode) ops).peers p,
        ∃ i n, (run ConnMgr.step (.new selfNode) ops).negs[i]? = some n ∧ n.peer = p ∧
          n.session = pc.session ∧
          ∃ r ∈ (run ConnMgr.step (.new selfNode) ops).lastReport p, pc.first ≤ r.source ∧
            (Along ConnMgr.step (RetriesOnly (· ≠ p)) (.new selfNode) ops ∨
                (∃ r' ∈ (run ConnMgr.step (.new selfNode) ops).reports,
                  r'.update.nodeID = p ∧ r'.source = i) → r.source = i) ∧
            ∀ pi ∈ (recordReports d (run ConnMgr.step (.new selfNode) ops).reports).peers,
              pi.nodeID = p → pi.path = r.update.state ∧ pi.pathEP = r.update.endpoint := by
  have hinv := silentInv_run (fun _ => True) h
    (along_of_forall (fun _ _ _ _ _ _ => trivial) _)
  refine ⟨hinv.silent, ?_⟩
  intro p pc hpc
  obtain ⟨-, -, i, ⟨n, hn, hp, hs⟩, hnew, -, r, hr, hle, hlast⟩ := hinv.table p pc hpc
  refine ⟨i, n, hn, hp, hs, r, hr, hle, ?_, path_recordReports hr⟩
  rintro (hretries | ⟨r', hr', hp', hi'⟩)
  · -- the newest call is the same one, and here it is no further attempt
    obtain ⟨-, -, j, ⟨n', hn', hp', -⟩, hnewest, -, r₀, hr₀, -, hlast₀⟩ :=
      (silentInv_run _ h hretries).table p pc hpc
    obtain rfl := Option.some.inj (hr.symm.trans hr₀)
    rw [hlast₀.resolve_right fun hne => hne.1 rfl]
    exact SilentInv.newest_unique hnewest (.inl ⟨n', hn', hp'⟩) hpc ⟨n, hn, hp, hs⟩ hnew
  · exact hlast.resolve_right fun hne => hne.2 r' hr' hp' hi'

/-! ### A session that is replaced in `Dial` -/

/-- A daemon without peers. -/
def noPeers : Daemon := ⟨[], List.nodup_nil, "", 0, false⟩

/-- The first attempt gets no answer, the second one is established, and then the node roams. -/
def retryThenRoam : List MagicOp :=
  [.setPeersNew 2 10] ++ works 0 7 ++ [.work 0 (failure 0), .work 0 (failure 20)] ++
    upToDial 1 20 ++ works 1 2 ++ [.restart 2 30] ++ works 2 3

theorem silent_retry_restart :
    List.Forall (·.late = false) (run ConnMgr.step (.new 1) retryThenRoam).reports ∧
      ∃ r ∈ (run ConnMgr.step (.new 1) retryThenRoam).lastReport 2, 2 ≤ r.source := by
  have hrun : Along ConnMgr.step Replaceable (.new 1) retryThenRoam := by decide +kernel
  obtain ⟨hsilent, hrecord⟩ := silent_run hrun noPeers
  obtain ⟨-, -, -, -, -, r, hr, hle, -⟩ := hrecord 2 ⟨30, none, 2⟩ (by decide +kernel)
  exact ⟨List.forall_iff_forall_mem.mpr hsilent, r, hr, hle⟩

/-- **The end of a superseded session hides a direct path.** The node roams while the first session
is in `Dial`. The second one is established, and then `Dial` of the first one returns an error. -/
theorem dial_fails_superseded :
    ¬ (∀ r ∈ (run ConnMgr.step (.new 1) ([.setPeersNew 2 10] ++ upToDial 0 10 ++ [.restart 2 20] ++
        upToDial 1 20 ++ works 1 2 ++ [.work 0 (failure 0)])).reports, r.late = false) ∧
      ((run ConnMgr.step (.new 1) ([.setPeersNew 2 10] ++ upToDial 0 10 ++ [.restart 2 20] ++
        upToDial 1 20 ++ works 1 2 ++ [.work 0 (failure 0)])).lastReport 2).map
          (fun r => (r.update.state, r.source)) = some (.none, 0) := by
  decide +kernel

end Magicsock

end OverMesh
