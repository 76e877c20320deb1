import OverMesh.Coord.Register
import OverMesh.Internal.Runs
import OverMesh.Internal.Slots

/-!
# Rotating the node key

`RotateNodeKey` changes three copies of the key, one after the other: the engine's, the one the
server has stored, and the one in the state of the daemon. It holds the lock only while it reads
the old key and while it stores the new one, so several calls may be under way. If the RPC returns
an error the call puts the old key back on the engine and leaves the two other copies alone.

An error of the RPC does not say what the server did. The request may still be on its way when the
call gives up, and the response may be lost after the server has stored the key.

Calls are numbered in the order in which they swap the key of the engine, by numbers that no step
reads, so that the order in which the other copies are written can be compared with it.

## Main definitions

* `RotateSystem`, `RotateOp`, `RotateSystem.step`
* `Agree` — if no call is under way, the three copies are one key pair
* `Orderly` — the server stores no key whose call has given up, the copies are written in the order
  of the swaps, and a rollback works and meets no other call

## Main results

* `agree_run` — **in every run whose steps are orderly the copies agree**
* `rotate_disagrees` — a lost response, and two calls that overlap, leave copies that differ
-/

namespace OverMesh

open Key Runs

/-- Where a call of `RotateNodeKey` is. -/
inductive RotateStage where
  /-- Before `SetPrivateKey` with the new key. -/
  | swap
  /-- Before `RegisterNode`. -/
  | register
  /-- In `RegisterNode`, with what the server has answered. -/
  | waiting (reply : Option Bool)
  /-- Before `SetPrivateKey` with the old key. -/
  | rollback
  /-- Before `SetNodeKey`. -/
  | store
  | done
  deriving DecidableEq

namespace RotateStage

/-- The call has swapped the key of the engine and has not returned. -/
def underWay : RotateStage → Bool
  | .swap | .done => false
  | .register | .waiting _ | .rollback | .store => true

/-- The server has accepted the new key. -/
def accepted : RotateStage → Bool
  | .waiting reply => reply == some true
  | .store => true
  | .swap | .register | .rollback | .done => false

theorem underWay_of_accepted {t : RotateStage} (h : t.accepted = true) : t.underWay = true := by
  cases t <;> first | rfl | cases h

end RotateStage

/-- A call of `RotateNodeKey`. -/
structure RotateCall where
  /-- What it has read from the state. -/
  old : NodePrivate
  /-- What it has drawn. -/
  new : NodePrivate
  stage : RotateStage
  /-- The number of its swap. -/
  number : ℕ

/-- The three copies of the key and the calls. -/
structure RotateSystem where
  engine : NodePrivate
  state : NodePrivate
  c : Coordinator
  calls : List RotateCall
  /-- What is on its way to the server, each with the position of its call. -/
  requests : List (ℕ × RegisterRequest)
  /-- How many swaps there were. -/
  swaps : ℕ
  /-- The numbers of the swaps whose keys the server and the state have. -/
  serverNo : ℕ
  stateNo : ℕ

/-- The steps. -/
inductive RotateOp where
  /-- A call begins: it reads the old key and draws a new one. -/
  | rotate (new : NodePrivate)
  /-- The `i`-th call sets the key of the engine, which may refuse. -/
  | swap (i : ℕ) (ok : Bool)
  /-- It calls `RegisterNode`. There may be no connection, and the request may be lost. -/
  | send (i : ℕ) (hostname osName : String) (routes : List String) (lost : Bool)
  /-- The server handles the `k`-th request. -/
  | serve (k : ℕ) (now : ℤ)
  /-- The response of the server arrives. -/
  | respond (i : ℕ)
  /-- `RegisterNode` returns an error: the one of the server, a timeout, a lost response. -/
  | fail (i : ℕ)
  | rollback (i : ℕ) (ok : Bool)
  | store (i : ℕ)

/-- `RegisterNode`, the RPC: zero keys are refused. -/
def Coordinator.registerNode (c : Coordinator) (now : ℤ) (req : RegisterRequest) :
    Bool × Coordinator :=
  if req.mkey.isZero || req.nkey.isZero then (false, c)
  else ((c.register now req).1.isOk, (c.register now req).2)

/-- The node key that is stored for a machine. -/
def Coordinator.storedKey (c : Coordinator) (mkey : MachinePublic) : Option String :=
  (c.st.nodeByMachineKey mkey.string).map Node.nodeKey

namespace RotateSystem

/-- A daemon that is up with the key `k`. -/
def start (k : NodePrivate) (c : Coordinator) : RotateSystem := ⟨k, k, c, [], [], 0, 0, 0⟩

/-- The `i`-th call goes on if it is at a stage that `p` describes. -/
def onCall (s : RotateSystem) (i : ℕ) (p : RotateStage → Bool) (f : RotateCall → RotateSystem) :
    RotateSystem :=
  match s.calls[i]? with
  | some t => if p t.stage then f t else s
  | none => s

/-- What the state has, and what going on leads to, the step leads to. -/
theorem onCall_induction {P : RotateSystem → Prop} {s : RotateSystem} {i : ℕ}
    {p : RotateStage → Bool} {f : RotateCall → RotateSystem} (hs : P s)
    (hf : ∀ t, s.calls[i]? = some t → p t.stage = true → P (f t)) : P (s.onCall i p f) := by
  rw [onCall]
  cases hi : s.calls[i]? with
  | none => exact hs
  | some t =>
    by_cases hp : p t.stage = true
    · simp only [if_pos hp]
      exact hf t hi hp
    · simp only [if_neg hp]
      exact hs

/-- The `i`-th call is now at the stage `stage`. -/
def goto (s : RotateSystem) (i : ℕ) (t : RotateCall) (stage : RotateStage) : RotateSystem :=
  { s with calls := s.calls.set i { t with stage := stage } }

/-- The answer of the server, for a call that waits for it. -/
def answer (s : RotateSystem) (i : ℕ) (ok : Bool) : RotateSystem :=
  s.onCall i (· == .waiting none) fun t => s.goto i t (.waiting (some ok))

/-- The server has accepted the key of the `i`-th call, or refused it. -/
def registered (s : RotateSystem) (i : ℕ) (res : Bool × Coordinator) : RotateSystem :=
  { s with
    c := res.2
    serverNo := if res.1 then (s.calls[i]?.map RotateCall.number).getD s.serverNo else s.serverNo }

variable (pub : NodePrivate → NodePublic) (mkey : MachinePublic)

/-- One step. `pub` computes the public half of a key, `mkey` is the machine key of the device. -/
def step (s : RotateSystem) : RotateOp → RotateSystem
  | .rotate new => { s with calls := s.calls ++ [⟨s.state, new, .swap, 0⟩] }
  | .swap i ok => s.onCall i (· == .swap) fun t =>
    if ok then
      { s with
        engine := t.new
        calls := s.calls.set i { t with stage := .register, number := s.swaps + 1 }
        swaps := s.swaps + 1 }
    else s.goto i t .done
  | .send i hostname osName routes lost => s.onCall i (· == .register) fun t =>
    let req : RegisterRequest := ⟨mkey, pub t.new, "", hostname, osName, routes⟩
    { s.goto i t (.waiting none) with
      requests := if lost then s.requests else s.requests ++ [(i, req)] }
  | .serve k now =>
    match s.requests[k]? with
    | some (i, req) =>
      let res := s.c.registerNode now req
      { (s.registered i res).answer i res.1 with requests := s.requests.eraseIdx k }
    | none => s
  | .respond i => s.onCall i (· == .waiting (some true)) fun t => s.goto i t .store
  | .fail i => s.onCall i (fun t => t matches .waiting _) fun t => s.goto i t .rollback
  | .rollback i ok => s.onCall i (· == .rollback) fun t =>
    -- The error of `SetPrivateKey` is dropped.
    { s.goto i t .done with engine := if ok then t.old else s.engine }
  | .store i => s.onCall i (· == .store) fun t =>
    { s.goto i t .done with state := t.new, stateNo := t.number }

end RotateSystem

/-- **Agreement**: if no call is under way, the three copies are one key pair. -/
def Agree (pub : NodePrivate → NodePublic) (mkey : MachinePublic) (s : RotateSystem) : Prop :=
  (∀ t ∈ s.calls, t.stage = .done) →
    s.engine = s.state ∧ s.c.storedKey mkey = some (pub s.state).string

instance (pub : NodePrivate → NodePublic) (mkey : MachinePublic) (s : RotateSystem) :
    Decidable (Agree pub mkey s) :=
  inferInstanceAs (Decidable (_ → _))

/-- The step is orderly. -/
def Orderly (s : RotateSystem) : RotateOp → Prop
  /- A key is accepted only if its call still waits for it, and after the keys swapped before. -/
  | .serve k now => ∀ q ∈ s.requests[k]?, (s.c.registerNode now q.2).1 = true →
      ∃ t ∈ s.calls[q.1]?, t.stage = .waiting none ∧ s.serverNo < t.number
  /- An error is returned only if the key was not accepted. -/
  | .fail i => ∀ t ∈ s.calls[i]?, t.stage.accepted = false
  /- The key that is put back is the one in the state, the engine takes it, and no other call is
  between its swap and its end. -/
  | .rollback i ok => ∀ t ∈ s.calls[i]?, t.stage = .rollback →
      ok = true ∧ t.old = s.state ∧ ∀ u ∈ s.calls.eraseIdx i, u.stage.underWay = false
  /- Keys are stored in the order in which they were swapped. -/
  | .store i => ∀ t ∈ s.calls[i]?, t.stage = .store → s.stateNo < t.number
  | _ => True

instance (s : RotateSystem) (op : RotateOp) : Decidable (Orderly s op) := by
  cases op <;> unfold Orderly <;> infer_instance

/-! ### What the server stores -/

/-- **A known machine** is given the key of the request, or the request is refused and nothing
changes. -/
theorem Coordinator.storedKey_registerNode {c : Coordinator} {req : RegisterRequest} (now : ℤ)
    (h : (c.storedKey req.mkey).isSome) : (c.registerNode now req).1 = true ∧
        (c.registerNode now req).2.storedKey req.mkey = some req.nkey.string ∨
      c.registerNode now req = (false, c) := by
  rw [registerNode]
  split_ifs with hzero
  · exact .inr rfl
  · have hspec := Coordinator.register_spec c now req
    generalize c.register now req = res at hspec ⊢
    cases hspec with
    | rejected _ => exact .inr rfl
    | @returning _ n _ hn =>
      obtain ⟨hmem, hmk⟩ := Store.nodeByMachineKey_eq_some_iff.mp hn
      obtain ⟨st, name, nw, -, hnodes, -, -, -, -, -, heq⟩ := reRegister_spec req _ hmem
      refine .inl ⟨by rw [heq]; rfl, ?_⟩
      rw [heq, storedKey, Coordinator.st_notifyNetworkLocked, Option.map_eq_some_iff]
      refine ⟨{ n with nodeKey := req.nkey.string, hostname := name, os := req.osName },
        Store.nodeByMachineKey_eq_some_iff.mpr ⟨?_, hmk⟩, rfl⟩
      rw [hnodes, Store.updateNodeOnRegister, Store.rows_nodes_updateNode]
      exact List.mem_map.mpr ⟨_, hmem, if_pos rfl⟩
    | enrolling _ hmk _ _ _ _ =>
      rw [storedKey, hmk] at h
      cases h

/-! ### The invariant -/

/-- What the server has is the key of the state, or the key of a call that will store it. What the
engine has is the key of the call that swapped last, or the one of the state. -/
structure RotateInv (pub : NodePrivate → NodePublic) (mkey : MachinePublic) (s : RotateSystem) :
    Prop where
  number_le : ∀ t ∈ s.calls, t.number ≤ s.swaps
  accepted_le : ∀ t ∈ s.calls, t.stage.accepted = true → t.number ≤ s.serverNo
  request : ∀ q ∈ s.requests,
    q.2.mkey = mkey ∧ ∃ t, s.calls[q.1]? = some t ∧ q.2.nkey = pub t.new
  server : s.c.storedKey mkey = some (pub s.state).string ∧ s.serverNo = s.stateNo ∨
    ∃ t ∈ s.calls, t.stage.accepted = true ∧ t.number = s.serverNo ∧
      s.c.storedKey mkey = some (pub t.new).string
  engine : (∃ t ∈ s.calls, t.stage.underWay = true ∧ t.number = s.swaps ∧ s.engine = t.new) ∨
    s.engine = s.state ∧ (s.stateNo = s.swaps ∨ ∀ t ∈ s.calls, t.stage.underWay = false)

namespace RotateInv

variable {pub : NodePrivate → NodePublic} {mkey : MachinePublic} {s : RotateSystem} {i : ℕ}
  {t : RotateCall}

theorem start {k : NodePrivate} {c : Coordinator}
    (hc : c.storedKey mkey = some (pub k).string) : RotateInv pub mkey (.start k c) where
  number_le _ ht := absurd ht List.not_mem_nil
  accepted_le _ ht := absurd ht List.not_mem_nil
  request _ hq := absurd hq List.not_mem_nil
  server := .inl ⟨hc, rfl⟩
  engine := .inr ⟨rfl, .inl rfl⟩

variable (h : RotateInv pub mkey s)
include h

/-- With no call under way the copies agree. -/
theorem agree : Agree pub mkey s := by
  intro hdone
  have hidle : ∀ t ∈ s.calls, t.stage.underWay = false := fun t ht => by rw [hdone t ht]; rfl
  constructor
  · rcases h.engine with ⟨t, ht, hway, -⟩ | ⟨heq, -⟩
    · rw [hidle t ht] at hway
      cases hway
    · exact heq
  · rcases h.server with ⟨heq, -⟩ | ⟨t, ht, hacc, -⟩
    · exact heq
    · have hway := RotateStage.underWay_of_accepted hacc
      rw [hidle t ht] at hway
      cases hway

/-- A call that goes on keeps its keys and its number. -/
theorem number_le_goto (hi : s.calls[i]? = some t)
    (stage : RotateStage) : ∀ u ∈ (s.goto i t stage).calls, u.number ≤ s.swaps :=
  Slots.forall_mem_set hi id h.number_le

theorem request_set (hi : s.calls[i]? = some t) {t' : RotateCall}
    (hnew : t'.new = t.new) : ∀ q ∈ s.requests,
    q.2.mkey = mkey ∧ ∃ u, (s.calls.set i t')[q.1]? = some u ∧ q.2.nkey = pub u.new := by
  intro q hq
  obtain ⟨hmk, u, hu, hkey⟩ := h.request q hq
  refine ⟨hmk, ?_⟩
  by_cases hqi : i = q.1
  · subst hqi
    obtain rfl := Option.some.inj (hi.symm.trans hu)
    exact ⟨t', by rw [List.getElem?_set_self (List.getElem?_eq_some_iff.mp hi).1],
      by rw [hnew, hkey]⟩
  · exact ⟨u, by rw [List.getElem?_set_ne hqi, hu], hkey⟩

/-- The engine is not touched by a call that stays under way, or stays outside. -/
theorem engine_goto (hi : s.calls[i]? = some t) {stage : RotateStage}
    (hway : stage.underWay = t.stage.underWay) : (∃ u ∈ (s.goto i t stage).calls,
        u.stage.underWay = true ∧ u.number = s.swaps ∧ s.engine = u.new) ∨
      s.engine = s.state ∧ (s.stateNo = s.swaps ∨
        ∀ u ∈ (s.goto i t stage).calls, u.stage.underWay = false) := by
  rcases h.engine with hlast | ⟨heq, hno | hidle⟩
  · exact .inl (Slots.exists_mem_set hi (fun ht => ⟨hway.trans ht.1, ht.2⟩) hlast)
  · exact .inr ⟨heq, .inl hno⟩
  · exact .inr ⟨heq, .inr (Slots.forall_mem_set hi hway.trans hidle)⟩

/-- A step that writes none of the copies. -/
theorem goto (hi : s.calls[i]? = some t) {stage : RotateStage}
    (hway : stage.underWay = t.stage.underWay) (hacc : stage.accepted = t.stage.accepted) :
    RotateInv pub mkey (s.goto i t stage) where
  number_le := h.number_le_goto hi stage
  accepted_le := Slots.forall_mem_set hi (fun ht ha => ht (hacc.symm.trans ha)) h.accepted_le
  request := h.request_set hi rfl
  server := h.server.imp_right (Slots.exists_mem_set hi fun ht => ⟨hacc.trans ht.1, ht.2⟩)
  engine := h.engine_goto hi hway

/-- The engine takes the key of the call. -/
theorem swap (hi : s.calls[i]? = some t) (hstage : t.stage = .swap) : RotateInv pub mkey { s with
      engine := t.new
      calls := s.calls.set i { t with stage := .register, number := s.swaps + 1 }
      swaps := s.swaps + 1 } where
  number_le := by
    intro u hu
    rcases Slots.mem_set_cases hu with rfl | ⟨j, -, hj⟩
    · exact le_refl _
    · exact (h.number_le u (List.mem_of_getElem? hj)).trans (Nat.le_succ _)
  accepted_le := by
    refine Slots.forall_mem_set hi ?_ h.accepted_le
    intro _ ha
    cases ha
  request := h.request_set hi rfl
  server := by
    refine h.server.imp_right (Slots.exists_mem_set hi ?_)
    rintro ⟨ha, -⟩
    rw [hstage] at ha
    cases ha
  engine := .inl ⟨_, Slots.mem_set_self hi, rfl, rfl, rfl⟩

/-- The server stores the key of a call that waits for it. -/
theorem accept {c : Coordinator} (hi : s.calls[i]? = some t)
    (hstage : t.stage = .waiting none) (horder : s.serverNo < t.number)
    (hc : c.storedKey mkey = some (pub t.new).string) : RotateInv pub mkey
      { s.goto i t (.waiting (some true)) with c := c, serverNo := t.number } where
  number_le := h.number_le_goto hi _
  accepted_le := by
    intro u hu ha
    rcases Slots.mem_set_cases hu with rfl | ⟨j, -, hj⟩
    · exact le_refl _
    · exact (h.accepted_le u (List.mem_of_getElem? hj) ha).trans horder.le
  request := h.request_set hi rfl
  server := .inr ⟨_, Slots.mem_set_self hi, rfl, rfl, hc⟩
  engine := h.engine_goto hi (by rw [hstage]; rfl)

/-- The call that has failed puts the key of the state back, and is the only one under way. -/
theorem rollback (hi : s.calls[i]? = some t) (hstage : t.stage = .rollback) (hold : t.old = s.state)
    (hothers : ∀ u ∈ s.calls.eraseIdx i, u.stage.underWay = false) :
    RotateInv pub mkey { s.goto i t .done with engine := t.old } where
  number_le := h.number_le_goto hi _
  accepted_le := by
    refine Slots.forall_mem_set hi ?_ h.accepted_le
    intro _ ha
    cases ha
  request := h.request_set hi rfl
  server := by
    refine h.server.imp_right (Slots.exists_mem_set hi ?_)
    rintro ⟨ha, -⟩
    rw [hstage] at ha
    cases ha
  engine := by
    refine .inr ⟨hold, .inr ?_⟩
    intro u hu
    rcases Slots.mem_set_cases hu with rfl | ⟨j, hji, hj⟩
    · rfl
    · exact hothers u (List.mem_eraseIdx_iff_getElem?.mpr ⟨j, hji, hj⟩)

/-- The state takes the key of a call that the server has accepted. -/
theorem store (hi : s.calls[i]? = some t) (hstage : t.stage = .store)
    (horder : s.stateNo < t.number) :
    RotateInv pub mkey { s.goto i t .done with state := t.new, stateNo := t.number } where
  number_le := h.number_le_goto hi _
  accepted_le := by
    refine Slots.forall_mem_set hi ?_ h.accepted_le
    intro _ ha
    cases ha
  request := h.request_set hi rfl
  server := by
    have hle := h.accepted_le t (List.mem_of_getElem? hi) (by rw [hstage]; rfl)
    rcases h.server with ⟨-, hno⟩ | ⟨u, hu, ha, hno, hkey⟩
    -- The server would have the key of an older swap.
    · omega
    · obtain ⟨j, hj⟩ := List.mem_iff_getElem?.mp hu
      by_cases hji : j = i
      · subst hji
        obtain rfl := Option.some.inj (hi.symm.trans hj)
        exact .inl ⟨hkey, hno.symm⟩
      · exact .inr ⟨u, Slots.mem_set_of_ne hj hji, ha, hno, hkey⟩
  engine := by
    have hle := h.number_le t (List.mem_of_getElem? hi)
    have hway : t.stage.underWay = true := by rw [hstage]; rfl
    rcases h.engine with ⟨u, hu, ha, hno, hkey⟩ | ⟨-, hno | hidle⟩
    · obtain ⟨j, hj⟩ := List.mem_iff_getElem?.mp hu
      by_cases hji : j = i
      · subst hji
        obtain rfl := Option.some.inj (hi.symm.trans hj)
        exact .inr ⟨hkey, .inl hno⟩
      · exact .inl ⟨u, Slots.mem_set_of_ne hj hji, ha, hno, hkey⟩
    · omega
    · rw [hidle t (List.mem_of_getElem? hi)] at hway
      cases hway

/-- The server is known to have a key for the machine. -/
theorem isSome_storedKey : (s.c.storedKey mkey).isSome := by
  rcases h.server with ⟨hkey, -⟩ | ⟨t, -, -, -, hkey⟩ <;> exact Option.isSome_of_eq_some hkey

/-- A request leaves the line. -/
theorem requests {rq : List (ℕ × RegisterRequest)}
    (hsub : rq ⊆ s.requests) : RotateInv pub mkey { s with requests := rq } :=
  { h with request := fun q hq => h.request q (hsub hq) }

/-- The server handles a request: it stores the key, or it changes nothing. -/
theorem registered_answer {now : ℤ} {req : RegisterRequest} (hreq : (i, req) ∈ s.requests)
    (hc : (s.c.registerNode now req).1 = true →
      ∃ t ∈ s.calls[i]?, t.stage = .waiting none ∧ s.serverNo < t.number) :
    RotateInv pub mkey ((s.registered i (s.c.registerNode now req)).answer i
      (s.c.registerNode now req).1) := by
  obtain ⟨hmk, u, hu, hkey⟩ := h.request _ hreq
  have hknown := h.isSome_storedKey
  rw [← hmk] at hknown
  rcases Coordinator.storedKey_registerNode now hknown with ⟨hok, hstored⟩ | hrefused
  · obtain ⟨t, ht, hstage, horder⟩ := hc hok
    obtain rfl := Option.some.inj (ht.symm.trans hu)
    have heq : (s.registered i (s.c.registerNode now req)).answer i
        (s.c.registerNode now req).1 =
        { s.goto i t (.waiting (some true)) with
          c := (s.c.registerNode now req).2, serverNo := t.number } := by
      simp [RotateSystem.registered, RotateSystem.answer, RotateSystem.onCall, RotateSystem.goto,
        hok, hu, hstage]
    rw [heq]
    dsimp only at hmk hkey
    rw [hmk, hkey] at hstored
    exact h.accept hu hstage horder hstored
  · rw [hrefused]
    refine RotateSystem.onCall_induction h fun t ht hstage => ?_
    rw [beq_iff_eq] at hstage
    exact h.goto ht (by rw [hstage]; rfl) (by rw [hstage]; rfl)

theorem rotate (new : NodePrivate) :
    RotateInv pub mkey { s with calls := s.calls ++ [⟨s.state, new, .swap, 0⟩] } where
  number_le := by
    intro t ht
    rcases List.mem_append.mp ht with ht | ht
    · exact h.number_le t ht
    · rw [List.mem_singleton.mp ht]
      exact Nat.zero_le _
  accepted_le := by
    intro t ht ha
    rcases List.mem_append.mp ht with ht | ht
    · exact h.accepted_le t ht ha
    · rw [List.mem_singleton.mp ht] at ha
      cases ha
  request q hq := by
    obtain ⟨hmk, t, ht, hkey⟩ := h.request q hq
    refine ⟨hmk, t, ?_, hkey⟩
    rw [List.getElem?_append_left (List.getElem?_eq_some_iff.mp ht).1, ht]
  server := h.server.imp_right fun ⟨t, ht, hkey⟩ => ⟨t, List.mem_append_left _ ht, hkey⟩
  engine := by
    rcases h.engine with ⟨t, ht, hkey⟩ | ⟨heq, hno | hidle⟩
    · exact .inl ⟨t, List.mem_append_left _ ht, hkey⟩
    · exact .inr ⟨heq, .inl hno⟩
    · refine .inr ⟨heq, .inr fun t ht => ?_⟩
      rcases List.mem_append.mp ht with ht | ht
      · exact hidle t ht
      · rw [List.mem_singleton.mp ht]
        rfl

/-- The request that a call sends carries its new key. -/
theorem send (hi : s.calls[i]? = some t) (hstage : t.stage = .register)
    (hostname osName : String) (routes : List String) :
    RotateInv pub mkey { s.goto i t (.waiting none) with
      requests := s.requests ++ [(i, ⟨mkey, pub t.new, "", hostname, osName, routes⟩)] } :=
  have hway : (RotateStage.waiting none).underWay = t.stage.underWay := by rw [hstage]; rfl
  have hacc : (RotateStage.waiting none).accepted = t.stage.accepted := by rw [hstage]; rfl
  { h.goto hi hway hacc with
    request := by
      intro q hq
      rcases List.mem_append.mp hq with hq | hq
      · exact (h.goto hi hway hacc).request q hq
      · rw [List.mem_singleton.mp hq]
        exact ⟨rfl, _, List.getElem?_set_self (List.getElem?_eq_some_iff.mp hi).1, rfl⟩ }

/-- **The step lemma.** -/
theorem step {op : RotateOp} (hc : Orderly s op) : RotateInv pub mkey (s.step pub mkey op) := by
  cases op with
  | rotate new => exact h.rotate new
  | swap i ok =>
    rw [RotateSystem.step]
    refine RotateSystem.onCall_induction h fun t ht hstage => ?_
    rw [beq_iff_eq] at hstage
    split_ifs
    · exact h.swap ht hstage
    · exact h.goto ht (by rw [hstage]; rfl) (by rw [hstage]; rfl)
  | send i hostname osName routes lost =>
    rw [RotateSystem.step]
    refine RotateSystem.onCall_induction h fun t ht hstage => ?_
    rw [beq_iff_eq] at hstage
    cases lost with
    | true => exact h.goto ht (by rw [hstage]; rfl) (by rw [hstage]; rfl)
    | false => exact h.send ht hstage hostname osName routes
  | serve k now =>
    rw [RotateSystem.step]
    cases hk : s.requests[k]? with
    | none => exact h
    | some q =>
      refine (h.registered_answer (List.mem_of_getElem? hk) (hc q hk)).requests ?_
      refine RotateSystem.onCall_induction (P := fun s' => s.requests.eraseIdx k ⊆ s'.requests)
        List.eraseIdx_subset fun _ _ _ => List.eraseIdx_subset
  | respond i =>
    rw [RotateSystem.step]
    refine RotateSystem.onCall_induction h fun t ht hstage => ?_
    rw [beq_iff_eq] at hstage
    exact h.goto ht (by rw [hstage]; rfl) (by rw [hstage]; rfl)
  | fail i =>
    rw [RotateSystem.step]
    refine RotateSystem.onCall_induction h fun t ht hstage => ?_
    refine h.goto ht ?_ (hc t ht).symm
    cases hw : t.stage <;> rw [hw] at hstage <;> first | rfl | cases hstage
  | rollback i ok =>
    rw [RotateSystem.step]
    refine RotateSystem.onCall_induction h fun t ht hstage => ?_
    rw [beq_iff_eq] at hstage
    obtain ⟨rfl, hold, hothers⟩ := hc t ht hstage
    exact h.rollback ht hstage hold hothers
  | store i =>
    rw [RotateSystem.step]
    refine RotateSystem.onCall_induction h fun t ht hstage => ?_
    rw [beq_iff_eq] at hstage
    exact h.store ht hstage (hc t ht hstage)

end RotateInv

/-- **The copies agree** in every run whose steps are orderly. -/
theorem agree_run {pub : NodePrivate → NodePublic} {mkey : MachinePublic} {k : NodePrivate}
    {c : Coordinator} {ops : List RotateOp} (hc : c.storedKey mkey = some (pub k).string)
    (h : Along (RotateSystem.step pub mkey) Orderly (.start k c) ops) :
    Agree pub mkey (run (RotateSystem.step pub mkey) (.start k c) ops) :=
  (run_induction_along (RotateInv.start hc) (fun _ _ hs ho => hs.step ho) h).agree

/-! ### Sample runs

Machine 1 of the sample mesh. A key stands for its own public half. -/

section Samples

/-- The first machine rotates, on the steps `ops`. -/
def sampleRotation (ops : List RotateOp) : RotateSystem :=
  run (RotateSystem.step (fun p => ⟨p.k⟩) (Coordinator.sampleRequest 1 "").mkey)
    (.start ⟨Coordinator.sampleKey 1⟩ Coordinator.sampleMesh) ops

/-- A call that draws the key `b`, up to the answer of the server. -/
def sampleCall (i : ℕ) (b : UInt8) : List RotateOp :=
  [.rotate ⟨Coordinator.sampleKey b⟩, .swap i true, .send i "host" "linux" [] false, .serve 0 0]

/-- A rotation that works, and one whose request is lost. -/
theorem agree_sample :
    let ops := sampleCall 0 7 ++ [.respond 0, .store 0, .rotate ⟨Coordinator.sampleKey 8⟩,
      .swap 1 true, .send 1 "host" "linux" [] true, .fail 1, .rollback 1 true]
    Agree (fun p => ⟨p.k⟩) (Coordinator.sampleRequest 1 "").mkey (sampleRotation ops) ∧
      (sampleRotation ops).state = ⟨Coordinator.sampleKey 7⟩ :=
  ⟨agree_run (by decide +kernel) (by decide +kernel), by decide +kernel⟩

/-- **The copies differ** after a response that was lost, and after two calls that overlap although
no message is lost. -/
theorem rotate_disagrees :
    ¬ Agree (fun p => ⟨p.k⟩) (Coordinator.sampleRequest 1 "").mkey
        (sampleRotation (sampleCall 0 7 ++ [.fail 0, .rollback 0 true])) ∧
      ¬ Agree (fun p => ⟨p.k⟩) (Coordinator.sampleRequest 1 "").mkey
        (sampleRotation (sampleCall 0 7 ++ sampleCall 1 8 ++
          [.respond 1, .store 1, .respond 0, .store 0])) := by
  decide +kernel

end Samples

end OverMesh
