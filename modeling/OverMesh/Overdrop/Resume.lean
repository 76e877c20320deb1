import OverMesh.Overdrop.Concurrent

/-!
# Transfers that can go on

`Send` asks how much of its file is staged and goes on from there. If more is staged than the file
has, it starts again from the beginning; the receiver takes nothing but the exact end of what is
staged. So the two agree if and only if no staged file is longer than its name says, and if they do
not, the file can never be sent: nothing the sender does makes the staged file shorter.

Two things make such a file. The receiver removes a staged file that got too many bytes only after
all of them have been written, and may stop before it does or be refused. And a file whose name is
that of a staged file is delivered under it.

## Main definitions

* `sentName`, `Sendable` — the names `Send` can ask for
* `Transfer.stoppedAt`, `RequestOp` — requests that are answered, and requests during which the
  receiver stops
* `Server.Resumable` — no `PUT` of `Send` is answered with an offset mismatch
* `Orderly` — a request that leaves no staged file longer than its name says

## Main results

* `exists_step_eq_alone` — stops at any statement of the handler are covered
* `Server.resumable_iff`
* `resumable_run_iff` — **`Send` never meets an offset mismatch if and only if every request is
  orderly**
-/

namespace OverMesh

open GoText Runs

namespace Overdrop

/-! ### Definitions -/

/-- The name `Send` asks for, as the receiver reads it from the query. Go makes no request for a URL
with a control character, and drops a value with a semicolon in it. -/
def sentName (path : String) : Option String :=
  let name := filepathBase path.toList
  if name.any (fun c => c < ' ' ∨ c = '\x7f') then none
  else if ';' ∈ name then some ""
  else some (String.ofList name)

/-- `Send` can ask for this name and size. -/
def Sendable (name : String) (size : ℕ) : Prop :=
  ∃ path raw, sentName path = some raw ∧ params raw (decimal size) = .ok (name, size)

/-- **`Send` is never answered with an offset mismatch**, as long as the length of an open file can
be found out. -/
def Server.Resumable (s : Server) : Prop :=
  ∀ peer path raw (file : List UInt8) net flt offset, sentName path = some raw → flt.stat = false →
    s.handleOffset peer raw (decimal file.length) = .ok offset →
      ∀ k, (s.handlePut (sendRequest peer raw file (resumeAt offset file.length) net) flt).1 ≠
        .error (.mismatch k)

/-- What is on the disk when the receiver stops in `io.Copy`, after `n` bytes of the body. -/
def Transfer.stoppedAt (t : Transfer) (d : Disk Path) (n : ℕ) : Disk Path :=
  let file := (d.openFile t.part).1
  let d := (d.openFile t.part).2
  if (d.data file).length ≠ t.offset then d else d.pwrite file t.offset (t.body.take n)

/-- Requests, one after the other: one that is answered, and one during which the receiver stops.
Wherever in the handler it stops, the disk is as after one of the two, see `exists_step_eq_alone`.
-/
inductive RequestOp where
  | put (req : PutRequest) (flt : Faults)
  | stop (req : PutRequest) (n : ℕ)

/-- One request. A receiver that was started again has no busy marks. -/
def Server.step (s : Server) : RequestOp → Server
  | .put req flt => (s.handlePut req flt).2
  | .stop req n => match req.parse with
    | .error _ => ⟨s.disk, fun _ => false⟩
    | .ok t => ⟨t.stoppedAt s.disk n, fun _ => false⟩

/-- The request gets to the copy: nothing is refused before it, and it goes on from the end of what
is staged. -/
structure Transfer.Copies (t : Transfer) (d : Disk Path) (flt : Faults) : Prop where
  mkdir : flt.mkdir = false
  openFile : flt.openFile = false
  stat : flt.stat = false
  length : (staged d t.part).length = t.offset
  seek : flt.seek = false

/-- All of the body is copied, it is what was announced, and nothing is refused after it. -/
structure Transfer.Arrives (t : Transfer) (d : Disk Path) (flt : Faults) : Prop
    extends t.Copies d flt where
  bodyErr : t.bodyErr = false
  copied : t.copied flt = t.body.length
  size : t.offset + t.body.length = t.size
  sync : flt.sync = false
  rename : flt.rename = false

/-- The request leaves no staged file longer than its name says: a file that arrives does not get
the path at which a shorter one would be staged, and when more bytes are copied than were announced,
they are removed and the receiver does not stop before that. -/
def Orderly (s : Server) : RequestOp → Prop
  | .put req flt => ∀ t, req.parse = .ok t → s.busy t.part = false →
      (t.Arrives s.disk flt → ∀ name size, Sendable name size →
        (dedupePath s.disk t.final).name = partName name size → t.size ≤ size) ∧
      (t.Copies s.disk flt → flt.remove = true → Sendable t.name t.size →
        t.offset + t.copied flt ≤ t.size)
  | .stop req n => ∀ t, req.parse = .ok t → Sendable t.name t.size →
      (staged s.disk t.part).length = t.offset →
        t.offset + min n t.body.length ≤ t.size

/-! ### Stops at any statement -/

section Stops

variable {t : Transfer} {d : Disk Path}

/-- What the copy writes to is open, and what is staged is where it starts. -/
theorem stoppedAt_eq (hlen : (staged d t.part).length = t.offset) (n : ℕ) : t.stoppedAt d n =
      (d.openFile t.part).2.pwrite (d.openFile t.part).1 t.offset (t.body.take n) := by
  rw [Transfer.stoppedAt, data_openFile, if_neg (not_not.mpr hlen)]

/-- Nothing has been written when the copy starts. -/
theorem stoppedAt_zero : t.stoppedAt d 0 = (d.openFile t.part).2 := by
  rw [Transfer.stoppedAt]
  split_ifs with hlen
  · rfl
  · rw [not_not] at hlen
    rw [Disk.pwrite, List.take_zero, ← hlen, Disk.splice_length, List.append_nil,
      Function.update_eq_self]

/-- One write of the copy after the other. -/
theorem stoppedAt_pwrite (hlen : (staged d t.part).length = t.offset) {k : ℕ}
    (hk : k ≤ t.body.length) (n : ℕ) :
    (t.stoppedAt d k).pwrite (d.openFile t.part).1 (t.offset + k) ((t.body.drop k).take n) =
      t.stoppedAt d (min (k + n) t.body.length) := by
  have hat : ∀ k, Disk.splice (staged d t.part) t.offset (t.body.take k) =
      staged d t.part ++ t.body.take k := by
    intro k
    rw [← hlen, Disk.splice_length]
  have hlen' : (staged d t.part ++ t.body.take k).length = t.offset + k := by
    rw [List.length_append, hlen, List.length_take, Nat.min_eq_left hk]
  rw [stoppedAt_eq hlen, stoppedAt_eq hlen, Disk.pwrite, Disk.pwrite, Disk.pwrite]
  simp only [Function.update_self, Function.update_idem, data_openFile, hat]
  rw [← hlen', Disk.splice_length, List.append_assoc, ← List.take_add, ← List.take_eq_take_min]

/-- The disk is as after a request that is answered or one that is stopped in the copy. -/
def Stops (t : Transfer) (d d' : Disk Path) : Prop :=
  (∃ n, d' = t.stoppedAt d n) ∨ ∃ flt, d' = (t.put d flt).2

/-- A disk that nothing was done to. -/
theorem stops_refl (t : Transfer) (d : Disk Path) : Stops t d d :=
  .inr ⟨{ noFaults with mkdir := true }, rfl⟩

/-- Where a request can be that runs alone, and what is on the disk then. -/
inductive PutTask.At (t : Transfer) (d : Disk Path) : PutTask → Disk Path → Prop
  | enter : At t d (.enter t) d
  | openPart : At t d (.openPart t) d
  | stat : At t d (.stat t (d.openFile t.part).1) (t.stoppedAt d 0)
  | seek (before : List UInt8) (hlen : (staged d t.part).length = t.offset) :
    At t d (.seek t (d.openFile t.part).1 before) (t.stoppedAt d 0)
  | copy (before : List UInt8) (hlen : (staged d t.part).length = t.offset) {k : ℕ}
    (hk : k ≤ t.body.length) : At t d (.copy t (d.openFile t.part).1 before k) (t.stoppedAt d k)
  | discard (before : List UInt8) (hlen : (staged d t.part).length = t.offset) {k : ℕ}
    (hk : k ≤ t.body.length) {err : Bool} {e : DropError} (he : t.verdict k err = some e) :
    At t d (.discard t before e) (t.stoppedAt d k)
  | sync (before : List UInt8) (hlen : (staged d t.part).length = t.offset)
    (hall : t.verdict t.body.length t.bodyErr = none) :
    At t d (.sync t before) (t.stoppedAt d t.body.length)
  | probe (before : List UInt8) (hlen : (staged d t.part).length = t.offset)
    (hall : t.verdict t.body.length t.bodyErr = none) {i : ℕ}
    (htaken : ∀ j < i, ((t.stoppedAt d t.body.length).entry (t.probed j)).isSome = true) :
    At t d (.probe t before i) (t.stoppedAt d t.body.length)
  | rename (before : List UInt8) (hlen : (staged d t.part).length = t.offset)
    (hall : t.verdict t.body.length t.bodyErr = none) :
    At t d (.rename t before (dedupePath (t.stoppedAt d t.body.length) t.final))
      (t.stoppedAt d t.body.length)
  | leave (before : List UInt8) (reply : Except DropError Path) {d' : Disk Path}
    (h : Stops t d d') : At t d (.leave t before reply) d'
  | done (before : List UInt8) (reply : Except DropError Path) {d' : Disk Path}
    (h : Stops t d d') : At t d (.done t before reply) d'

theorem PutTask.At.stops {k : PutTask} {d' : Disk Path} (h : At t d k d') : Stops t d d' := by
  cases h with
  | enter => exact stops_refl t d
  | openPart => exact stops_refl t d
  | leave _ _ h => exact h
  | done _ _ h => exact h
  | _ => exact .inl ⟨_, rfl⟩

/-- The first free path is the one `dedupePath` finds. -/
theorem dedupePath_eq_probed {i : ℕ} (htaken : ∀ j < i, (d.entry (t.probed j)).isSome = true)
    (hfree : (d.entry (t.probed i)).isNone = true) : dedupePath d t.final = t.probed i := by
  obtain ⟨k, hdst, hbefore, hfree'⟩ := dedupePath_spec t d
  rw [Option.isNone_iff_eq_none] at hfree hfree'
  rcases Nat.lt_trichotomy k i with hki | rfl | hik
  · have := htaken k hki
    simp [hfree'] at this
  · exact hdst
  · have := hbefore i hik
    simp [hfree] at this

/-- A request that gets to the copy. -/
theorem put_of_copies {flt : Faults} (h : t.Copies d flt) :
    t.put d flt = t.settle (t.stoppedAt d (t.copied flt)) (t.copied flt)
      (t.bodyErr || t.copied flt < t.body.length) flt := by
  rw [Transfer.put, if_neg (by simp [h.mkdir, h.openFile]), Transfer.append, data_openFile,
    if_neg (by simp [h.stat]), if_neg (not_not.mpr h.length), if_neg (by simp [h.seek]),
    stoppedAt_eq h.length]

/-- Nothing is refused but the copy after `n` bytes. -/
theorem copies_noFaults (hlen : (staged d t.part).length = t.offset) (n : ℕ) :
    t.Copies d { noFaults with writes := some n } := ⟨rfl, rfl, rfl, hlen, rfl⟩

/-- Too many bytes are removed, or stay if that is refused. -/
theorem stops_discard (hlen : (staged d t.part).length = t.offset) {k : ℕ} (hk : k ≤ t.body.length)
    {err : Bool} {e : DropError} (he : t.verdict k err = some e) (fail : Bool) :
    Stops t d (t.discard (t.stoppedAt d k) e fail) := by
  by_cases hgone : e = .tooMany ∧ ¬ fail
  · obtain ⟨rfl, hfail⟩ := hgone
    have htoo : t.offset + k > t.size := by
      by_contra hle
      simp only [Transfer.verdict, if_neg hle] at he
      split_ifs at he <;> simp at he
    have hcopied : t.copied { noFaults with writes := some k } = k := Nat.min_eq_left hk
    refine .inr ⟨{ noFaults with writes := some k }, ?_⟩
    rw [put_of_copies (copies_noFaults hlen k), hcopied, Transfer.settle, Transfer.verdict,
      if_pos (.inr htoo), if_pos htoo]
    rw [(Bool.not_eq_true _).mp hfail]
    rfl
  · rw [Transfer.discard, if_neg hgone]
    exact .inl ⟨k, rfl⟩

/-- The file is delivered. -/
theorem stops_rename (hlen : (staged d t.part).length = t.offset)
    (hall : t.verdict t.body.length t.bodyErr = none) {d' : Disk Path}
    (h : (t.stoppedAt d t.body.length).rename t.part
      (dedupePath (t.stoppedAt d t.body.length) t.final) = some d') : Stops t d d' := by
  have hcopied : t.copied { noFaults with writes := some t.body.length } = t.body.length :=
    Nat.min_self _
  refine .inr ⟨{ noFaults with writes := some t.body.length }, ?_⟩
  rw [put_of_copies (copies_noFaults hlen _), hcopied, Transfer.settle]
  simp only [lt_self_iff_false, decide_false, Bool.or_false, hall, Transfer.deliver, noFaults,
    Bool.false_eq_true, if_false, h]

/-- **Each statement** leads to a point where the disk is as after a request that is answered or one
that is stopped in the copy. -/
theorem PutTask.At.exec {k : PutTask} {s : Server} (h : At t d k s.disk) (n : ℕ) (fail : Bool) :
    At t d (k.exec s n fail).1 (k.exec s n fail).2.disk := by
  obtain ⟨disk, busy⟩ := s
  change At t d k disk at h
  have hstops := h.stops
  cases h with
  | enter =>
    rw [PutTask.exec]
    split_ifs
    · exact .done _ _ hstops
    · exact .openPart
  | openPart =>
    rw [PutTask.exec]
    split_ifs
    · exact .leave _ _ hstops
    · exact stoppedAt_zero (t := t) ▸ .stat
  | stat =>
    rw [PutTask.exec]
    split_ifs with _ hlen
    · exact .leave _ _ hstops
    · exact .leave _ _ hstops
    · rw [not_not] at hlen
      refine .seek _ ?_
      rwa [stoppedAt_zero, data_openFile] at hlen
  | seek before hlen =>
    rw [PutTask.exec]
    split_ifs
    · exact .leave _ _ hstops
    · exact .copy before hlen (Nat.zero_le _)
  | @copy before hlen k hk =>
    have hk' : min (k + n) t.body.length ≤ t.body.length := Nat.min_le_right _ _
    rw [PutTask.exec]
    simp only [stoppedAt_pwrite hlen hk]
    split_ifs with hmore
    · exact .copy before hlen hk'
    · cases hv : t.verdict (min (k + n) t.body.length) (fail || t.bodyErr) with
      | some e => exact .discard before hlen hk' hv
      | none =>
        -- all of the body was written, and there was no error
        obtain ⟨herr, -⟩ := t.verdict_eq_none_iff.mp hv
        rw [Bool.or_eq_false_iff] at herr
        have hend : min (k + n) t.body.length = t.body.length := by
          rw [herr.1] at hmore
          simp only [Bool.false_eq_true, not_false_eq_true, and_true] at hmore
          omega
        rw [hend, herr.1, Bool.false_or] at hv
        rw [hend]
        exact .sync before hlen hv
  | discard before hlen hk he => exact .leave _ _ (stops_discard hlen hk he fail)
  | sync before hlen hall =>
    rw [PutTask.exec]
    split_ifs
    · exact .leave _ _ hstops
    · exact .probe before hlen hall (fun j hj => absurd hj (Nat.not_lt_zero j))
  | @probe before hlen hall i htaken =>
    rw [PutTask.exec]
    split_ifs with hfree
    · rw [← dedupePath_eq_probed htaken hfree]
      exact .rename before hlen hall
    · refine .probe before hlen hall fun j hj => ?_
      rcases Nat.lt_succ_iff_lt_or_eq.mp hj with hj | rfl
      · exact htaken j hj
      · simpa [Option.isSome_iff_ne_none] using hfree
  | rename before hlen hall =>
    rw [PutTask.exec]
    cases hren : if fail then none else (t.stoppedAt d t.body.length).rename t.part
        (dedupePath (t.stoppedAt d t.body.length) t.final) with
    | none => exact .leave _ _ hstops
    | some d' =>
      refine .leave _ _ (stops_rename hlen hall ?_)
      split_ifs at hren
      exact hren
  | leave before reply hs => exact .done _ _ hs
  | done before reply hs => exact .done _ _ hs

/-- **Wherever the receiver stops** in a request that runs alone, the disk is as after a request
that is answered, or one that is stopped in the copy. -/
theorem exists_step_eq_alone {s : Server} {req : PutRequest} (hparse : req.parse = .ok t)
    (hbusy : s.busy t.part = false) (cs : List (ℕ × Bool)) :
    ∃ op, ((∃ flt, op = .put req flt) ∨ ∃ n, op = .stop req n) ∧
      (run PutTask.alone (.enter t, s) cs).2.disk = (s.step op).disk := by
  have hat : PutTask.At t s.disk (run PutTask.alone (.enter t, s) cs).1
      (run PutTask.alone (.enter t, s) cs).2.disk :=
    run_induction (P := fun x : PutTask × Server => PutTask.At t s.disk x.1 x.2.disk) .enter
      (fun _ c h => h.exec c.1 c.2) cs
  rcases hat.stops with ⟨n, heq⟩ | ⟨flt, heq⟩
  · refine ⟨.stop req n, .inr ⟨n, rfl⟩, ?_⟩
    rw [heq, Server.step, hparse]
  · refine ⟨.put req flt, .inl ⟨flt, rfl⟩, ?_⟩
    rw [heq, Server.step, Server.handlePut, hparse]
    simp only [hbusy, Bool.false_eq_true, if_false]

end Stops

/-! ### Staged paths -/

/-- The path of a staged file tells its name and its size. -/
theorem partName_inj {name name' : String} {size size' : ℕ}
    (h : partName name size = partName name' size') : name = name' ∧ size = size' := by
  have hdot : ∀ n, '.' ∉ decString n := by
    intro n hmem
    exact absurd (digit_of_mem_decString hmem).1 (by decide)
  have htext : ∀ (name : String) (size : ℕ), (partName name size).toList =
      (name.toList ++ '.' :: decString size) ++ ".part".toList := by
    intro name size
    simp [partName]
  have hlist := congrArg String.toList h
  rw [htext, htext, List.append_cancel_right_eq] at hlist
  have hext := congrArg filepathExt hlist
  rw [filepathExt_append _ (hdot size), filepathExt_append _ (hdot size')] at hext
  rw [hext, List.append_cancel_right_eq] at hlist
  have hval := congrArg (digitsVal? 0) (List.cons.inj hext).2
  rw [digitsVal?_decString, digitsVal?_decString] at hval
  exact ⟨String.toList_inj.mp hlist, Option.some.inj hval⟩

/-- No staged file that `Send` may ask for is longer than its name says. -/
def Server.Roomy (s : Server) : Prop :=
  ∀ peer name size, peer ≠ "" → Sendable name size →
    (staged s.disk ⟨peer, partName name size⟩).length ≤ size

/-! ### Answers -/

section Answers

variable {t : Transfer} {d : Disk Path} {flt : Faults}

theorem verdict_ne_mismatch {n : ℕ} {err : Bool} {k : ℤ} :
    t.verdict n err ≠ some (.mismatch k) := by
  simp only [Transfer.verdict]
  split_ifs <;> simp

/-- The end of a transfer fails only where the operating system refuses. -/
theorem deliver_cases (t : Transfer) (d : Disk Path) (flt : Faults) :
    t.deliver d flt = (.error .os, d) ∨ ∃ dst d', t.deliver d flt = (.ok dst, d') := by
  rw [Transfer.deliver]
  by_cases hsync : flt.sync = true
  · exact .inl (if_pos hsync)
  · rw [if_neg hsync]
    dsimp only
    cases if flt.rename then none else d.rename t.part (dedupePath d t.final) with
    | none => exact .inl rfl
    | some d' => exact .inr ⟨_, d', rfl⟩

/-- A transfer that goes on from the end of what is staged meets no mismatch. -/
theorem put_ne_mismatch (hstat : flt.stat = false) (hlen : (staged d t.part).length = t.offset)
    (k : ℤ) : (t.put d flt).1 ≠ .error (.mismatch k) := by
  rw [Transfer.put]
  split_ifs
  · simp
  · rw [Transfer.append, hstat, if_neg Bool.false_ne_true, data_openFile, if_neg (not_not.mpr hlen)]
    split_ifs
    · simp
    · simp only [Transfer.settle]
      split
      · next e he =>
        intro heq
        rw [Except.error.inj heq] at he
        exact verdict_ne_mismatch he
      · rcases deliver_cases t ((d.openFile t.part).2.pwrite (d.openFile t.part).1 t.offset
          (t.body.take (t.copied flt))) flt with heq | ⟨dst, d', heq⟩
        · rw [heq]
          simp
        · rw [heq]
          simp

/-- One that does not is refused. -/
theorem put_mismatch (flt : Faults) (hmkdir : flt.mkdir = false) (hopen : flt.openFile = false)
    (hlen : (staged d t.part).length ≠ t.offset) : ∃ k, (t.put d flt).1 = .error (.mismatch k) := by
  rw [Transfer.put, if_neg (by simp [hmkdir, hopen]), Transfer.append, data_openFile, if_pos hlen]
  split_ifs
  · exact ⟨_, rfl⟩
  · exact ⟨_, rfl⟩

theorem params_ne_mismatch {name size : String} {k : ℤ} :
    params name size ≠ .error (.mismatch k) := by
  simp only [params]
  split_ifs
  · simp
  · split
    · simp
    · split_ifs <;> simp

theorem parse_ne_mismatch {req : PutRequest} {k : ℤ} : req.parse ≠ .error (.mismatch k) := by
  intro h
  rw [PutRequest.parse] at h
  split at h
  · next e he =>
    rw [sender] at he
    split_ifs at he
    rw [← Except.error.inj he] at h
    cases h
  · split at h
    · next e he =>
      rw [Except.error.inj h] at he
      exact params_ne_mismatch he
    · split at h
      · cases h
      · split_ifs at h
        cases h

/-- A transfer comes from a known peer. -/
theorem sender_ne_of_parse {req : PutRequest} (h : req.parse = .ok t) : t.sender ≠ "" := by
  rw [(parse_ok h).1]
  intro hpeer
  rw [PutRequest.parse, sender, if_pos hpeer] at h
  cases h

end Answers

theorem handleOffset_eq {s : Server} {peer raw name : String} {size : ℕ} (hpeer : peer ≠ "")
    (h : params raw (decimal size) = .ok (name, size)) : s.handleOffset peer raw (decimal size) =
      .ok (staged s.disk ⟨peer, partName name size⟩).length := by
  rw [Server.handleOffset, sender, if_neg hpeer, h]
  simp only [staged]
  cases s.disk.read ⟨peer, partName name size⟩ <;> rfl

/-- What a reply to the first request tells. -/
theorem of_handleOffset {s : Server} {peer raw : String} {size offset : ℕ}
    (h : s.handleOffset peer raw (decimal size) = .ok offset) :
    peer ≠ "" ∧ ∃ name, params raw (decimal size) = .ok (name, size) ∧
      offset = (staged s.disk ⟨peer, partName name size⟩).length := by
  have hpeer : peer ≠ "" := by
    rintro rfl
    rw [Server.handleOffset, sender, if_pos rfl] at h
    cases h
  cases hparams : params raw (decimal size) with
  | error e =>
    rw [Server.handleOffset, sender, if_neg hpeer, hparams] at h
    cases h
  | ok p =>
    obtain ⟨name, size'⟩ := p
    obtain rfl := params_decimal hparams
    rw [handleOffset_eq hpeer hparams] at h
    exact ⟨hpeer, name, rfl, (Except.ok.inj h).symm⟩

/-- The transfer `Send` asks for when it starts from the beginning. -/
theorem parse_sendRequest_zero {peer raw name : String} {file : List UInt8}
    (net : Network) (hpeer : peer ≠ "")
    (hparams : params raw (decimal file.length) = .ok (name, file.length)) :
    ∃ t, (sendRequest peer raw file 0 net).parse = .ok t ∧ t.offset = 0 ∧
      t.part = ⟨peer, partName name file.length⟩ := by
  have hsender : sender (sendRequest peer raw file 0 net).peer = .ok peer := if_neg hpeer
  have hparams' : params (sendRequest peer raw file 0 net).name
      (sendRequest peer raw file 0 net).size = .ok (name, file.length) := hparams
  have hzero : parseInt 64 (sendRequest peer raw file 0 net).offset.toList = some 0 := by
    change parseInt 64 (decimal 0).toList = some 0
    rw [decimal, String.toList_ofList, parseInt_decString]
    rfl
  rw [PutRequest.parse, hsender]
  simp only [hparams', hzero]
  rw [dif_neg (by omega)]
  exact ⟨_, rfl, rfl, rfl⟩

/-- **When `Send` can go on.** The offset it goes on from is the length of what is staged, unless
that is longer than the file. -/
theorem Server.resumable_iff {s : Server} (hidle : ∀ p, s.busy p = false) :
    s.Resumable ↔ s.Roomy := by
  constructor
  · rintro h peer name size hpeer ⟨path, raw, hraw, hparams⟩
    by_contra hlong
    -- a file of this size is sent from the beginning, and something is staged
    obtain ⟨file, rfl⟩ : ∃ file : List UInt8, file.length = size := ⟨.replicate size 0, by simp⟩
    have hoffset := handleOffset_eq (s := s) hpeer hparams
    have hzero :
        resumeAt (staged s.disk ⟨peer, partName name file.length⟩).length file.length = 0 :=
      if_pos (not_le.mp hlong)
    obtain ⟨t, hparse, hoff, hpart⟩ := parse_sendRequest_zero (arriving 0) hpeer hparams
    have hne : (staged s.disk t.part).length ≠ t.offset := by
      rw [hoff, hpart]
      omega
    obtain ⟨k, hk⟩ := put_mismatch noFaults rfl rfl hne
    refine h peer path raw file (arriving 0) noFaults _ hraw rfl hoffset k ?_
    rw [hzero, Server.handlePut, hparse]
    simp only [hidle, Bool.false_eq_true, if_false]
    exact hk
  · intro h peer path raw file net flt offset hraw hstat hoffset k
    obtain ⟨hpeer, name, hparams, hlen⟩ := of_handleOffset hoffset
    have hle : offset ≤ file.length := by
      rw [hlen]
      exact h peer name file.length hpeer ⟨path, raw, hraw, hparams⟩
    rw [resumeAt, if_neg (not_lt.mpr hle), Server.handlePut]
    cases hparse : (sendRequest peer raw file offset net).parse with
    | error e =>
      intro hput
      exact parse_ne_mismatch (hparse.trans (congrArg Except.error (Except.error.inj hput)))
    | ok t =>
      obtain ⟨-, hoff, -, hstaged⟩ := parse_sendRequest hparse s
      rw [stagedFor_eq hparams] at hstaged
      simp only [hidle, Bool.false_eq_true, if_false]
      refine put_ne_mismatch hstat ?_ k
      rw [← hstaged, hoff, hlen]

/-! ### One request -/

section Step

variable {s : Server} {t : Transfer} {d : Disk Path} {flt : Faults}

theorem le_of_verdict {n : ℕ} {err : Bool} {e : DropError} (h : t.verdict n err = some e)
    (he : e ≠ .tooMany) : t.offset + n ≤ t.size := by
  simp only [Transfer.verdict] at h
  split_ifs at h
  · exact absurd (Option.some.inj h).symm he
  all_goals omega

/-- What is staged when the receiver stops. -/
theorem staged_stoppedAt (t : Transfer) (d : Disk Path) (n : ℕ) (p : Path) :
    staged (t.stoppedAt d n) p =
      if p = t.part ∧ (staged d t.part).length = t.offset then staged d t.part ++ t.body.take n
      else staged d p := by
  have hentry := (d.openFile_spec t.part).1
  rw [Transfer.stoppedAt, data_openFile]
  by_cases hlen : (staged d t.part).length = t.offset
  · rw [if_neg (not_not.mpr hlen)]
    by_cases hp : p = t.part
    · rw [if_pos ⟨hp, hlen⟩, hp, staged, Disk.read_pwrite hentry, if_pos rfl, Option.getD_some,
        data_openFile, ← hlen, Disk.splice_length]
    · rw [if_neg fun h => hp h.1, staged, Disk.read_pwrite hentry, if_neg hp]
      exact staged_openFile d t.part p
  · rw [if_pos hlen, if_neg fun h => hlen h.2]
    exact staged_openFile d t.part p

theorem length_staged_stoppedAt (hlen : (staged d t.part).length = t.offset) (n : ℕ) :
    (staged (t.stoppedAt d n) t.part).length = t.offset + min n t.body.length := by
  rw [staged_stoppedAt, if_pos ⟨rfl, hlen⟩, List.length_append, List.length_take, hlen]

/-- The path of a staged file is not among those that `dedupePath` tries for the same request. -/
theorem probed_ne_part (t : Transfer) (i : ℕ) : t.probed i ≠ t.part := by
  intro h
  have hlist := congrArg String.toList (Path.mk.inj h).2
  cases i with
  | zero =>
    have hlen := congrArg List.length hlist
    simp [candidate, partName] at hlen
  | succ i =>
    -- behind the stem there is a blank in the one and a dot in the other
    have hname := stem_append_ext t.name.toList
    have hpart : (partName t.name t.size).toList = stem t.name.toList ++
        (filepathExt t.name.toList ++ '.' :: (decString t.size ++ ".part".toList)) := by
      rw [← List.append_assoc, hname]
      simp [partName]
    have hcand : (candidate t.name (i + 1)).toList = stem t.name.toList ++
        (' ' :: '(' :: (decString (i + 2) ++ ')' :: filepathExt t.name.toList)) := by
      simp [candidate]
    rw [hpart, hcand, List.append_cancel_left_eq] at hlist
    rcases ext_cases t.name.toList with ⟨-, hext, -⟩ | ⟨-, e, -, -, hext, -⟩
    · rw [hext] at hlist
      simp at hlist
    · rw [hext] at hlist
      simp at hlist

theorem dedupePath_stoppedAt (t : Transfer) (d : Disk Path) (n : ℕ) :
    dedupePath (t.stoppedAt d n) t.final = dedupePath d t.final := by
  have hentry : ∀ i, (t.stoppedAt d n).entry (t.probed i) = d.entry (t.probed i) := by
    intro i
    have hopen := (Disk.sameAt_openFile (d := d) (probed_ne_part t i)).1
    rw [Transfer.stoppedAt]
    split_ifs
    · exact hopen
    · exact hopen
  obtain ⟨k, hdst, htaken, hfree⟩ := dedupePath_spec t d
  rw [hdst]
  refine dedupePath_eq_probed (fun j hj => ?_) ?_
  · rw [hentry]
    exact htaken j hj
  · rw [hentry]
    exact hfree

/-- A request that does not get to the copy fails and leaves what is staged. -/
theorem put_of_not_copies (h : ¬ t.Copies d flt) :
    ∃ e d', t.put d flt = (.error e, d') ∧ ∀ p, staged d' p = staged d p := by
  rw [Transfer.put]
  split_ifs with hopen
  · exact ⟨_, _, rfl, fun _ => rfl⟩
  · rw [Transfer.append, data_openFile]
    split_ifs with hstat hlen hseek
    · exact ⟨_, _, rfl, staged_openFile d t.part⟩
    · exact ⟨_, _, rfl, staged_openFile d t.part⟩
    · exact ⟨_, _, rfl, staged_openFile d t.part⟩
    · simp only [not_or, Bool.not_eq_true, not_not] at hopen hstat hlen hseek
      exact absurd ⟨hopen.1, hopen.2, hstat, hlen, hseek⟩ h

/-- **A file that arrives** is delivered where `dedupePath` says, and no other one is. -/
theorem put_eq_ok_iff {dst : Path} :
    (t.put d flt).1 = .ok dst ↔ t.Arrives d flt ∧ dedupePath d t.final = dst := by
  by_cases hcopies : t.Copies d flt
  · have hpart : (t.stoppedAt d (t.copied flt)).entry t.part ≠ none := by
      have hentry := (d.openFile_spec t.part).1
      rw [stoppedAt_eq hcopies.length]
      exact fun h => Option.some_ne_none _ (hentry.symm.trans h)
    rw [put_of_copies hcopies, Transfer.settle]
    cases hv : t.verdict (t.copied flt) (t.bodyErr || decide (t.copied flt < t.body.length)) with
    | some e =>
      refine iff_of_false (fun h => by cases h) ?_
      rintro ⟨h, -⟩
      have hnone := t.verdict_eq_none_iff.mpr ⟨rfl, h.copied ▸ h.size⟩
      rw [h.bodyErr, Bool.false_or, decide_eq_false (by rw [h.copied]; exact lt_irrefl _),
        hnone] at hv
      cases hv
    | none =>
      obtain ⟨herr, hsize⟩ := t.verdict_eq_none_iff.mp hv
      rw [Bool.or_eq_false_iff, decide_eq_false_iff_not] at herr
      have hcopied : t.copied flt = t.body.length := by
        have := t.copied_le flt
        omega
      have harrives : t.Arrives d flt ↔ flt.sync = false ∧ flt.rename = false :=
        ⟨fun h => ⟨h.sync, h.rename⟩,
          fun h => ⟨hcopies, herr.1, hcopied, hcopied ▸ hsize, h.1, h.2⟩⟩
      simp only [Transfer.deliver, dedupePath_stoppedAt, harrives]
      cases hren : (t.stoppedAt d (t.copied flt)).rename t.part (dedupePath d t.final) with
      | none =>
        rw [Disk.rename] at hren
        split at hren
        · next hgone => exact absurd hgone hpart
        · cases hren
      | some d' => cases flt.sync <;> cases flt.rename <;> simp
  · obtain ⟨e, d', hput, -⟩ := put_of_not_copies hcopies
    rw [hput]
    exact iff_of_false (fun h => by cases h) fun h => hcopies h.1.toCopies

/-- Bytes that should be removed and are not. -/
theorem length_staged_put (h : t.Copies d flt) (hremove : flt.remove = true)
    (hmany : t.size < t.offset + t.copied flt) :
    (staged (t.put d flt).2 t.part).length = t.offset + t.copied flt := by
  rw [put_of_copies h, Transfer.settle, Transfer.verdict, if_pos (.inr hmany), if_pos hmany]
  show (staged (t.discard (t.stoppedAt d (t.copied flt)) .tooMany flt.remove) t.part).length = _
  rw [Transfer.discard, if_neg (by simp [hremove]), length_staged_stoppedAt h.length,
    Nat.min_eq_left (t.copied_le flt)]

/-- A transfer that ends with an error leaves no more staged than was announced, unless bytes that
should be removed are not. -/
theorem staged_put_le (hle : (staged d t.part).length ≤ t.size) {e : DropError}
    (herr : (t.put d flt).1 = .error e)
    (hfew : t.Copies d flt → flt.remove = true → t.offset + t.copied flt ≤ t.size) :
    (staged (t.put d flt).2 t.part).length ≤ t.size := by
  by_cases hcopies : t.Copies d flt
  · have hlen := length_staged_stoppedAt hcopies.length (t.copied flt)
    rw [Nat.min_eq_left (t.copied_le flt)] at hlen
    rw [put_of_copies hcopies, Transfer.settle] at herr ⊢
    cases hv : t.verdict (t.copied flt) (t.bodyErr || decide (t.copied flt < t.body.length)) with
    | some e' =>
      simp only [Transfer.discard]
      split_ifs with hgone
      · rw [staged, Disk.read_remove, if_pos rfl]
        exact Nat.zero_le _
      · rw [hlen]
        by_cases he : e' = .tooMany
        · exact hfew hcopies (by_contra fun h => hgone ⟨he, h⟩)
        · exact le_of_verdict hv he
    | none =>
      have hsize := (t.verdict_eq_none_iff.mp hv).2
      rw [hv] at herr
      rcases deliver_cases t (t.stoppedAt d (t.copied flt)) flt with heq | ⟨dst, d', heq⟩
      · simp only [heq, hlen, hsize, le_refl]
      · simp only [heq] at herr
        cases herr
  · obtain ⟨e', d', hput, hstaged⟩ := put_of_not_copies hcopies
    rw [hput, hstaged]
    exact hle

/-- The other paths are left alone, unless the file is delivered there. -/
theorem staged_put_of_ne {p : Path} (hp : p ≠ t.part) {e : DropError}
    (h : (t.put d flt).1 = .error e) : staged (t.put d flt).2 p = staged d p := by
  have hcases := t.put_cases d flt
  generalize t.put d flt = r at hcases h
  cases hcases with
  | unopened => rfl
  | refused hread => rw [staged, hread, if_neg hp, staged]
  | kept _ _ hread => rw [staged, hread, if_neg hp, staged]
  | removed _ hread => rw [staged, hread, if_neg hp, staged]
  | delivered => cases h

/-- The path of a staged file with the size in its name. -/
theorem size_of_part_eq {peer name : String} {size : ℕ}
    (h : (⟨peer, partName name size⟩ : Path) = t.part) : name = t.name ∧ size = t.size :=
  partName_inj (Path.mk.inj h).2

/-- A request that fails leaves no staged file longer than it should be, unless bytes that should be
removed are not. -/
theorem roomy_put_iff_of_error (h : s.Roomy) (hsender : t.sender ≠ "") {e : DropError}
    (herr : (t.put s.disk flt).1 = .error e) :
    Server.Roomy { s with disk := (t.put s.disk flt).2 } ↔
      (t.Copies s.disk flt → flt.remove = true → Sendable t.name t.size →
        t.offset + t.copied flt ≤ t.size) := by
  constructor
  · intro hroomy hcopies hremove hsend
    by_contra hmany
    rw [not_le] at hmany
    have hle : (staged (t.put s.disk flt).2 t.part).length ≤ t.size :=
      hroomy t.sender t.name t.size hsender hsend
    rw [length_staged_put hcopies hremove hmany] at hle
    omega
  · intro hcond peer name size hpeer hsend
    by_cases hp : (⟨peer, partName name size⟩ : Path) = t.part
    · obtain ⟨rfl, rfl⟩ := size_of_part_eq hp
      have hold := h peer t.name t.size hpeer hsend
      rw [hp] at hold ⊢
      exact staged_put_le hold herr fun hcopies hremove => hcond hcopies hremove hsend
    · exact (congrArg List.length (staged_put_of_ne hp herr)).trans_le
        (h peer name size hpeer hsend)

/-- A file that is delivered is harmless unless its path is that of a shorter staged file. -/
theorem roomy_put_iff_of_ok (h : s.Roomy) (hsender : t.sender ≠ "") {dst : Path}
    (hok : (t.put s.disk flt).1 = .ok dst) : Server.Roomy { s with disk := (t.put s.disk flt).2 } ↔
      ∀ name size, Sendable name size → dst.name = partName name size → t.size ≤ size := by
  have hcases := t.put_cases s.disk flt
  generalize t.put s.disk flt = r at hcases hok ⊢
  cases hcases with
  | @delivered dst' d' i hlen hsize hdst hne hfree hread =>
    obtain rfl := Except.ok.inj hok
    have hnew : staged d' dst' = staged s.disk t.part ++ t.body := by
      rw [staged, hread, if_pos rfl, Option.getD_some]
    have hlength : (staged d' dst').length = t.size := by
      rw [hnew, List.length_append, hlen, hsize]
    constructor
    · intro hroomy name size hsend hname
      have hpath : (⟨t.sender, partName name size⟩ : Path) = dst' := by
        rw [← hname, hdst]
      have hle : (staged d' ⟨t.sender, partName name size⟩).length ≤ size :=
        hroomy t.sender name size hsender hsend
      rwa [hpath, hlength] at hle
    · intro hcond peer name size hpeer hsend
      change (staged d' ⟨peer, partName name size⟩).length ≤ size
      by_cases hp : (⟨peer, partName name size⟩ : Path) = dst'
      · rw [hp, hlength]
        exact hcond name size hsend (congrArg Path.name hp).symm
      · rw [staged, hread, if_neg hp]
        split_ifs
        · exact Nat.zero_le _
        · exact h peer name size hpeer hsend
  | _ => cases hok

/-- A receiver that stops leaves too long a file exactly if it has written too many bytes. -/
theorem roomy_stoppedAt_iff (h : s.Roomy) (hsender : t.sender ≠ "") (n : ℕ) :
    Server.Roomy ⟨t.stoppedAt s.disk n, fun _ => false⟩ ↔ (Sendable t.name t.size →
      (staged s.disk t.part).length = t.offset → t.offset + min n t.body.length ≤ t.size) := by
  constructor
  · intro hroomy hsend hlen
    have hle : (staged (t.stoppedAt s.disk n) t.part).length ≤ t.size :=
      hroomy t.sender t.name t.size hsender hsend
    rwa [length_staged_stoppedAt hlen] at hle
  · intro hcond peer name size hpeer hsend
    change (staged (t.stoppedAt s.disk n) ⟨peer, partName name size⟩).length ≤ size
    by_cases hp : (⟨peer, partName name size⟩ : Path) = t.part ∧
        (staged s.disk t.part).length = t.offset
    · obtain ⟨hp, hlen⟩ := hp
      obtain ⟨rfl, rfl⟩ := size_of_part_eq hp
      rw [hp, length_staged_stoppedAt hlen]
      exact hcond hsend hlen
    · rw [staged_stoppedAt, if_neg hp]
      exact h peer name size hpeer hsend

/-- What is staged after a transfer. -/
theorem roomy_put_iff (h : s.Roomy) (hsender : t.sender ≠ "") :
    Server.Roomy { s with disk := (t.put s.disk flt).2 } ↔
      (t.Arrives s.disk flt → ∀ name size, Sendable name size →
        (dedupePath s.disk t.final).name = partName name size → t.size ≤ size) ∧
      (t.Copies s.disk flt → flt.remove = true → Sendable t.name t.size →
        t.offset + t.copied flt ≤ t.size) := by
  by_cases harrives : t.Arrives s.disk flt
  · have hsize : t.offset + t.copied flt ≤ t.size := (harrives.copied ▸ harrives.size).le
    rw [roomy_put_iff_of_ok h hsender (put_eq_ok_iff.mpr ⟨harrives, rfl⟩)]
    exact ⟨fun hall => ⟨fun _ => hall, fun _ _ _ => hsize⟩, fun hall => hall.1 harrives⟩
  · cases hput : (t.put s.disk flt).1 with
    | ok dst => exact absurd (put_eq_ok_iff.mp hput).1 harrives
    | error e =>
      rw [roomy_put_iff_of_error h hsender hput]
      exact (and_iff_right fun hyes => absurd hyes harrives).symm

/-- **When a request leaves no staged file longer than it should be.** -/
theorem roomy_step_iff (h : s.Roomy) (op : RequestOp) : (s.step op).Roomy ↔ Orderly s op := by
  cases op with
  | put req flt =>
    rw [Server.step, Orderly, Server.handlePut]
    cases hparse : req.parse with
    | error e => exact iff_of_true h fun _ hok => by cases hok
    | ok t =>
      cases hbusy : s.busy t.part with
      | true =>
        simp only [hbusy, if_true]
        refine iff_of_true h fun t' ht' hidle => ?_
        obtain rfl := Except.ok.inj ht'
        exact Bool.noConfusion (hbusy.symm.trans hidle)
      | false =>
        simp only [hbusy, Bool.false_eq_true, if_false]
        refine (roomy_put_iff h (sender_ne_of_parse hparse)).trans ?_
        constructor
        · intro hcond t' ht' _
          obtain rfl := Except.ok.inj ht'
          exact hcond
        · exact fun hall => hall t rfl hbusy
  | stop req n =>
    rw [Server.step, Orderly]
    cases hparse : req.parse with
    | error e =>
      refine iff_of_true h fun _ hok => ?_
      cases hok
    | ok t =>
      refine (roomy_stoppedAt_iff h (sender_ne_of_parse hparse) n).trans ?_
      constructor
      · intro hcond t' ht'
        obtain rfl := Except.ok.inj ht'
        exact hcond
      · exact fun hall => hall t rfl

theorem idle_step (hidle : ∀ p, s.busy p = false) (op : RequestOp) (p : Path) :
    (s.step op).busy p = false := by
  cases op with
  | put req flt =>
    rcases handlePut_cases s req flt with ⟨e, hput⟩ | ⟨t, -, -, hput⟩
    · rw [Server.step, hput]
      exact hidle p
    · rw [Server.step, hput]
      exact hidle p
  | stop req n =>
    rw [Server.step]
    split <;> rfl

end Step

/-- **When `Send` never meets an offset mismatch.** In every run of requests, some of them cut short
by a stop of the receiver: `Send` can go on in every state reached if and only if no file is
delivered under the path of a shorter staged file, and the receiver neither stops with more bytes
staged than were announced nor fails to remove them. -/
theorem resumable_run_iff (ops : List RequestOp) :
    (∀ ops', ops' <+: ops → (run Server.step emptyServer ops').Resumable) ↔
      Along Server.step Orderly emptyServer ops := by
  have hidle : ∀ p, emptyServer.busy p = false := fun _ => rfl
  have hroomy : emptyServer.Roomy := fun _ _ _ _ _ => Nat.zero_le _
  refine forall_prefix_iff_along (J := fun s : Server => ∀ p, s.busy p = false) hidle
    ((Server.resumable_iff hidle).mpr hroomy) (fun _ op h => idle_step h op) ?_ ops
  intro s op hs h
  rw [Server.resumable_iff (idle_step hs op)]
  exact roomy_step_iff ((Server.resumable_iff hs).mp h) op

/-- The inbox after a file `x.2.part` of five bytes was delivered. -/
def sampleWedged : Server :=
  Server.step emptyServer
    (.put ⟨"a", "x.2.part", decimal 5, decimal 0, [1, 2, 3, 4, 5], false⟩ noFaults)

/-- The inbox after the receiver has stopped when four of six bytes of a file `x` were there that
was announced with two. -/
def sampleStopped : Server :=
  Server.step emptyServer (.stop ⟨"a", "x", decimal 2, decimal 0, [1, 2, 3, 4, 5, 6], false⟩ 4)

/-- **`Send` is refused for good.** A file `x` of two bytes is to be sent to either inbox. What is
staged for it is longer, `Send` starts from the beginning and is told that the offset does not
match. -/
theorem send_wedged :
    (send sampleWedged sampleWedged "a" "x" [8, 9] (arriving 2) noFaults).1 =
        .error (.rejected (.mismatch 5)) ∧
      (send sampleStopped sampleStopped "a" "x" [8, 9] (arriving 2) noFaults).1 =
        .error (.rejected (.mismatch 4)) ∧
      ¬sampleWedged.Resumable ∧ ¬sampleStopped.Resumable := by
  refine ⟨by decide +kernel, by decide +kernel, fun h => ?_, fun h => ?_⟩
  · exact h "a" "x" "x" [8, 9] (arriving 2) noFaults 5 (by decide +kernel) rfl (by decide +kernel) 5
      (by decide +kernel)
  · exact h "a" "x" "x" [8, 9] (arriving 2) noFaults 4 (by decide +kernel) rfl (by decide +kernel) 4
      (by decide +kernel)

end Overdrop

end OverMesh
