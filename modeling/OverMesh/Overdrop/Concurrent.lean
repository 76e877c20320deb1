import OverMesh.Internal.Runs
import OverMesh.Internal.Slots
import OverMesh.Overdrop.Delivery

/-!
# Transfers at the same time

The requests of `handlePut` as they run side by side. A request that is being handled is a
`PutTask`, the point of the handler that comes next, and a step of the receiver is one of these
points: the look at the busy marks, one operation on the disk, or one path that `dedupePath` looks
at.

The busy marks keep two transfers off one staged file. Nothing keeps them off one final path:
looking whether it is free and renaming to it are two steps.

## Main definitions

* `PutTask`, `PutTask.exec`
* `Receiver`, `ReceiverOp`, `Receiver.step`
* `Unshared` — the path a request renames to is not one that another request is about to rename to

## Main results

* `PutTask.exec_moves` — what a step of a request can do
* `delivered_run` — **without shared paths every request that is answered with success has its file
  in the inbox**
* `rename_replaces` — two requests of one name and different sizes, and one file of the two is lost
-/

namespace OverMesh

open Runs

namespace Overdrop

/-- A request that is being handled, as the point of `handlePut` that comes next. `before` is what
was staged when the file was opened. -/
inductive PutTask where
  /-- Before the busy check. -/
  | enter (t : Transfer)
  /-- Before `MkdirAll` and `OpenFile`. -/
  | openPart (t : Transfer)
  /-- Before `Stat`. -/
  | stat (t : Transfer) (file : ℕ)
  | seek (t : Transfer) (file : ℕ) (before : List UInt8)
  /-- In `io.Copy`, after `done` bytes of the body. -/
  | copy (t : Transfer) (file : ℕ) (before : List UInt8) (done : ℕ)
  /-- After a copy that is refused, before `os.Remove` if there were too many bytes. -/
  | discard (t : Transfer) (before : List UInt8) (e : DropError)
  | sync (t : Transfer) (before : List UInt8)
  /-- In `dedupePath`, before the `i`-th path. -/
  | probe (t : Transfer) (before : List UInt8) (i : ℕ)
  | rename (t : Transfer) (before : List UInt8) (dst : Path)
  /-- Before the busy mark is taken away. -/
  | leave (t : Transfer) (before : List UInt8) (reply : Except DropError Path)
  | done (t : Transfer) (before : List UInt8) (reply : Except DropError Path)

/-- The path `dedupePath` looks at. -/
def Transfer.probed (t : Transfer) (i : ℕ) : Path := ⟨t.sender, candidate t.name i⟩

/-- **`dedupePath`** takes the first path that is free. -/
theorem dedupePath_spec (t : Transfer) (d : Disk Path) : ∃ k, dedupePath d t.final = t.probed k ∧
      (∀ j < k, (d.entry (t.probed j)).isSome = true) ∧
      (d.entry (t.probed k)).isNone = true := by
  obtain ⟨k, -, heq, htaken, -⟩ := FirstFree.search_eq (fun q => (d.entry q).isSome)
    (fun i => t.probed i) d.paths.length 0
  have hdst : dedupePath d t.final = t.probed k := by
    rw [← Nat.zero_add k]
    exact heq
  refine ⟨k, hdst, fun j hj => by simpa using htaken j hj, ?_⟩
  rw [← hdst, Option.isNone_iff_eq_none]
  exact Disk.read_eq_none_iff.mp (read_dedupePath _ _)

/-- One step of a request. `n` is how many bytes a copy writes, and `fail` whether the operating
system refuses, for a copy after these bytes. -/
def PutTask.exec (s : Server) (n : ℕ) (fail : Bool) : PutTask → PutTask × Server
  | .enter t =>
    if s.busy t.part then (.done t [] (.error .inProgress), s)
    else (.openPart t, { s with busy := Function.update s.busy t.part true })
  | .openPart t =>
    if fail then (.leave t [] (.error .os), s)
    else (.stat t (s.disk.openFile t.part).1, { s with disk := (s.disk.openFile t.part).2 })
  | .stat t file =>
    if fail then (.leave t [] (.error (.mismatch (-1))), s)
    else if (s.disk.data file).length ≠ t.offset then
      (.leave t [] (.error (.mismatch (s.disk.data file).length)), s)
    else (.seek t file (s.disk.data file), s)
  | .seek t file before =>
    if fail then (.leave t before (.error .os), s) else (.copy t file before 0, s)
  | .copy t file before k =>
    let k' := min (k + n) t.body.length
    let d := s.disk.pwrite file (t.offset + k) ((t.body.drop k).take n)
    if k' < t.body.length ∧ ¬ fail then (.copy t file before k', { s with disk := d })
    else match t.verdict k' (fail || t.bodyErr) with
      | some e => (.discard t before e, { s with disk := d })
      | none => (.sync t before, { s with disk := d })
  | .discard t before e =>
    (.leave t before (.error e), { s with disk := t.discard s.disk e fail })
  | .sync t before => if fail then (.leave t before (.error .os), s) else (.probe t before 0, s)
  | .probe t before i =>
    if (s.disk.entry (t.probed i)).isNone then (.rename t before (t.probed i), s)
    else (.probe t before (i + 1), s)
  | .rename t before dst =>
    match if fail then none else s.disk.rename t.part dst with
    | none => (.leave t before (.error .os), s)
    | some d => (.leave t before (.ok dst), { s with disk := d })
  | .leave t before reply =>
    (.done t before reply, { s with busy := Function.update s.busy t.part false })
  | .done t before reply => (.done t before reply, s)

/-- Steps of a request while no other one takes any. -/
def PutTask.alone (x : PutTask × Server) (c : ℕ × Bool) : PutTask × Server := x.1.exec x.2 c.1 c.2

/-! ### Requests side by side -/

/-- The receiver and the requests it has had. -/
structure Receiver where
  server : Server
  tasks : List PutTask

/-- The steps: a request comes in, or the `i`-th one takes a step. -/
inductive ReceiverOp where
  | put (req : PutRequest)
  | exec (i n : ℕ) (fail : Bool)

/-- One step. -/
def Receiver.step (r : Receiver) : ReceiverOp → Receiver
  | .put req =>
    match req.parse with
    | .error _ => r
    | .ok t => { r with tasks := r.tasks ++ [.enter t] }
  | .exec i n fail =>
    match r.tasks[i]? with
    | none => r
    | some k => ⟨(k.exec r.server n fail).2, r.tasks.set i (k.exec r.server n fail).1⟩

/-! ### Answers -/

namespace PutTask

/-- The transfer of a request. -/
def transfer : PutTask → Transfer
  | .enter t | .openPart t | .stat t _ | .seek t _ _ | .copy t _ _ _ | .discard t _ _ | .sync t _
  | .probe t _ _ | .rename t _ _ | .leave t _ _ | .done t _ _ => t

/-- Where the file of a request that was answered with success is, and its bytes: those that were
staged, and the body. -/
def answer : PutTask → Option (Path × List UInt8)
  | .leave t before (.ok dst) | .done t before (.ok dst) => some (dst, before ++ t.body)
  | _ => none

/-- The path a request is about to rename to. -/
def target : PutTask → Option Path
  | .rename _ _ dst => some dst
  | _ => none

/-- The path that the next step of the request renames to. -/
def renames (k : PutTask) (fail : Bool) : Option Path := if fail then none else k.target

end PutTask

/-- Every request that was answered with success has a file of its own in the inbox, with its
bytes. -/
def Receiver.Delivered (r : Receiver) : Prop :=
  ((r.tasks.filterMap PutTask.answer).map Prod.fst).Nodup ∧
    ∀ f ∈ r.tasks.filterMap PutTask.answer, r.server.disk.read f.1 = some f.2

instance (r : Receiver) : Decidable r.Delivered := inferInstanceAs (Decidable (_ ∧ _))

/-- The name of the request does not look like that of a staged file. -/
def ReceiverOp.PlainName : ReceiverOp → Prop
  | .put req => ∀ t ∈ req.parse.toOption, ¬ EndsPart t.name
  | .exec _ _ _ => True

instance (op : ReceiverOp) : Decidable op.PlainName := by
  cases op <;> unfold ReceiverOp.PlainName <;> infer_instance

/-- The path that a request renames to is not one that another request has found free and is about
to rename to as well. -/
def Unshared (r : Receiver) : ReceiverOp → Prop
  | .put _ => True
  | .exec i _ fail => ∀ k ∈ r.tasks[i]?, ∀ p ∈ k.renames fail, ∀ k' ∈ r.tasks.eraseIdx i,
    k'.target ≠ some p

instance (r : Receiver) (op : ReceiverOp) : Decidable (Unshared r op) := by
  cases op <;> unfold Unshared <;> infer_instance

/-! ### What holds of a request -/

namespace PutTask

/-- The path a request has marked as busy. -/
def part : PutTask → Option Path
  | .enter _ | .done _ _ _ => none
  | .openPart t | .stat t _ | .seek t _ _ | .copy t _ _ _ | .discard t _ _ | .sync t _
  | .probe t _ _ | .rename t _ _ | .leave t _ _ => some t.part

/-- The path of the file of a request that was answered with success. -/
def delivered (k : PutTask) : Option Path := k.answer.map Prod.fst

/-- The final path a request is about to take or has taken. -/
def claims (k : PutTask) : Option Path := k.target.or k.delivered

/-- What is on the disk at each point. -/
def Sound (d : Disk Path) : PutTask → Prop
  | .stat t file => d.entry t.part = some file
  | .seek t file before => d.entry t.part = some file ∧ before.length = t.offset ∧
    d.data file = before
  | .copy t file before k => d.entry t.part = some file ∧ before.length = t.offset ∧
    k ≤ t.body.length ∧ d.data file = before ++ t.body.take k
  | .sync t before | .probe t before _ => d.read t.part = some (before ++ t.body)
  | .rename t before dst => d.read t.part = some (before ++ t.body) ∧ d.read dst = none ∧
    ¬ EndsPart dst.name
  | .leave t before (.ok dst) | .done t before (.ok dst) =>
    d.read dst = some (before ++ t.body) ∧ ¬ EndsPart dst.name
  | _ => True

variable {d d' : Disk Path} {k : PutTask} {p : Path}

theorem part_eq (h : k.part = some p) : p = k.transfer.part := by
  cases k with
  | enter t => cases h
  | done t before reply => cases h
  | _ => exact (Option.some.inj h).symm

theorem endsPart_of_part (h : k.part = some p) : EndsPart p.name := by
  rw [part_eq h]
  exact endsPart_partName _ _

theorem claims_cases (h : k.claims = some p) : k.target = some p ∨ k.delivered = some p := by
  rcases Option.or_eq_some_iff.mp h with htarget | ⟨-, hdelivered⟩
  · exact .inl htarget
  · exact .inr hdelivered

theorem target_of_renames {fail : Bool} (h : k.renames fail = some p) : k.target = some p := by
  rw [renames] at h
  split_ifs at h
  exact h

theorem Sound.target (h : k.Sound d) (hp : k.target = some p) :
    d.read p = none ∧ ¬ EndsPart p.name := by
  cases k with
  | rename t before dst =>
    obtain rfl := Option.some.inj hp
    exact h.2
  | _ => cases hp

theorem Sound.answer {f : Path × List UInt8} (h : k.Sound d) (hf : k.answer = some f) :
    d.read f.1 = some f.2 ∧ ¬ EndsPart f.1.name := by
  cases k with
  | leave t before reply =>
    cases reply with
    | error e => cases hf
    | ok dst =>
      obtain rfl := Option.some.inj hf
      exact h
  | done t before reply =>
    cases reply with
    | error e => cases hf
    | ok dst =>
      obtain rfl := Option.some.inj hf
      exact h
  | _ => cases hf

theorem Sound.delivered (h : k.Sound d) (hp : k.delivered = some p) :
    d.read p ≠ none ∧ ¬ EndsPart p.name := by
  obtain ⟨f, hf, rfl⟩ := Option.map_eq_some_iff.mp hp
  obtain ⟨hread, hplain⟩ := h.answer hf
  exact ⟨by simp [hread], hplain⟩

theorem Sound.not_endsPart (h : k.Sound d) (hp : k.claims = some p) : ¬ EndsPart p.name := by
  rcases claims_cases hp with ht | hd
  · exact (h.target ht).2
  · exact (h.delivered hd).2

/-- What holds of a request depends on its staged file and its final path alone. -/
theorem Sound.congr (h : k.Sound d) (hpart : ∀ p ∈ k.part, d.SameAt d' p)
    (hclaims : ∀ p ∈ k.claims, d.SameAt d' p) : k.Sound d' := by
  cases k with
  | enter t => trivial
  | openPart t => trivial
  | stat t file => exact (hpart _ rfl).1.trans h
  | seek t file before =>
    obtain ⟨hentry, hlen, hdata⟩ := h
    have hsame := hpart _ rfl
    exact ⟨hsame.1.trans hentry, hlen, (hsame.2 file hentry).trans hdata⟩
  | copy t file before k =>
    obtain ⟨hentry, hlen, hk, hdata⟩ := h
    have hsame := hpart _ rfl
    exact ⟨hsame.1.trans hentry, hlen, hk, (hsame.2 file hentry).trans hdata⟩
  | discard t before e => trivial
  | sync t before => exact (hpart _ rfl).read.trans h
  | probe t before i => exact (hpart _ rfl).read.trans h
  | rename t before dst =>
    exact ⟨(hpart _ rfl).read.trans h.1, (hclaims _ rfl).read.trans h.2.1, h.2.2⟩
  | leave t before reply =>
    cases reply with
    | error e => trivial
    | ok dst => exact ⟨(hclaims _ rfl).read.trans h.1, h.2⟩
  | done t before reply =>
    cases reply with
    | error e => trivial
    | ok dst => exact ⟨(hclaims _ rfl).read.trans h.1, h.2⟩

/-- **What a step of a request can do.** It stays with its staged file, and the only other path it
touches is the one it renames to. -/
structure Moves (s : Server) (k : PutTask) (fail : Bool) (out : PutTask × Server) : Prop where
  transfer : out.1.transfer = k.transfer
  sound : out.1.Sound out.2.disk
  marked : ∀ p ∈ out.1.part, out.2.busy p = true
  busy : ∀ p, k.part ≠ some p → s.busy p = true → out.2.busy p = true
  part : ∀ p ∈ out.1.part, k.part = some p ∨ s.busy p = false
  delivered : ∀ p ∈ out.1.delivered, k.delivered = some p ∨ k.renames fail = some p
  same : ∀ p, k.part ≠ some p → k.renames fail ≠ some p → s.disk.SameAt out.2.disk p

namespace Moves

variable {s : Server} {k' : PutTask} {fail : Bool}

/-- A step that leaves the marks alone. -/
theorem on_disk (hmarked : ∀ p ∈ k.part, s.busy p = true) (htransfer : k'.transfer = k.transfer)
    (hpart : k'.part = k.part) (hsound : k'.Sound d')
    (hdelivered : ∀ p ∈ k'.delivered, k.delivered = some p ∨ k.renames fail = some p)
    (hsame : ∀ p, k.part ≠ some p → k.renames fail ≠ some p → s.disk.SameAt d' p) :
    Moves s k fail (k', { s with disk := d' }) where
  transfer := htransfer
  sound := hsound
  marked p hp := hmarked p (hpart ▸ hp)
  busy _ _ hb := hb
  part _ hp := .inl (hpart ▸ hp)
  delivered := hdelivered
  same := hsame

/-- A step that changes nothing but the request. -/
theorem on_task (hmarked : ∀ p ∈ k.part, s.busy p = true) (htransfer : k'.transfer = k.transfer)
    (hpart : k'.part = k.part) (hsound : k'.Sound s.disk)
    (hdelivered : ∀ p ∈ k'.delivered, k.delivered = some p ∨ k.renames fail = some p) :
    Moves s k fail (k', s) :=
  on_disk hmarked htransfer hpart hsound hdelivered fun p _ _ => .refl _ p

/-- A request that is refused. -/
theorem refused {before : List UInt8} {e : DropError} (hmarked : ∀ p ∈ k.part, s.busy p = true)
    (hpart : k.part = some k.transfer.part)
    (hsame : ∀ p, k.part ≠ some p → k.renames fail ≠ some p → s.disk.SameAt d' p) :
    Moves s k fail (.leave k.transfer before (.error e), { s with disk := d' }) :=
  on_disk hmarked rfl hpart.symm trivial (fun _ hp => by cases hp) hsame

end Moves

section Exec

variable {s : Server} {t : Transfer} {before : List UInt8} (n : ℕ) (fail : Bool)

theorem exec_enter : Moves s (.enter t) fail (exec s n fail (.enter t)) := by
  rw [exec]
  split_ifs with hbusy
  · exact Moves.on_task (fun _ hp => by cases hp) rfl rfl trivial (fun _ hp => by cases hp)
  · refine ⟨rfl, trivial, ?_, ?_, ?_, ?_, fun p _ _ => .refl _ p⟩
    · rintro p ⟨⟩
      exact Function.update_self ..
    · intro p _ hb
      by_cases hp : p = t.part
      · rw [hp]
        exact Function.update_self ..
      · exact (Function.update_of_ne hp ..).trans hb
    · rintro p ⟨⟩
      exact .inr ((Bool.not_eq_true _).mp hbusy)
    · intro p hp
      cases hp

theorem exec_openPart (hmarked : ∀ p ∈ (openPart t).part, s.busy p = true) :
    Moves s (.openPart t) fail (exec s n fail (.openPart t)) := by
  rw [exec]
  split_ifs
  · exact Moves.refused hmarked rfl fun p _ _ => .refl _ p
  · refine Moves.on_disk hmarked rfl rfl (s.disk.openFile_spec t.part).1
      (fun _ hp => by cases hp) ?_
    intro p hp _
    exact Disk.sameAt_openFile fun he => hp (congrArg some he.symm)

theorem exec_stat {file : ℕ} (hmarked : ∀ p ∈ (stat t file).part, s.busy p = true)
    (hsound : (stat t file).Sound s.disk) :
    Moves s (.stat t file) fail (exec s n fail (.stat t file)) := by
  rw [exec]
  split_ifs with hfail hlen
  · exact Moves.refused hmarked rfl fun p _ _ => .refl _ p
  · exact Moves.refused hmarked rfl fun p _ _ => .refl _ p
  · exact Moves.on_task hmarked rfl rfl ⟨hsound, not_not.mp hlen, rfl⟩ (fun _ hp => by cases hp)

theorem exec_seek {file : ℕ} (hmarked : ∀ p ∈ (seek t file before).part, s.busy p = true)
    (hsound : (seek t file before).Sound s.disk) :
    Moves s (.seek t file before) fail (exec s n fail (.seek t file before)) := by
  obtain ⟨hentry, hlen, hdata⟩ := hsound
  rw [exec]
  split_ifs
  · exact Moves.refused hmarked rfl fun p _ _ => .refl _ p
  · refine Moves.on_task hmarked rfl rfl ⟨hentry, hlen, Nat.zero_le _, ?_⟩ (fun _ hp => by cases hp)
    rw [List.take_zero, List.append_nil, hdata]

/-- A copy appends to what it has written. -/
theorem copied_data {file k : ℕ} (hsound : (copy t file before k).Sound d) :
    (d.pwrite file (t.offset + k) ((t.body.drop k).take n)).data file =
      before ++ t.body.take (min (k + n) t.body.length) := by
  obtain ⟨-, hlen, hk, hdata⟩ := hsound
  have hpos : t.offset + k = (d.data file).length := by
    rw [hdata, List.length_append, List.length_take, hlen, Nat.min_eq_left hk]
  rw [Disk.data_pwrite, hpos, Disk.splice_length, hdata, List.append_assoc,
    ← List.take_add, ← List.take_eq_take_min]

theorem exec_copy {file k : ℕ} (hmarked : ∀ p ∈ (copy t file before k).part, s.busy p = true)
    (hsound : (copy t file before k).Sound s.disk) :
    Moves s (.copy t file before k) fail (exec s n fail (.copy t file before k)) := by
  have hdata := copied_data n hsound
  obtain ⟨hentry, hlen, -, -⟩ := hsound
  have hsame : ∀ p, some t.part ≠ some p → s.disk.SameAt
      (s.disk.pwrite file (t.offset + k) ((t.body.drop k).take n)) p := by
    intro p hp
    exact Disk.sameAt_pwrite hentry (fun he => hp (congrArg some he.symm)) _ _
  simp only [exec]
  split_ifs with hmore
  · exact Moves.on_disk hmarked rfl rfl ⟨hentry, hlen, Nat.min_le_right .., hdata⟩
      (fun _ hp => by cases hp) fun p hp _ => hsame p hp
  · cases hverdict : t.verdict (min (k + n) t.body.length) (fail || t.bodyErr) with
    | some e =>
      exact Moves.on_disk hmarked rfl rfl trivial (fun _ hp => by cases hp) fun p hp _ => hsame p hp
    | none =>
      -- no error, so the copy has come to the end of the body
      obtain ⟨herr, -⟩ := t.verdict_eq_none_iff.mp hverdict
      rw [Bool.or_eq_false_iff] at herr
      have hall : min (k + n) t.body.length = t.body.length := by
        have hend : ¬ min (k + n) t.body.length < t.body.length :=
          fun h => hmore ⟨h, by simp [herr.1]⟩
        omega
      rw [hall, List.take_length] at hdata
      refine Moves.on_disk hmarked rfl rfl ?_ (fun _ hp => by cases hp) fun p hp _ => hsame p hp
      have hentry' : (s.disk.pwrite file (t.offset + k) ((t.body.drop k).take n)).entry t.part =
        some file := hentry
      exact (Disk.read_eq_some_of_entry hentry').trans (congrArg some hdata)

theorem exec_discard {e : DropError} (hmarked : ∀ p ∈ (discard t before e).part, s.busy p = true) :
    Moves s (.discard t before e) fail (exec s n fail (.discard t before e)) := by
  refine Moves.refused hmarked rfl ?_
  intro p hp _
  rw [Transfer.discard]
  split_ifs
  · exact Disk.sameAt_remove fun he => hp (congrArg some he.symm)
  · exact .refl _ p

theorem exec_sync (hmarked : ∀ p ∈ (sync t before).part, s.busy p = true)
    (hsound : (sync t before).Sound s.disk) :
    Moves s (.sync t before) fail (exec s n fail (.sync t before)) := by
  rw [exec]
  split_ifs
  · exact Moves.refused hmarked rfl fun p _ _ => .refl _ p
  · exact Moves.on_task hmarked rfl rfl hsound (fun _ hp => by cases hp)

theorem exec_probe {i : ℕ} (hplain : ¬ EndsPart t.name)
    (hmarked : ∀ p ∈ (probe t before i).part, s.busy p = true)
    (hsound : (probe t before i).Sound s.disk) :
    Moves s (.probe t before i) fail (exec s n fail (.probe t before i)) := by
  rw [exec]
  split_ifs with hfree
  · refine Moves.on_task hmarked rfl rfl ⟨hsound, ?_, not_endsPart_candidate hplain i⟩
      (fun _ hp => by cases hp)
    exact Disk.read_eq_none_iff.mpr (Option.isNone_iff_eq_none.mp hfree)
  · exact Moves.on_task hmarked rfl rfl hsound (fun _ hp => by cases hp)

theorem exec_rename {dst : Path} (hmarked : ∀ p ∈ (rename t before dst).part, s.busy p = true)
    (hsound : (rename t before dst).Sound s.disk) :
    Moves s (.rename t before dst) fail (exec s n fail (.rename t before dst)) := by
  obtain ⟨hpart, -, hplain⟩ := hsound
  rw [exec]
  cases fail with
  | true => exact Moves.refused hmarked rfl fun p _ _ => .refl _ p
  | false =>
    simp only [Bool.false_eq_true, if_false]
    cases hren : s.disk.rename t.part dst with
    | none => exact Moves.refused hmarked rfl fun p _ _ => .refl _ p
    | some d' =>
      refine Moves.on_disk hmarked rfl rfl ⟨?_, hplain⟩ (fun p hp => .inr hp) ?_
      · rw [Disk.read_rename hren, if_pos rfl, hpart]
      · intro p hp hd
        exact Disk.sameAt_rename hren (fun he => hp (congrArg some he.symm))
          fun he => hd (congrArg some he.symm)

theorem exec_leave {reply : Except DropError Path} (hsound : (leave t before reply).Sound s.disk) :
    Moves s (.leave t before reply) fail (exec s n fail (.leave t before reply)) := by
  have hdone : (done t before reply).Sound s.disk ∧
      (done t before reply).delivered = (leave t before reply).delivered := by
    cases reply with
    | error e => exact ⟨trivial, rfl⟩
    | ok dst => exact ⟨hsound, rfl⟩
  refine ⟨rfl, hdone.1, (fun _ hp => by cases hp), ?_, (fun _ hp => by cases hp), ?_,
    fun p _ _ => .refl _ p⟩
  · intro p hp hb
    exact (Function.update_of_ne (fun he => hp (congrArg some he.symm)) ..).trans hb
  · intro p hp
    exact .inl (hdone.2.symm.trans hp)

/-- **What a step of a request does, at every point.** -/
theorem exec_moves (k : PutTask) (hplain : ¬ EndsPart k.transfer.name)
    (hmarked : ∀ p ∈ k.part, s.busy p = true) (hsound : k.Sound s.disk) :
    Moves s k fail (k.exec s n fail) := by
  cases k with
  | enter t => exact exec_enter n fail
  | openPart t => exact exec_openPart n fail hmarked
  | stat t file => exact exec_stat n fail hmarked hsound
  | seek t file before => exact exec_seek n fail hmarked hsound
  | copy t file before k => exact exec_copy n fail hmarked hsound
  | discard t before e => exact exec_discard n fail hmarked
  | sync t before => exact exec_sync n fail hmarked hsound
  | probe t before i => exact exec_probe n fail hplain hmarked hsound
  | rename t before dst => exact exec_rename n fail hmarked hsound
  | leave t before reply => exact exec_leave n fail hsound
  | done t before reply => exact Moves.on_task hmarked rfl rfl hsound fun p hp => .inl hp

end Exec

end PutTask

/-! ### What holds of the receiver -/

/-- The busy marks keep staged files apart, final paths are claimed once, and every request is where
it should be. -/
structure ReceiverInv (r : Receiver) : Prop where
  plain : ∀ k ∈ r.tasks, ¬ EndsPart k.transfer.name
  sound : ∀ k ∈ r.tasks, k.Sound r.server.disk
  marked : ∀ k ∈ r.tasks, ∀ p ∈ k.part, r.server.busy p = true
  parts : Slots.Distinct PutTask.part r.tasks
  delivered : Slots.Distinct PutTask.delivered r.tasks

namespace ReceiverInv

variable {r : Receiver} {i j : ℕ} {k k' : PutTask} {p : Path} {fail : Bool}

/-- A path that is about to be taken has not been taken by anybody. -/
theorem undelivered (h : ReceiverInv r) (hk : k ∈ r.tasks) (hk' : k' ∈ r.tasks)
    (hp : k.target = some p) : k'.delivered ≠ some p := by
  intro hp'
  exact ((h.sound k' hk').delivered hp').1 ((h.sound k hk).target hp).1

/-- A step of one request does not touch the staged file of another. -/
theorem apart_part (h : ReceiverInv r) (hji : j ≠ i) (hi : r.tasks[i]? = some k)
    (hj : r.tasks[j]? = some k') (hp : k'.part = some p) :
    k.part ≠ some p ∧ k.renames fail ≠ some p := by
  refine ⟨h.parts j i k' k p hji hj hi hp, ?_⟩
  intro hren
  have hplain := (h.sound k (List.mem_of_getElem? hi)).target (PutTask.target_of_renames hren)
  exact hplain.2 (PutTask.endsPart_of_part hp)

/-- Nor its final path, if the two do not share it. -/
theorem apart_claims (h : ReceiverInv r) {n : ℕ} (hun : Unshared r (.exec i n fail)) (hji : j ≠ i)
    (hi : r.tasks[i]? = some k) (hj : r.tasks[j]? = some k') (hp : k'.claims = some p) :
    k.part ≠ some p ∧ k.renames fail ≠ some p := by
  have hk' := List.mem_of_getElem? hj
  constructor
  · intro hpart
    exact (h.sound k' hk').not_endsPart hp (PutTask.endsPart_of_part hpart)
  · intro hren
    rcases PutTask.claims_cases hp with htarget | hdelivered
    · exact hun k hi p hren k' (List.mem_eraseIdx_iff_getElem?.mpr ⟨j, hji, hj⟩) htarget
    · exact h.undelivered (List.mem_of_getElem? hi) hk' (PutTask.target_of_renames hren) hdelivered

/-- **A step of one request.** -/
theorem exec (h : ReceiverInv r) (hi : r.tasks[i]? = some k) (n : ℕ) (fail : Bool)
    (hun : Unshared r (.exec i n fail)) :
    ReceiverInv ⟨(k.exec r.server n fail).2, r.tasks.set i (k.exec r.server n fail).1⟩ := by
  have hmem := List.mem_of_getElem? hi
  have hmoves := k.exec_moves n fail (h.plain k hmem) (h.marked k hmem) (h.sound k hmem)
  constructor
  · intro k' hk'
    rcases Slots.mem_set_cases hk' with rfl | ⟨j, -, hj⟩
    · rw [hmoves.transfer]
      exact h.plain k hmem
    · exact h.plain k' (List.mem_of_getElem? hj)
  · intro k' hk'
    rcases Slots.mem_set_cases hk' with rfl | ⟨j, hji, hj⟩
    · exact hmoves.sound
    · -- another request finds its two paths as they were
      refine (h.sound k' (List.mem_of_getElem? hj)).congr ?_ ?_
      · intro p hp
        obtain ⟨hpart, hren⟩ := h.apart_part hji hi hj hp
        exact hmoves.same p hpart hren
      · intro p hp
        obtain ⟨hpart, hren⟩ := h.apart_claims hun hji hi hj hp
        exact hmoves.same p hpart hren
  · intro k' hk' p hp
    rcases Slots.mem_set_cases hk' with rfl | ⟨j, hji, hj⟩
    · exact hmoves.marked p hp
    · exact hmoves.busy p (h.parts j i k' k p hji hj hi hp)
        (h.marked k' (List.mem_of_getElem? hj) p hp)
  · refine h.parts.set ?_
    intro p hp j k' hji hj hp'
    rcases hmoves.part p hp with hold | hfree
    · exact h.parts j i k' k p hji hj hi hp' hold
    · rw [h.marked k' (List.mem_of_getElem? hj) p hp'] at hfree
      cases hfree
  · refine h.delivered.set ?_
    intro p hp j k' hji hj hp'
    rcases hmoves.delivered p hp with hold | hren
    · exact h.delivered j i k' k p hji hj hi hp' hold
    · exact h.undelivered hmem (List.mem_of_getElem? hj) (PutTask.target_of_renames hren) hp'

/-- **One step.** -/
theorem step (h : ReceiverInv r) (op : ReceiverOp) (hplain : op.PlainName) (hun : Unshared r op) :
    ReceiverInv (r.step op) := by
  cases op with
  | put req =>
    rw [Receiver.step]
    cases hparse : req.parse with
    | error e => exact h
    | ok t =>
      have hplain' : ¬ EndsPart t.name := hplain t (by simp [hparse, Except.toOption])
      constructor
      · exact List.forall_mem_append.mpr ⟨h.plain, by simpa [PutTask.transfer] using hplain'⟩
      · exact List.forall_mem_append.mpr ⟨h.sound, by simp [PutTask.Sound]⟩
      · exact List.forall_mem_append.mpr ⟨h.marked, by simp [PutTask.part]⟩
      · exact h.parts.concat fun p hp => by cases hp
      · exact h.delivered.concat fun p hp => by cases hp
  | exec i n fail =>
    rw [Receiver.step]
    cases hi : r.tasks[i]? with
    | none => exact h
    | some k => exact h.exec hi n fail hun

theorem has_files (h : ReceiverInv r) : r.Delivered := by
  constructor
  · rw [List.map_filterMap]
    exact h.delivered.nodup
  · intro f hf
    obtain ⟨k, hk, hkf⟩ := List.mem_filterMap.mp hf
    exact ((h.sound k hk).answer hkf).1

end ReceiverInv

theorem receiverInv_nil (s : Server) : ReceiverInv ⟨s, []⟩ where
  plain _ hk := by cases hk
  sound _ hk := by cases hk
  marked _ hk := by cases hk
  parts := .nil
  delivered := .nil

/-- **No delivery is lost as long as no final path is shared.** -/
theorem delivered_run (s : Server) (ops : List ReceiverOp) (hplain : ∀ op ∈ ops, op.PlainName)
    (hun : Along Receiver.step Unshared ⟨s, []⟩ ops) :
    (run Receiver.step ⟨s, []⟩ ops).Delivered := by
  have hplain' : Along Receiver.step (fun _ op => op.PlainName) ⟨s, []⟩ ops :=
    along_of_forall (fun op hop _ => hplain op hop) _
  refine ReceiverInv.has_files (run_induction_along (receiverInv_nil s) ?_ (hplain'.and hun))
  rintro r op h ⟨hop, hun⟩
  exact h.step op hop hun

/-- A request to put the whole of a file. -/
def wholePut (name : String) (body : List UInt8) : ReceiverOp :=
  .put ⟨"a", name, decimal body.length, "0", body, false⟩

/-- The `i`-th request takes `n` steps, and the operating system refuses nothing. -/
def steps (i n : ℕ) : List ReceiverOp := List.replicate n (.exec i 8 false)

/-- Two files of one name are copied at the same time and renamed one after the other. -/
theorem delivered_side_by_side :
    (run Receiver.step ⟨emptyServer, []⟩ ([wholePut "x" [1], wholePut "x" [2, 3]] ++
      steps 0 6 ++ steps 1 6 ++ steps 0 2 ++ steps 1 4 ++ steps 0 1)).Delivered :=
  delivered_run _ _ (by decide +kernel) (by decide +kernel)

/-- **Two requests rename to one path.** Both find `x` free before either renames to it. -/
theorem rename_replaces :
    ¬ (run Receiver.step ⟨emptyServer, []⟩ ([wholePut "x" [1], wholePut "x" [2, 3]] ++
      steps 0 7 ++ steps 1 7 ++ steps 0 2 ++ steps 1 2)).Delivered := by
  decide +kernel

end Overdrop

end OverMesh
