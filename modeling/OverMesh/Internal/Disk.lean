import Mathlib.Data.List.Basic
import Mathlib.Logic.Function.Basic

/-!
# Files on a disk

Directory entries and the files they name. A file has a number of its own, so that one that is open
stays the same file when its entry is renamed or removed. Every entry names a different file: there
are no hard links.

Paths are an arbitrary type. Directories are not modelled; the paths of one directory are those that
share what the path type says they share.

## Main definitions

* `Disk`, `Disk.read`
* `Disk.openFile`, `Disk.pwrite`, `Disk.rename`, `Disk.remove`

## Main results

* `Disk.read_openFile`, `read_pwrite`, `read_rename`, `read_remove` — what each of them does to what
  is found under every path
* `Disk.sameAt_openFile` and the like — the paths each of them leaves alone
-/

/-- Every entry names a file of its own, with a number below `next`, and is at one of `paths`. -/
structure Entries {π : Type*} (entry : π → Option ℕ) (next : ℕ) (paths : List π) : Prop where
  lt : ∀ p i, entry p = some i → i < next
  inj : ∀ p q i, entry p = some i → entry q = some i → p = q
  mem : ∀ p, entry p ≠ none → p ∈ paths

namespace Entries

variable {π : Type*} [DecidableEq π] {entry : π → Option ℕ} {next : ℕ} {paths : List π}

theorem drop (h : Entries entry next paths) (p : π) :
    Entries (Function.update entry p none) next paths := by
  have hold : ∀ q i, Function.update entry p none q = some i → entry q = some i := by
    intro q i hq
    by_cases hqp : q = p
    · rw [hqp, Function.update_self] at hq
      cases hq
    · rwa [Function.update_of_ne hqp] at hq
  refine ⟨fun q i hq => h.lt q i (hold q i hq), ?_, ?_⟩
  · intro q q' i hq hq'
    exact h.inj q q' i (hold q i hq) (hold q' i hq')
  · intro q hq
    obtain ⟨i, hi⟩ := Option.ne_none_iff_exists'.mp hq
    exact h.mem q (by rw [hold q i hi]; simp)

/-- A new entry for a file that has none. -/
theorem add (h : Entries entry next paths) (p : π) {i : ℕ} (hi : i < next)
    (hfree : ∀ q, entry q ≠ some i) :
    Entries (Function.update entry p (some i)) next (p :: paths) := by
  have hcases : ∀ q j, Function.update entry p (some i) q = some j →
      q = p ∧ i = j ∨ q ≠ p ∧ entry q = some j := by
    intro q j hq
    by_cases hqp : q = p
    · rw [hqp, Function.update_self] at hq
      exact .inl ⟨hqp, Option.some.inj hq⟩
    · rw [Function.update_of_ne hqp] at hq
      exact .inr ⟨hqp, hq⟩
  refine ⟨?_, ?_, ?_⟩
  · intro q j hq
    rcases hcases q j hq with ⟨-, rfl⟩ | ⟨-, hold⟩
    · exact hi
    · exact h.lt q j hold
  · intro q q' j hq hq'
    rcases hcases q j hq with ⟨hqp, hj⟩ | ⟨-, hold⟩ <;>
      rcases hcases q' j hq' with ⟨hqp', hj'⟩ | ⟨-, hold'⟩
    · rw [hqp, hqp']
    · exact absurd (hj ▸ hold') (hfree q')
    · exact absurd (hj' ▸ hold) (hfree q)
    · exact h.inj q q' j hold hold'
  · intro q hq
    by_cases hqp : q = p
    · rw [hqp]
      exact List.mem_cons_self
    · rw [Function.update_of_ne hqp] at hq
      exact List.mem_cons_of_mem _ (h.mem q hq)

omit [DecidableEq π] in
theorem mono (h : Entries entry next paths) : Entries entry (next + 1) paths :=
  ⟨fun p i hp => Nat.lt_succ_of_lt (h.lt p i hp), h.inj, h.mem⟩

end Entries

/-- Entries by path, contents by number. -/
structure Disk (π : Type*) where
  entry : π → Option ℕ
  data : ℕ → List UInt8
  next : ℕ
  paths : List π
  entries : Entries entry next paths

namespace Disk

variable {π : Type*}

/-- A disk without files. -/
def empty : Disk π := ⟨fun _ => none, fun _ => [], 0, [], by simp, by simp, by simp⟩

/-- The contents of the file at a path. -/
def read (d : Disk π) (p : π) : Option (List UInt8) := (d.entry p).map d.data

/-- Bytes written at a position, beyond the end after a gap of zeros. -/
def splice (old : List UInt8) (pos : ℕ) (bs : List UInt8) : List UInt8 :=
  old.take pos ++ List.replicate (pos - old.length) 0 ++ bs ++ old.drop (pos + bs.length)

/-- Write to an open file. -/
def pwrite (d : Disk π) (i pos : ℕ) (bs : List UInt8) : Disk π :=
  { d with data := Function.update d.data i (splice (d.data i) pos bs) }

variable [DecidableEq π]

/-- Open the file at a path, creating it if there is none. -/
def openFile (d : Disk π) (p : π) : ℕ × Disk π :=
  match d.entry p with
  | some i => (i, d)
  | none => (d.next, {
      entry := Function.update d.entry p (some d.next)
      data := Function.update d.data d.next []
      next := d.next + 1
      paths := p :: d.paths
      entries := d.entries.mono.add p (Nat.lt_succ_self _) fun q hq =>
        absurd (d.entries.lt q _ hq) (Nat.lt_irrefl _) })

/-- Remove the entry at a path. -/
def remove (d : Disk π) (p : π) : Disk π :=
  { d with entry := Function.update d.entry p none, entries := d.entries.drop p }

/-- Give the file at `p` the path `q`, in the place of what is there. `none` if there is no file. -/
def rename (d : Disk π) (p q : π) : Option (Disk π) :=
  match h : d.entry p with
  | none => none
  | some i => some { d with
      entry := Function.update (Function.update d.entry p none) q (some i)
      paths := q :: d.paths
      entries := (d.entries.drop p).add q (d.entries.lt p i h) fun r hr => by
        by_cases hrp : r = p
        · rw [hrp, Function.update_self] at hr
          cases hr
        · rw [Function.update_of_ne hrp] at hr
          exact hrp (d.entries.inj r p i hr h) }

/-! ### What is found under a path -/

variable {d d' : Disk π} {p q r : π} {i : ℕ}

omit [DecidableEq π] in
@[simp] theorem splice_length (old bs : List UInt8) : splice old old.length bs = old ++ bs := by
  simp [splice]

omit [DecidableEq π] in
theorem read_eq_some_of_entry (h : d.entry p = some i) : d.read p = some (d.data i) := by
  rw [read, h, Option.map_some]

omit [DecidableEq π] in
theorem read_eq_none_iff : d.read p = none ↔ d.entry p = none := Option.map_eq_none_iff

/-- The path of an open file names it, and it has what was there before. -/
theorem openFile_spec (d : Disk π) (p : π) : (d.openFile p).2.entry p = some (d.openFile p).1 ∧
      (d.openFile p).2.data (d.openFile p).1 = (d.read p).getD [] := by
  rw [openFile]
  cases h : d.entry p with
  | some i => exact ⟨h, by rw [read_eq_some_of_entry h, Option.getD_some]⟩
  | none =>
    refine ⟨Function.update_self .., ?_⟩
    rw [read_eq_none_iff.mpr h, Option.getD_none]
    exact Function.update_self ..

theorem read_openFile (d : Disk π) (p q : π) :
    (d.openFile p).2.read q = if q = p then some ((d.read p).getD []) else d.read q := by
  split_ifs with hqp
  · obtain ⟨hentry, hdata⟩ := d.openFile_spec p
    rw [hqp, read_eq_some_of_entry hentry, hdata]
  · rw [openFile]
    cases h : d.entry p with
    | some i => rfl
    | none =>
      simp only [read, Function.update_of_ne hqp]
      cases hq : d.entry q with
      | none => rfl
      | some j => simp [Function.update_of_ne (Nat.ne_of_lt (d.entries.lt q j hq))]

omit [DecidableEq π] in
@[simp] theorem data_pwrite (d : Disk π) (i pos : ℕ) (bs : List UInt8) :
    (d.pwrite i pos bs).data i = splice (d.data i) pos bs := Function.update_self ..

/-- A write is seen under the path of the file and nowhere else. -/
theorem read_pwrite (h : d.entry p = some i) (pos : ℕ) (bs : List UInt8) (q : π) :
    (d.pwrite i pos bs).read q =
      if q = p then some (splice (d.data i) pos bs) else d.read q := by
  split_ifs with hqp
  · rw [hqp, read, pwrite, h]
    simp
  · rw [read, read, pwrite]
    cases hq : d.entry q with
    | none => rfl
    | some j =>
      have hj : j ≠ i := by
        rintro rfl
        exact hqp (d.entries.inj q p j hq h)
      simp [Function.update_of_ne hj]

theorem read_remove (d : Disk π) (p q : π) :
    (d.remove p).read q = if q = p then none else d.read q := by
  simp only [read, remove]
  split_ifs with hqp
  · rw [hqp, Function.update_self, Option.map_none]
  · rw [Function.update_of_ne hqp]

theorem read_rename (h : d.rename p q = some d') (r : π) :
    d'.read r = if r = q then d.read p else if r = p then none else d.read r := by
  rw [rename] at h
  split at h
  · cases h
  · next i hi =>
    obtain rfl := Option.some.inj h
    simp only [read]
    split_ifs with hrq hrp
    · rw [hrq, Function.update_self, hi, Option.map_some]
    · rw [Function.update_of_ne hrq, hrp, Function.update_self, Option.map_none]
    · rw [Function.update_of_ne hrq, Function.update_of_ne hrp]

/-! ### What is left alone -/

omit [DecidableEq π] in
/-- The path names the same file, with the same contents. -/
def SameAt (d d' : Disk π) (p : π) : Prop :=
  d'.entry p = d.entry p ∧ ∀ i, d.entry p = some i → d'.data i = d.data i

omit [DecidableEq π] in
theorem SameAt.refl (d : Disk π) (p : π) : SameAt d d p := ⟨rfl, fun _ _ => rfl⟩

omit [DecidableEq π] in
theorem SameAt.read (h : SameAt d d' p) : d'.read p = d.read p := by
  rw [Disk.read, Disk.read, h.1]
  cases hp : d.entry p with
  | none => rfl
  | some i => rw [Option.map_some, Option.map_some, h.2 i hp]

theorem sameAt_openFile (hq : q ≠ p) : SameAt d (d.openFile p).2 q := by
  rw [openFile]
  cases hp : d.entry p with
  | some i => exact .refl d q
  | none =>
    refine ⟨Function.update_of_ne hq .., ?_⟩
    intro i hi
    exact Function.update_of_ne (Nat.ne_of_lt (d.entries.lt q i hi)) ..

omit [DecidableEq π] in
theorem sameAt_pwrite (hp : d.entry p = some i) (hq : q ≠ p) (pos : ℕ) (bs : List UInt8) :
    SameAt d (d.pwrite i pos bs) q := by
  refine ⟨rfl, ?_⟩
  intro j hj
  refine Function.update_of_ne ?_ ..
  rintro rfl
  exact hq (d.entries.inj q p j hj hp)

theorem sameAt_remove (hq : q ≠ p) : SameAt d (d.remove p) q :=
  ⟨Function.update_of_ne hq .., fun _ _ => rfl⟩

theorem sameAt_rename (h : d.rename p q = some d') (hrp : r ≠ p) (hrq : r ≠ q) : SameAt d d' r := by
  rw [rename] at h
  split at h
  · cases h
  · obtain rfl := Option.some.inj h
    exact ⟨(Function.update_of_ne hrq ..).trans (Function.update_of_ne hrp ..), fun _ _ => rfl⟩

end Disk
