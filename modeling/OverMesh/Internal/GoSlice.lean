import Mathlib.Data.List.TakeDrop

/-!
# Slices that share a backing array

A slice is a length over a backing array that may be longer, and two slices can lie over one array:
what is appended to one is then seen through the other. Arrays live in a heap, so that sharing is
the equality of array numbers. A backing array is counted from the first element of its slice, the
elements before it are out of the slice's reach.

## What is deliberately absent

How far a full array grows when it is appended to. The new array here is as long as it has to be;
the runtime may leave room, which only a later append could tell.

## Main results

* `GoSlice.exists_rangeLoop` — the invariant rule for a loop over the elements of a slice
* `GoSlice.read_compacted`, `GoSlice.append_compacted` — one round of a filter that appends to the
  array it reads from
-/

namespace GoSlice

variable {α τ : Type*}

/-- The backing arrays, by number. -/
abbrev Heap (α : Type*) := List (List α)

/-- A slice: its backing array and its length. The capacity is the length of the array. -/
structure Slice where
  array : ℕ
  len : ℕ
  deriving DecidableEq, Repr

/-- The elements of a slice. -/
def elems (h : Heap α) (s : Slice) : List α := (h.getD s.array []).take s.len

theorem elems_of_getElem? {h : Heap α} {n len : ℕ} {a : List α} (hs : h[n]? = some a) :
    elems h ⟨n, len⟩ = a.take len := by
  rw [elems, List.getD_eq_getElem?_getD, hs, Option.getD_some]

/-- The slice has an array under it, long enough for its length. -/
def Valid (h : Heap α) (s : Slice) : Prop := ∃ a, h[s.array]? = some a ∧ s.len ≤ a.length

/-- `s[i]`. `none` stands for the panic of an index out of range. -/
def read (h : Heap α) (s : Slice) (i : ℕ) : Option α :=
  if i < s.len then (h.getD s.array [])[i]? else none

/-- `s[:0]`. -/
def Slice.reset (s : Slice) : Slice := ⟨s.array, 0⟩

/-- `append(s, x)`: into the array where it has room, else into a new one. -/
def append (h : Heap α) (s : Slice) (x : α) : Heap α × Slice :=
  let a := h.getD s.array []
  if s.len < a.length then (h.set s.array (a.set s.len x), ⟨s.array, s.len + 1⟩)
  else (h ++ [a.take s.len ++ [x]], ⟨h.length, s.len + 1⟩)

/-- `for _, x := range s`. The slice is fixed at the start, each element is read when its turn
comes, from the heap that the rounds before have left. -/
def rangeLoop (heap : τ → Heap α) (s : Slice) (body : τ → α → Option τ) (t : τ) : Option τ :=
  (List.range s.len).foldlM (fun t i => (read (heap t) s i).bind (body t)) t

/-- **The invariant rule.** If every round can go on from what the rounds before have left, the loop
ends, and what holds after as many rounds as there are elements holds at its end. -/
theorem exists_rangeLoop {heap : τ → Heap α} {s : Slice} {body : τ → α → Option τ}
    {Inv : ℕ → τ → Prop} {t : τ} (h0 : Inv 0 t) (hround : ∀ i t, i < s.len → Inv i t →
      ∃ x t', read (heap t) s i = some x ∧ body t x = some t' ∧ Inv (i + 1) t') :
    ∃ t', rangeLoop heap s body t = some t' ∧ Inv s.len t' := by
  have hrounds : ∀ n ≤ s.len, ∃ t',
      (List.range n).foldlM (fun t i => (read (heap t) s i).bind (body t)) t = some t' ∧
        Inv n t' := by
    intro n
    induction n with
    | zero => exact fun _ => ⟨t, rfl, h0⟩
    | succ n ih =>
      intro hn
      obtain ⟨t₁, hrun, hinv⟩ := ih (by omega)
      obtain ⟨x, t₂, hread, hbody, hinv'⟩ := hround n t₁ (by omega) hinv
      refine ⟨t₂, ?_, hinv'⟩
      rw [List.range_succ, List.foldlM_append, hrun]
      simp [hread, hbody]
  exact hrounds s.len (Nat.le_refl _)

section Compaction

/-!
### Filtering in place

After `i` rounds the array holds the kept ones of its first `i` elements, and behind them what it
held there from the start: the rounds only ever write in front of what they have read.
-/

variable (p : α → Bool) (orig : List α)

/-- The array after `i` rounds. -/
def compacted (i : ℕ) : List α :=
  (orig.take i).filter p ++ orig.drop ((orig.take i).filter p).length

@[simp] theorem compacted_zero : compacted p orig 0 = orig := by simp [compacted]

theorem length_filter_take_le (i : ℕ) : ((orig.take i).filter p).length ≤ i :=
  Nat.le_trans (List.length_filter_le _ _) (List.length_take_le i orig)

/-- The element whose turn it is has not been written to. -/
theorem getElem?_compacted (i : ℕ) : (compacted p orig i)[i]? = orig[i]? := by
  have hle := length_filter_take_le p orig i
  rw [compacted, List.getElem?_append_right hle, List.getElem?_drop]
  congr 1
  omega

theorem take_compacted (i : ℕ) :
    (compacted p orig i).take ((orig.take i).filter p).length = (orig.take i).filter p := by
  rw [compacted, List.take_left]

variable {p orig} {i : ℕ} {x : α}

theorem filter_take_succ (hx : orig[i]? = some x) :
    (orig.take (i + 1)).filter p = (orig.take i).filter p ++ [x].filter p := by
  rw [List.take_add_one, hx, List.filter_append]
  rfl

theorem compacted_succ_of_neg (hx : orig[i]? = some x) (hp : p x = false) :
    compacted p orig (i + 1) = compacted p orig i := by
  rw [compacted, compacted, filter_take_succ hx]
  simp [hp]

theorem compacted_succ_of_pos (hx : orig[i]? = some x) (hp : p x = true) :
    compacted p orig (i + 1) =
      (compacted p orig i).set ((orig.take i).filter p).length x := by
  have hi : i < orig.length := (List.getElem?_eq_some_iff.mp hx).1
  have hle := length_filter_take_le p orig i
  rw [compacted, compacted, filter_take_succ hx, List.set_append_right _ _ (Nat.le_refl _),
    Nat.sub_self, List.drop_eq_getElem_cons (i := ((orig.take i).filter p).length) (by omega),
    List.set_cons_zero]
  simp [hp]

variable {h : Heap α} {s : Slice}

theorem read_compacted (hs : h[s.array]? = some (compacted p orig i)) (hi : i < s.len) :
    read h s i = orig[i]? := by
  rw [read, if_pos hi, List.getD_eq_getElem?_getD, hs, Option.getD_some, getElem?_compacted]

/-- Appending what the round has read to what is kept goes into the array itself. -/
theorem append_compacted {n : ℕ} (hs : h[n]? = some (compacted p orig i)) (hx : orig[i]? = some x)
    (hp : p x = true) : append h ⟨n, ((orig.take i).filter p).length⟩ x =
      (h.set n (compacted p orig (i + 1)), ⟨n, ((orig.take (i + 1)).filter p).length⟩) := by
  have hi : i < orig.length := (List.getElem?_eq_some_iff.mp hx).1
  have hle := length_filter_take_le p orig i
  have hlen : ((orig.take i).filter p).length < (compacted p orig i).length := by
    rw [compacted, List.length_append, List.length_drop]
    omega
  have hget : h.getD n [] = compacted p orig i := by
    rw [List.getD_eq_getElem?_getD, hs, Option.getD_some]
  rw [append]
  simp only [hget, if_pos hlen]
  rw [compacted_succ_of_pos hx hp, filter_take_succ hx]
  simp [hp]

end Compaction

end GoSlice
