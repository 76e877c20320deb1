import Mathlib.Data.List.TakeWhile

/-!
# Framing

Values sent over a stream one after the other. A `Codec` says how one value is written and how the
first one is read off; the stream may end in the middle of a value. `decodeAll` reads until it
cannot go on.

A writer may be cut off: of each value only the first so many symbols go out. What the reader makes
of the stream depends on whether anything was written after that.

A stream arrives in pieces, whose boundaries have nothing to do with those of the values. `readFull`
collects so many symbols from the pieces.

## Main definitions

* `Codec`, `Codec.decodeAll`
* `Codec.written` — the stream of a list of values, each with the number of symbols that went out
* `Codec.Framed` — at most the last value was cut off
* `readFull`, `readLoop` — reading from pieces

## Main results

* `Codec.decodeAll_flatMap` — what was written whole is read back, in order
* `Codec.decodeAll_written` — **the reader of a framed stream reads exactly what was written whole**
* `readLoop_eq` — how the stream was cut into pieces makes no difference
-/

namespace Framing

/-- A way to write values as symbols and to read the first one off. -/
structure Codec (α β : Type*) where
  encode : β → List α
  decode : List α → Option (β × List α)
  encode_ne_nil : ∀ b, encode b ≠ []
  decode_encode : ∀ b rest, decode (encode b ++ rest) = some (b, rest)
  decode_take : ∀ b k, k < (encode b).length → decode ((encode b).take k) = none

namespace Codec

variable {α β : Type*} (c : Codec α β)

/-- Read at most `fuel` values. -/
def decodeLoop : ℕ → List α → List β × List α
  | 0, s => ([], s)
  | fuel + 1, s =>
    match c.decode s with
    | none => ([], s)
    | some (b, rest) => (b :: (decodeLoop fuel rest).1, (decodeLoop fuel rest).2)

/-- Read until there is no further value: the values, and what is left. -/
def decodeAll (s : List α) : List β × List α := c.decodeLoop s.length s

variable {c}

theorem decodeLoop_flatMap {bs : List β} {tail : List α} (htail : c.decode tail = none) {fuel : ℕ}
    (hfuel : bs.length ≤ fuel) : c.decodeLoop fuel (bs.flatMap c.encode ++ tail) = (bs, tail) := by
  induction bs generalizing fuel with
  | nil =>
    cases fuel with
    | zero => rfl
    | succ fuel => simp [decodeLoop, htail]
  | cons b bs ih =>
    cases fuel with
    | zero => simp at hfuel
    | succ fuel =>
      rw [List.flatMap_cons, List.append_assoc, decodeLoop, c.decode_encode]
      simp only [ih (by simpa using hfuel)]

theorem length_le_length_flatMap (bs : List β) : bs.length ≤ (bs.flatMap c.encode).length := by
  induction bs with
  | nil => simp
  | cons b bs ih =>
    have hpos := List.length_pos_iff.mpr (c.encode_ne_nil b)
    rw [List.flatMap_cons, List.length_append, List.length_cons]
    omega

/-- **What was written whole is read back**, in order and up to a tail that is no value. -/
theorem decodeAll_flatMap {bs : List β} {tail : List α} (htail : c.decode tail = none) :
    c.decodeAll (bs.flatMap c.encode ++ tail) = (bs, tail) := by
  refine decodeLoop_flatMap htail ?_
  have := length_le_length_flatMap (c := c) bs
  rw [List.length_append]
  omega

/-! ### Writers that are cut off -/

variable (c)

/-- All symbols of the value went out. -/
def whole (w : β × ℕ) : Bool := (c.encode w.1).length ≤ w.2

/-- The stream, when of each value the first so many symbols went out. -/
def written (ws : List (β × ℕ)) : List α := ws.flatMap fun w => (c.encode w.1).take w.2

/-- Every value but the last one went out whole. -/
def Framed (ws : List (β × ℕ)) : Prop := (ws.dropWhile c.whole).length ≤ 1

instance (ws : List (β × ℕ)) : Decidable (c.Framed ws) := inferInstanceAs (Decidable (_ ≤ _))

variable {c}

@[simp] theorem written_append (ws ws' : List (β × ℕ)) :
    c.written (ws ++ ws') = c.written ws ++ c.written ws' := List.flatMap_append

@[simp] theorem written_singleton (w : β × ℕ) : c.written [w] = (c.encode w.1).take w.2 := by
  simp [written]

theorem written_eq_flatMap {ws : List (β × ℕ)} (h : ∀ w ∈ ws, c.whole w = true) :
    c.written ws = (ws.map Prod.fst).flatMap c.encode := by
  induction ws with
  | nil => rfl
  | cons w ws ih =>
    have hw : (c.encode w.1).take w.2 = c.encode w.1 :=
      List.take_of_length_le (by simpa [whole] using h w List.mem_cons_self)
    rw [written, List.flatMap_cons, hw, List.map_cons, List.flatMap_cons,
      ← ih fun w' hw' => h w' (List.mem_cons_of_mem _ hw')]
    rfl

theorem decode_nil : c.decode [] = none := by
  cases h : c.decode [] with
  | none => rfl
  | some r =>
    have hnone := c.decode_take r.1 0 (List.length_pos_iff.mpr (c.encode_ne_nil r.1))
    rw [List.take_zero, h] at hnone
    cases hnone

/-- A tail of at most one value that was cut off is no value. -/
theorem decode_written_cut {ws : List (β × ℕ)} (hlen : ws.length ≤ 1)
    (hcut : ∀ w ∈ ws, c.whole w = false) : c.decode (c.written ws) = none := by
  rcases ws with _ | ⟨w, _ | ⟨w', ws⟩⟩
  · exact decode_nil
  · rw [written_singleton]
    refine c.decode_take w.1 w.2 ?_
    simpa [whole] using hcut w (List.mem_singleton_self w)
  · simp at hlen

/-- **The reader of a framed stream** reads exactly the values that were written whole, and is left
with what went out of the last one. -/
theorem decodeAll_written {ws : List (β × ℕ)} (h : c.Framed ws) : c.decodeAll (c.written ws) =
      ((ws.takeWhile c.whole).map Prod.fst, c.written (ws.dropWhile c.whole)) := by
  have hwhole : ∀ w ∈ ws.takeWhile c.whole, c.whole w = true := fun w hw =>
    List.mem_takeWhile_imp hw
  have hcut : ∀ w ∈ ws.dropWhile c.whole, c.whole w = false := by
    intro w hw
    -- there is only one, and it is the one at which the whole ones ended
    rcases hdrop : ws.dropWhile c.whole with _ | ⟨w', _ | ⟨w'', ws'⟩⟩
    · rw [hdrop] at hw
      cases hw
    · rw [hdrop, List.mem_singleton] at hw
      have hhead := List.head_dropWhile_not c.whole (l := ws) (by simp [hdrop])
      simpa [hdrop, hw] using hhead
    · rw [Framed, hdrop] at h
      simp at h
  have hsplit : c.written ws = ((ws.takeWhile c.whole).map Prod.fst).flatMap c.encode ++
      c.written (ws.dropWhile c.whole) := by
    rw [← written_eq_flatMap hwhole, ← written_append, List.takeWhile_append_dropWhile]
  rw [hsplit]
  exact decodeAll_flatMap (decode_written_cut h hcut)

theorem framed_nil : c.Framed [] := Nat.zero_le 1

/-- Nothing may follow a value that was cut off. -/
theorem framed_concat_iff {ws : List (β × ℕ)} (w : β × ℕ) :
    c.Framed (ws ++ [w]) ↔ ∀ w' ∈ ws, c.whole w' = true := by
  rw [Framed, List.dropWhile_append]
  split_ifs with hall
  · rw [List.isEmpty_iff, List.dropWhile_eq_nil_iff] at hall
    exact iff_of_true ((List.dropWhile_suffix _).length_le) hall
  · rw [List.isEmpty_iff, List.dropWhile_eq_nil_iff] at hall
    refine iff_of_false ?_ hall
    have hpos : 0 < (ws.dropWhile c.whole).length :=
      List.length_pos_iff.mpr (mt List.dropWhile_eq_nil_iff.mp hall)
    rw [List.length_append, List.length_singleton]
    omega

end Codec

/-! ### Streams that arrive in pieces -/

section Pieces

variable {α β : Type*}

/-- Collect `n` symbols, with the pieces that are left. -/
def readFull : ℕ → List (List α) → Option (List α × List (List α))
  | n, [] => if n = 0 then some ([], []) else none
  | n, p :: ps =>
    if n ≤ p.length then some (p.take n, p.drop n :: ps)
    else (readFull (n - p.length) ps).map fun r => (p ++ r.1, r.2)

/-- What is collected are the first symbols of the stream. -/
theorem readFull_flatten (n : ℕ) (ps : List (List α)) :
    (readFull n ps).map (fun r => (r.1, r.2.flatten)) =
      if n ≤ ps.flatten.length then some (ps.flatten.take n, ps.flatten.drop n) else none := by
  induction ps generalizing n with
  | nil =>
    by_cases hn : n = 0 <;> simp [readFull, hn]
  | cons p ps ih =>
    rw [readFull, List.flatten_cons, List.length_append]
    split_ifs with hp hle hle
    · simp [List.take_append_of_le_length hp, List.drop_append_of_le_length hp]
    · omega
    · have ih := ih (n - p.length)
      rw [if_pos (by omega)] at ih
      obtain ⟨r, hr, heq⟩ := Option.map_eq_some_iff.mp ih
      simp only [Prod.mk.injEq] at heq
      rw [hr, Option.map_some, Option.map_some, heq.1, heq.2, List.take_append,
        List.take_of_length_le (by omega : p.length ≤ n), List.drop_append,
        List.drop_of_length_le (by omega : p.length ≤ n), List.nil_append]
    · have ih := ih (n - p.length)
      rw [if_neg (by omega), Option.map_eq_none_iff] at ih
      rw [ih]
      rfl

theorem readFull_eq_some {n : ℕ} {ps ps' : List (List α)} {b : List α}
    (h : readFull n ps = some (b, ps')) :
    n ≤ ps.flatten.length ∧ b = ps.flatten.take n ∧ ps'.flatten = ps.flatten.drop n := by
  have hflat := readFull_flatten n ps
  rw [h] at hflat
  split_ifs at hflat with hle
  · simp only [Option.map_some, Option.some.injEq, Prod.mk.injEq] at hflat
    exact ⟨hle, hflat⟩
  · cases hflat

theorem readFull_eq_none {n : ℕ} {ps : List (List α)} (h : readFull n ps = none) :
    ps.flatten.length < n := by
  have hflat := readFull_flatten n ps
  rw [h] at hflat
  split_ifs at hflat with hle
  · cases hflat
  · exact Nat.not_le.mp hle

/-- Read at most `fuel` values from pieces. -/
def readLoop (read : List (List α) → Option (β × List (List α))) : ℕ → List (List α) → List β
  | 0, _ => []
  | fuel + 1, ps =>
    match read ps with
    | none => []
    | some (b, rest) => b :: readLoop read fuel rest

/-- **The pieces make no difference** to a reader that agrees with the codec on the stream. -/
theorem readLoop_eq {c : Codec α β} {read : List (List α) → Option (β × List (List α))}
    (h : ∀ ps, (read ps).map (fun r => (r.1, r.2.flatten)) = c.decode ps.flatten) (fuel : ℕ)
    (ps : List (List α)) : readLoop read fuel ps = (c.decodeLoop fuel ps.flatten).1 := by
  induction fuel generalizing ps with
  | zero => rfl
  | succ fuel ih =>
    rw [readLoop, Codec.decodeLoop, ← h ps]
    cases read ps with
    | none => rfl
    | some r => exact congrArg _ (ih r.2)

end Pieces

end Framing
