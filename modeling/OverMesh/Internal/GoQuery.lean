import OverMesh.Internal.GoBytes
import Mathlib.Data.List.Basic

/-!
# Queries of URLs, as Go reads them

`url.ParseQuery` of the Go standard library on bytes, without the errors, which `URL.Query` leaves
aside: pairs are separated by `&`, a pair with a semicolon in it is dropped, and so is one that
cannot be unescaped. `+` is a space, and `%` starts an escape of two hexadecimal digits.

## Main results

* `unescape_flatMap` — what is escaped byte by byte is read back
* `parseQuery_append`, `parsePair_append` — a query is read pair by pair
-/

namespace GoQuery

open GoBytes

/-- `url.QueryUnescape`, `none` for an error. -/
def unescape : List UInt8 → Option (List UInt8)
  | [] => some []
  | c :: s =>
    if c = 37 then
      match s with
      | p :: q :: s =>
        (byteVal? p).bind fun hi => (byteVal? q).bind fun lo =>
          (unescape s).map (UInt8.ofNat (hi * 16 + lo) :: ·)
      | _ => none
    else (unescape s).map ((if c = 43 then 32 else c) :: ·)

/-- `strings.Cut`, with nothing after a separator that is not there. -/
def cut (sep : UInt8) (s : List UInt8) : List UInt8 × List UInt8 :=
  (s.takeWhile (· ≠ sep), (s.dropWhile (· ≠ sep)).drop 1)

/-- One pair of a query. -/
def parsePair (pair : List UInt8) : Option (List UInt8 × List UInt8) :=
  if 59 ∈ pair ∨ pair = [] then none
  else (unescape (cut 61 pair).1).bind fun key => (unescape (cut 61 pair).2).map fun value =>
    (key, value)

/-- `url.ParseQuery`. -/
def parseQuery (query : List UInt8) : List (List UInt8 × List UInt8) :=
  (query.splitOn 38).filterMap parsePair

/-- `Values.Get`: the first value, or nothing. -/
def get (values : List (List UInt8 × List UInt8)) (key : List UInt8) : List UInt8 :=
  ((values.find? fun v => v.1 = key).map Prod.snd).getD []

/-- What stands for the byte `b` is `b` itself, or its escape. -/
def StandsFor (esc : List UInt8) (b : UInt8) : Prop :=
  esc = [b] ∧ b ≠ 37 ∧ b ≠ 43 ∨
    ∃ p q hi lo, esc = [37, p, q] ∧ byteVal? p = some hi ∧ byteVal? q = some lo ∧
      UInt8.ofNat (hi * 16 + lo) = b

theorem StandsFor.unescape_append {esc : List UInt8} {b : UInt8} (h : StandsFor esc b)
    (s : List UInt8) : unescape (esc ++ s) = (unescape s).map (b :: ·) := by
  rcases h with ⟨rfl, hpercent, hplus⟩ | ⟨p, q, hi, lo, rfl, hp, hq, rfl⟩
  · rw [List.singleton_append, unescape.eq_def]
    show (if b = 37 then _ else (unescape s).map ((if b = 43 then 32 else b) :: ·)) = _
    rw [if_neg hpercent, if_neg hplus]
  · show unescape (37 :: p :: q :: s) = _
    rw [unescape, if_pos rfl, hp, hq]
    rfl

/-- **What is escaped byte by byte is read back.** -/
theorem unescape_flatMap {esc : UInt8 → List UInt8} {s : List UInt8}
    (h : ∀ b ∈ s, StandsFor (esc b) b) : unescape (s.flatMap esc) = some s := by
  induction s with
  | nil => rfl
  | cons b s ih =>
    rw [List.flatMap_cons, (h b List.mem_cons_self).unescape_append,
      ih fun b' hb' => h b' (List.mem_cons_of_mem _ hb')]
    rfl

theorem unescape_of_plain {s : List UInt8} (h : ∀ b ∈ s, b ≠ 37 ∧ b ≠ 43) :
    unescape s = some s := by
  have hself : unescape (s.flatMap fun b => [b]) = some s :=
    unescape_flatMap fun b hb => .inl ⟨rfl, h b hb⟩
  rwa [List.flatMap_singleton'] at hself

theorem cut_append {sep : UInt8} {k : List UInt8} (h : sep ∉ k) (v : List UInt8) :
    cut sep (k ++ sep :: v) = (k, v) := by
  have hall : ∀ b ∈ k, decide (b ≠ sep) = true := by
    intro b hb
    rw [decide_eq_true_iff]
    rintro rfl
    exact h hb
  rw [cut, List.takeWhile_append_of_pos hall, List.dropWhile_append_of_pos hall,
    List.takeWhile_cons_of_neg (by simp), List.dropWhile_cons_of_neg (by simp), List.append_nil]
  rfl

/-- A pair is read when it has no semicolon, and dropped when it has one. -/
theorem parsePair_append {k v k' v' : List UInt8} (hkeq : 61 ∉ k) (hsemi : 59 ∉ k)
    (hk : unescape k = some k') (hv : unescape v = some v') :
    parsePair (k ++ 61 :: v) = if 59 ∈ v then none else some (k', v') := by
  have hmem : (59 : UInt8) ∈ k ++ 61 :: v ↔ 59 ∈ v := by
    rw [List.mem_append, List.mem_cons]
    constructor
    · rintro (h | h | h)
      · exact absurd h hsemi
      · exact absurd h (by decide)
      · exact h
    · exact fun h => .inr (.inr h)
  rw [parsePair, cut_append hkeq, hk, hv]
  by_cases hv59 : (59 : UInt8) ∈ v
  · rw [if_pos (.inl (hmem.mpr hv59)), if_pos hv59]
  · have hnot : ¬ (59 ∈ k ++ 61 :: v ∨ k ++ 61 :: v = []) := by
      rintro (h | h)
      · exact hv59 (hmem.mp h)
      · exact List.append_ne_nil_of_right_ne_nil k (List.cons_ne_nil _ _) h
    rw [if_neg hnot, if_neg hv59]
    rfl

theorem parseQuery_append (p q : List UInt8) :
    parseQuery (p ++ 38 :: q) = parseQuery p ++ parseQuery q := by
  rw [parseQuery, List.splitOn_append_cons_self, List.filterMap_append]
  rfl

theorem parseQuery_of_not_mem {p : List UInt8} (h : 38 ∉ p) :
    parseQuery p = (parsePair p).toList := by
  rw [parseQuery, List.splitOn_eq_singleton h, List.filterMap_cons]
  cases parsePair p <;> rfl

theorem get_cons_self (k v : List UInt8) (vs : List (List UInt8 × List UInt8)) :
    get ((k, v) :: vs) k = v := by
  rw [get, List.find?_cons_of_pos (by simp)]
  rfl

theorem get_cons_of_ne {k k' : List UInt8} (h : k' ≠ k) (v : List UInt8)
    (vs : List (List UInt8 × List UInt8)) : get ((k', v) :: vs) k = get vs k := by
  rw [get, List.find?_cons_of_neg (by simpa using h)]
  rfl

end GoQuery
