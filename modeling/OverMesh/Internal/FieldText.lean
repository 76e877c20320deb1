import Mathlib.Data.List.Basic

/-!
# Records as texts of fields

A record is a list of strings. It is written field by field, with a mark before each byte, one at
the end of a field and one at the end of the record. So a text that is cut off anywhere is not a
record.

## Main results

* `FieldText.read_write` — a record is read back, whatever its fields are
* `FieldText.read_take` — a proper beginning of a text is not read
-/

namespace FieldText

/-- The bytes of a string, each with its mark, and the end of the field. -/
def writeField (s : String) : List UInt8 := s.toByteArray.data.toList.flatMap ([1, ·]) ++ [0]

def write (fields : List String) : List UInt8 := fields.flatMap writeField ++ [2]

/-- A record. `bs` has the bytes of the field that is being read. -/
def read (bs : List UInt8) : List UInt8 → Option (List String)
  | [2] => if bs = [] then some [] else none
  | 0 :: text => (String.fromUTF8? ⟨bs.toArray⟩).bind fun s => (read [] text).map (s :: ·)
  | 1 :: b :: text => read (bs ++ [b]) text
  | _ => none

theorem read_field (bs bs' text : List UInt8) : read bs (bs'.flatMap ([1, ·]) ++ 0 :: text) =
      (String.fromUTF8? ⟨(bs ++ bs').toArray⟩).bind fun s => (read [] text).map (s :: ·) := by
  induction bs' generalizing bs with
  | nil => rw [List.append_nil, List.flatMap_nil, List.nil_append, read]
  | cons b bs' ih =>
    rw [List.flatMap_cons, List.append_assoc, List.cons_append, List.singleton_append, read, ih,
      List.append_assoc, List.singleton_append]

/-- A record is read back, whatever its fields are. -/
theorem read_write (fields : List String) : read [] (write fields) = some fields := by
  induction fields with
  | nil => rfl
  | cons s fields ih =>
    have hs : String.fromUTF8? ⟨s.toByteArray.data.toList.toArray⟩ = some s :=
      dif_pos s.isValidUTF8
    have htext : write (s :: fields) =
        s.toByteArray.data.toList.flatMap ([1, ·]) ++ 0 :: write fields := by
      simp [write, writeField]
    rw [htext, read_field, List.nil_append, hs, ih]
    rfl

/-- A record ends where its mark says. -/
theorem read_append {bs text more : List UInt8} (h : (read bs text).isSome = true)
    (hmore : more ≠ []) : read bs (text ++ more) = none := by
  fun_induction read bs text with
  | case1 =>
    cases more with
    | nil => exact absurd rfl hmore
    | cons b more => rfl
  | case2 bs hbs => cases h
  | case3 bs text ih =>
    rw [List.cons_append, read]
    cases hs : String.fromUTF8? ⟨bs.toArray⟩ with
    | none => rfl
    | some s =>
      rw [hs, Option.bind_some, Option.isSome_map] at h
      rw [Option.bind_some, ih h, Option.map_none]
  | case4 bs b text ih => exact ih h
  | case5 => cases h

/-- A proper beginning of a text is not read. -/
theorem read_take (fields : List String) {n : ℕ} (hn : n < (write fields).length) :
    read [] ((write fields).take n) = none := by
  by_contra hread
  have hrest : (write fields).drop n ≠ [] := by simpa using hn
  have hnone := read_append (Option.isSome_iff_ne_none.mpr hread) hrest
  rw [List.take_append_drop, read_write] at hnone
  cases hnone

end FieldText
