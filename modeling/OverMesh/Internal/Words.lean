import Mathlib.Data.List.Basic

/-!
# Words between separators

A list is read as the words between its separators, as `List.splitOn` cuts it. Whether one list ends
with another, from a separator on, is then a question about the words: no word is cut through.

## Main results

* `Words.cons_suffix_iff` — a suffix that begins with a separator is a suffix of words
-/

namespace Words

variable {α : Type*} {sep : α}

theorem intercalate_append {ws vs : List (List α)} (hws : ws ≠ []) (hvs : vs ≠ []) :
    [sep].intercalate (ws ++ vs) = [sep].intercalate ws ++ sep :: [sep].intercalate vs := by
  induction ws with
  | nil => exact absurd rfl hws
  | cons w ws ih =>
    cases ws with
    | nil =>
      obtain ⟨v, vs, rfl⟩ := List.exists_cons_of_ne_nil hvs
      simp [List.intercalate]
    | cons w' ws =>
      have ih := ih (List.cons_ne_nil w' ws)
      simp only [List.intercalate, List.cons_append, List.intersperse_cons_cons] at ih ⊢
      simp [ih]

variable [DecidableEq α]

theorem splitOn_append_cons (l m : List α) :
    (l ++ sep :: m).splitOn sep = l.splitOn sep ++ m.splitOn sep :=
  List.splitOnP_append_cons l m (beq_self_eq_true sep)

/-- **A suffix that begins with a separator is a suffix of words**, and leaves at least one. -/
theorem cons_suffix_iff {l z : List α} :
    sep :: z <:+ l ↔ ∃ ws, ws ≠ [] ∧ l.splitOn sep = ws ++ z.splitOn sep := by
  constructor
  · rintro ⟨pre, rfl⟩
    exact ⟨pre.splitOn sep, List.splitOn_ne_nil sep pre, splitOn_append_cons pre z⟩
  · rintro ⟨ws, hws, hl⟩
    refine ⟨[sep].intercalate ws, ?_⟩
    calc
      [sep].intercalate ws ++ sep :: z
        = [sep].intercalate ws ++ sep :: [sep].intercalate (z.splitOn sep) := by
          rw [List.intercalate_splitOn]
      _ = [sep].intercalate (ws ++ z.splitOn sep) :=
          (intercalate_append hws (List.splitOn_ne_nil sep z)).symm
      _ = l := by rw [← hl, List.intercalate_splitOn]

end Words
