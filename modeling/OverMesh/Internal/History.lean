import OverMesh.Internal.Runs
import Mathlib.Data.List.Basic

/-!
# Histories

What a run leaves behind: the events of its steps, in order. `Since` is the operator of past-time
temporal logic, for conditions that may look at everything before an event, and `history_foldl` says
when a component of the state is a function of the history.

## Main results

* `since_concat` — how one more event changes what was true since another
* `history_foldl` — a component that every step changes by its events alone
-/

namespace Runs

variable {σ ι ε : Type*}

/-- The events of a run. -/
def history (step : σ → ι → σ) (events : σ → ι → List ε) : σ → List ι → List ε
  | _, [] => []
  | s, o :: ops => events s o ++ history step events (step s o) ops

variable {step : σ → ι → σ} {events : σ → ι → List ε}

@[simp] theorem history_cons (s : σ) (o : ι) (ops : List ι) :
    history step events s (o :: ops) = events s o ++ history step events (step s o) ops := rfl

/-- A component of the state that every step changes by its events alone is what the history of the
run makes of it. -/
theorem history_foldl {β : Type*} (view : σ → β) {apply : β → ε → β}
    (hstep : ∀ s o, view (step s o) = (events s o).foldl apply (view s)) (s : σ) (ops : List ι) :
    view (run step s ops) = (history step events s ops).foldl apply (view s) := by
  induction ops generalizing s with
  | nil => rfl
  | cons o ops ih => rw [run_cons, ih, history_cons, List.foldl_append, hstep]

/-- An event `a` with `Q` happened, and every event after it had `P`. Both conditions see what
happened before. -/
def Since (P Q : List ε → ε → Prop) (h : List ε) : Prop :=
  ∃ h₁ a h₂, h = h₁ ++ a :: h₂ ∧ Q h₁ a ∧
    ∀ h₃ b h₄, h₂ = h₃ ++ b :: h₄ → P (h₁ ++ a :: h₃) b

variable {P Q : List ε → ε → Prop}

/-- One more event: it is the one, or it was true before and the event does not end it. -/
theorem since_concat (h : List ε) (e : ε) : Since P Q (h ++ [e]) ↔ Q h e ∨ Since P Q h ∧ P h e := by
  constructor
  · rintro ⟨h₁, a, h₂, heq, hQ, hP⟩
    rcases List.eq_nil_or_concat h₂ with rfl | ⟨h₂', e', rfl⟩
    · obtain ⟨rfl, he⟩ := List.append_inj' heq rfl
      obtain rfl := (List.cons.inj he).1
      exact .inl hQ
    · rw [List.concat_eq_append, ← List.cons_append, ← List.append_assoc] at heq
      obtain ⟨rfl, he⟩ := List.append_inj' heq rfl
      obtain rfl := (List.cons.inj he).1
      refine .inr ⟨⟨h₁, a, h₂', rfl, hQ, ?_⟩, hP h₂' e [] (by simp)⟩
      rintro h₃ b h₄ rfl
      exact hP h₃ b (h₄ ++ [e]) (by simp)
  · rintro (hQ | ⟨⟨h₁, a, h₂, rfl, hQ, hP⟩, he⟩)
    · refine ⟨h, e, [], rfl, hQ, ?_⟩
      intro h₃ b h₄ hnil
      exact absurd hnil.symm (by simp)
    · refine ⟨h₁, a, h₂ ++ [e], by simp, hQ, ?_⟩
      intro h₃ b h₄ heq
      rcases List.eq_nil_or_concat h₄ with rfl | ⟨h₄', e', rfl⟩
      · obtain ⟨rfl, he'⟩ := List.append_inj' heq rfl
        obtain rfl := (List.cons.inj he').1
        exact he
      · rw [List.concat_eq_append, ← List.cons_append, ← List.append_assoc] at heq
        obtain ⟨rfl, -⟩ := List.append_inj' heq rfl
        exact hP h₃ b h₄' rfl

end Runs
