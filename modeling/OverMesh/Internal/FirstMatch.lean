import Mathlib.Data.List.Forall2

/-!
# Ordered rule lists

Evaluation of an ordered list of rules where the first match wins, and the two ways a list may be
changed without changing what it decides: rule by rule (`eval_eq_of_forall₂`), and by a compiler
that may also drop rules that cannot match (`eval_filterMap`).
-/

namespace FirstMatch

variable {R R' A : Type*}

/-- The action of the first rule that is hit, or `dflt` when none is. -/
def eval (hit : R → Bool) (act : R → A) (dflt : A) : List R → A
  | [] => dflt
  | r :: rules => if hit r then act r else eval hit act dflt rules

variable {hit : R → Bool} {act : R → A} {hit' : R' → Bool} {act' : R' → A} {dflt : A}

theorem eval_eq_find? (rules : List R) :
    eval hit act dflt rules = ((rules.find? hit).map act).getD dflt := by
  induction rules with
  | nil => rfl
  | cons r rules ih =>
    rw [eval, List.find?_cons]
    cases hit r with
    | true => rfl
    | false => exact ih

/-- Lists whose rules agree one by one decide alike. -/
theorem eval_eq_of_forall₂ {rules : List R} {rules' : List R'}
    (h : List.Forall₂ (fun r r' => hit' r' = hit r ∧ act' r' = act r) rules rules') :
    eval hit' act' dflt rules' = eval hit act dflt rules := by
  induction h with
  | nil => rfl
  | cons hr _ ih => rw [eval, eval, hr.1, hr.2, ih]

/-- **Compilation.** A compiler that keeps what each rule hits and does, and drops only rules that
do not hit, keeps what the list decides. -/
theorem eval_filterMap {compile : R → Option R'} {rules : List R}
    (hnone : ∀ r ∈ rules, compile r = none → hit r = false)
    (hsome : ∀ r ∈ rules, ∀ r', compile r = some r' → hit' r' = hit r ∧ act' r' = act r) :
    eval hit' act' dflt (rules.filterMap compile) = eval hit act dflt rules := by
  induction rules with
  | nil => rfl
  | cons r rules ih =>
    have ih := ih (fun x hx => hnone x (List.mem_cons_of_mem _ hx))
      fun x hx => hsome x (List.mem_cons_of_mem _ hx)
    cases hc : compile r with
    | none => rw [List.filterMap_cons_none hc, ih, eval, hnone r List.mem_cons_self hc]; rfl
    | some r' =>
      obtain ⟨hhit, hact⟩ := hsome r List.mem_cons_self r' hc
      rw [List.filterMap_cons_some hc, eval, eval, ih, hhit, hact]

end FirstMatch
