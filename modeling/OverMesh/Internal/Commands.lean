import Mathlib.Data.List.Basic

/-!
# Scripts of commands that may fail

A program that changes a system by running commands on it, one after the other. `exec` says what a
command does, `none` when the system refuses it. `fails` are the commands that fail for a reason of
their own. A command that fails has no effect.

What a script does with an error is one of two things: it stops there, `untilError`, or it goes on
as if nothing had happened, `each`.

## Main results

* `Commands.untilError_cons_of_none`, `Commands.untilError_cons_of_some` — how a script that stops
  goes on, and `Commands.untilError_induction` — what it keeps
* `Commands.each_cons` — how one that does not stop goes on
-/

namespace Commands

variable {σ γ : Type*} (exec : σ → γ → Option σ) (fails : γ → Bool)

/-- One command. -/
def attempt (s : σ) (c : γ) : Option σ := if fails c then none else exec s c

/-- One command whose error is ignored. -/
def ignore (s : σ) (c : γ) : σ := (attempt exec fails s c).getD s

/-- Commands up to the first that fails, which is named. -/
def untilError (s : σ) : List γ → Option γ × σ
  | [] => (none, s)
  | c :: cs =>
    match attempt exec fails s c with
    | none => (some c, s)
    | some s' => untilError s' cs

/-- Commands whose errors are ignored. -/
def each (s : σ) (cs : List γ) : σ := cs.foldl (ignore exec fails) s

/-- Nothing fails for a reason of its own. -/
def never : γ → Bool := fun _ => false

variable {exec fails} {s s' : σ} {c : γ}

theorem attempt_of_fails (h : fails c = true) : attempt exec fails s c = none := if_pos h

theorem attempt_of_not_fails (h : fails c = false) : attempt exec fails s c = exec s c :=
  if_neg (by rw [h]; exact Bool.false_ne_true)

@[simp] theorem attempt_never : attempt exec never s c = exec s c := rfl

@[simp] theorem untilError_nil : untilError exec fails s [] = (none, s) := rfl

theorem untilError_cons_of_none (h : attempt exec fails s c = none) (cs : List γ) :
    untilError exec fails s (c :: cs) = (some c, s) := by
  rw [untilError, h]

theorem untilError_cons_of_some (h : attempt exec fails s c = some s') (cs : List γ) :
    untilError exec fails s (c :: cs) = untilError exec fails s' cs := by
  rw [untilError, h]

@[simp] theorem each_nil : each exec fails s [] = s := rfl

@[simp] theorem each_cons (cs : List γ) :
    each exec fails s (c :: cs) = each exec fails (ignore exec fails s c) cs := rfl

/-- What every command keeps, a script that stops keeps. -/
theorem untilError_induction {P : σ → Prop} {cs : List γ} (h0 : P s)
    (hstep : ∀ s s' c, c ∈ cs → P s → exec s c = some s' → P s') :
    P (untilError exec fails s cs).2 := by
  induction cs generalizing s with
  | nil => exact h0
  | cons c cs ih =>
    have hrest : ∀ s s' c', c' ∈ cs → P s → exec s c' = some s' → P s' :=
      fun s s' c' hc' => hstep s s' c' (List.mem_cons_of_mem c hc')
    cases hattempt : attempt exec fails s c with
    | none =>
      rw [untilError_cons_of_none hattempt]
      exact h0
    | some s' =>
      rw [untilError_cons_of_some hattempt]
      rw [attempt] at hattempt
      split_ifs at hattempt
      exact ih (hstep s s' c List.mem_cons_self h0 hattempt) hrest

end Commands
