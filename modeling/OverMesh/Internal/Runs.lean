import Mathlib.Data.List.Chain
import Mathlib.Logic.Basic

/-!
# Runs of a machine driven by a list of inputs

A machine here is a total function `step : σ → ι → σ`. Whatever is nondeterministic about a
system, a scheduler's choice, a random token, the order in which requests arrive, is an input,
so a run is a list of inputs and the state it reaches is a fold.

## What is deliberately absent

There is no transition relation and no notion of an enabled input. An input that the modelled
code refuses is a step that changes nothing, which is what a refused request does.

## Main results

* `Runs.run_induction` — an invariant of every step is an invariant of every run
* `Runs.run_induction_along` — the same when only the steps that meet a condition keep it
* `Runs.forall_prefix_iff_along` — a condition that is exact for one step is exact for runs
* `Runs.forall_prefix_iff_isChain` — the same for a condition on an input and the one before it
* `Runs.run_related` — machines that simulate each other step by step do so over whole runs
* `Runs.view_run` — a machine that carries records along runs as the one underneath
* `Runs.exists_taken` — what a machine takes in over a run that may drop some of it
-/

namespace Runs

variable {σ ι : Type*}

/-- The state reached from `s` on the inputs `ops`, taken in order. -/
def run (step : σ → ι → σ) (s : σ) (ops : List ι) : σ := ops.foldl step s

variable {step : σ → ι → σ}

@[simp] theorem run_nil (s : σ) : run step s [] = s := rfl

@[simp] theorem run_cons (s : σ) (o : ι) (ops : List ι) :
    run step s (o :: ops) = run step (step s o) ops := rfl

theorem run_append (s : σ) (ops ops' : List ι) :
    run step s (ops ++ ops') = run step (run step s ops) ops' := List.foldl_append

/-- A state of a run is its first one, or one of the run after the first step. -/
theorem exists_prefix_cons_iff {P : σ → Prop} {s : σ} {o : ι} {ops : List ι} :
    (∃ p, p <+: o :: ops ∧ P (run step s p)) ↔
      P s ∨ ∃ p, p <+: ops ∧ P (run step (step s o) p) := by
  constructor
  · rintro ⟨p, hp, hP⟩
    cases p with
    | nil => exact .inl hP
    | cons o' p =>
      obtain ⟨rfl, hrest⟩ := List.cons_prefix_cons.mp hp
      exact .inr ⟨p, hrest, hP⟩
  · rintro (hP | ⟨p, hp, hP⟩)
    · exact ⟨[], List.nil_prefix, hP⟩
    · exact ⟨o :: p, (List.prefix_cons_inj o).mpr hp, hP⟩

/-- Every input of `ops` meets `C` in the state it is taken in. -/
def Along (step : σ → ι → σ) (C : σ → ι → Prop) : σ → List ι → Prop
  | _, [] => True
  | s, o :: ops => C s o ∧ Along step C (step s o) ops

variable {C : σ → ι → Prop}

@[simp] theorem along_nil (s : σ) : Along step C s [] := trivial

@[simp] theorem along_cons (s : σ) (o : ι) (ops : List ι) :
    Along step C s (o :: ops) ↔ C s o ∧ Along step C (step s o) ops := Iff.rfl

instance Along.decidable [∀ s o, Decidable (C s o)] :
    (s : σ) → (ops : List ι) → Decidable (Along step C s ops)
  | _, [] => isTrue trivial
  | s, o :: ops =>
    have := Along.decidable (step s o) ops
    inferInstanceAs (Decidable (C s o ∧ Along step C (step s o) ops))

theorem along_of_forall {ops : List ι} (h : ∀ o ∈ ops, ∀ s, C s o) (s : σ) :
    Along step C s ops := by
  induction ops generalizing s with
  | nil => trivial
  | cons o ops ih =>
    exact ⟨h o List.mem_cons_self s, ih (fun o' ho' => h o' (List.mem_cons_of_mem _ ho')) _⟩

theorem Along.and {D : σ → ι → Prop} {s : σ} {ops : List ι} (h : Along step C s ops)
    (h' : Along step D s ops) : Along step (fun s o => C s o ∧ D s o) s ops := by
  induction ops generalizing s with
  | nil => trivial
  | cons o ops ih => exact ⟨⟨h.1, h'.1⟩, ih h.2 h'.2⟩

/-- What every step that meets `C` keeps, every run whose steps meet `C` keeps. -/
theorem run_induction_along {P : σ → Prop} {s : σ} (h0 : P s)
    (hstep : ∀ s o, P s → C s o → P (step s o)) {ops : List ι} (h : Along step C s ops) :
    P (run step s ops) := by
  induction ops generalizing s with
  | nil => exact h0
  | cons o ops ih => exact ih (hstep s o h0 h.1) h.2

/-- What every step keeps, every run keeps. -/
theorem run_induction {P : σ → Prop} {s : σ} (h0 : P s) (hstep : ∀ s o, P s → P (step s o))
    (ops : List ι) : P (run step s ops) := by
  induction ops generalizing s with
  | nil => exact h0
  | cons o ops ih => exact ih (hstep s o h0)

/-- **A condition that is exact for one step is exact for runs**: if, in the states that satisfy the
invariant `J`, a step keeps `P` just when it meets `C`, then `P` holds in every state of a run just
when all its steps meet `C`. -/
theorem forall_prefix_iff_along {P J : σ → Prop} {s : σ} (hJ0 : J s) (h0 : P s)
    (hJ : ∀ s o, J s → J (step s o))
    (hstep : ∀ s o, J s → P s → (P (step s o) ↔ C s o)) (ops : List ι) :
    (∀ ops', ops' <+: ops → P (run step s ops')) ↔ Along step C s ops := by
  induction ops generalizing s with
  | nil =>
    refine ⟨fun _ => trivial, fun _ ops' hpre => ?_⟩
    rw [List.prefix_nil.mp hpre]
    exact h0
  | cons o ops ih =>
    constructor
    · intro h
      have hnext : P (step s o) := h [o] (List.prefix_append [o] ops)
      refine ⟨(hstep s o hJ0 h0).mp hnext, (ih (hJ s o hJ0) hnext).mp ?_⟩
      intro ops' hpre
      exact h (o :: ops') ((List.prefix_cons_inj o).mpr hpre)
    · rintro ⟨hC, halong⟩ ops' hpre
      have hnext : P (step s o) := (hstep s o hJ0 h0).mpr hC
      cases ops' with
      | nil => exact h0
      | cons o' ops' =>
        obtain ⟨rfl, hrest⟩ := List.cons_prefix_cons.mp hpre
        exact (ih (hJ s o' hJ0) hnext).mpr halong ops' hrest

/-- A condition on two inputs in a row: what holds of every state of a run and the input that led to
it, just when neighbours are related. -/
theorem forall_prefix_iff_isChain {P J : σ → Option ι → Prop} {R : ι → ι → Prop} {s : σ}
    (hJ0 : J s none) (h0 : P s none) (hJ : ∀ s p o, J s p → J (step s o) (some o))
    (hstep : ∀ s p o, J s p → P s p → (P (step s o) (some o) ↔ ∀ q, p = some q → R q o))
    (ops : List ι) :
    (∀ ops', ops' <+: ops → P (run step s ops') ops'.getLast?) ↔ ops.IsChain R := by
  -- The input before is carried along with the state.
  have hrun : ∀ (s : σ) (p : Option ι) (ops : List ι),
      run (fun t o => (step t.1 o, some o)) (s, p) ops = (run step s ops, ops.getLast?.or p) := by
    intro s p ops
    induction ops generalizing s p with
    | nil => rfl
    | cons o ops ih =>
      rw [run_cons, run_cons, ih, List.getLast?_cons]
      cases ops.getLast? <;> rfl
  have halong : ∀ (s : σ) (p : Option ι) (ops : List ι),
      Along (fun (t : σ × Option ι) o => (step t.1 o, some o))
        (fun t o => ∀ q, t.2 = some q → R q o) (s, p) ops ↔ (p.toList ++ ops).IsChain R := by
    intro s p ops
    induction ops generalizing s p with
    | nil => cases p <;> simp
    | cons o ops ih =>
      rw [along_cons, ih]
      cases p with
      | none => simp
      | some q => simp [List.isChain_cons_cons]
  have hiff : (∀ ops', ops' <+: ops →
      let t := run (fun (t : σ × Option ι) o => (step t.1 o, some o)) (s, none) ops'
      P t.1 t.2) ↔
      Along (fun (t : σ × Option ι) o => (step t.1 o, some o))
        (fun t o => ∀ q, t.2 = some q → R q o) (s, none) ops :=
    forall_prefix_iff_along (P := fun (t : σ × Option ι) => P t.1 t.2)
      (J := fun (t : σ × Option ι) => J t.1 t.2) hJ0 h0 (fun t o h => hJ t.1 t.2 o h)
      (fun t o h h' => hstep t.1 t.2 o h h') ops
  rw [halong] at hiff
  simpa only [hrun, Option.or_none, Option.toList_none, List.nil_append] using hiff

/-- Conditions that agree in the states that satisfy an invariant agree along runs. -/
theorem along_congr {D : σ → ι → Prop} {J : σ → Prop} {s : σ} (hJ0 : J s)
    (hJ : ∀ s o, J s → J (step s o)) (h : ∀ s o, J s → (C s o ↔ D s o)) (ops : List ι) :
    Along step C s ops ↔ Along step D s ops := by
  induction ops generalizing s with
  | nil => exact Iff.rfl
  | cons o ops ih => exact and_congr (h s o hJ0) (ih (hJ s o hJ0))

/-- A machine that carries more along runs as the one underneath. -/
theorem view_run {τ : Type*} {step' : τ → ι → τ} (view : τ → σ)
    (h : ∀ t o, view (step' t o) = step (view t) o) (t : τ) (ops : List ι) :
    view (run step' t ops) = run step (view t) ops := by
  induction ops generalizing t with
  | nil => rfl
  | cons o ops ih => rw [run_cons, run_cons, ih, h]

/-- **Simulation.** Two machines that stay related on inputs of one kind are related after every run
on such inputs. -/
theorem run_related {τ : Type*} {step' : τ → ι → τ} {R : σ → τ → Prop} {D : ι → Prop} {s : σ}
    {t : τ} (h0 : R s t) (hstep : ∀ s t o, D o → R s t → R (step s o) (step' t o)) {ops : List ι}
    (hops : ∀ o ∈ ops, D o) : R (run step s ops) (run step' t ops) := by
  induction ops generalizing s t with
  | nil => exact h0
  | cons o ops ih =>
    exact ih (hstep s t o (hops o List.mem_cons_self) h0)
      fun o' ho' => hops o' (List.mem_cons_of_mem o ho')

/-- **What is taken in over a run.** If a step takes in the item it brings, or drops it for want of
room, then what is taken in are some of the items, in order, and all of them if there always is
room. -/
theorem exists_taken {α : Type*} {item? : ι → Option α} {P : σ → List α → Prop}
    (hstep : ∀ s taken o, P s taken →
      P (step s o) (taken ++ (item? o).toList) ∨ P (step s o) taken ∧ ¬ C s o)
    {s : σ} {taken : List α} (h : P s taken) (ops : List ι) :
    ∃ more, P (run step s ops) (taken ++ more) ∧ more.Sublist (ops.filterMap item?) ∧
      (Along step C s ops → more = ops.filterMap item?) := by
  induction ops generalizing s taken with
  | nil => exact ⟨[], (List.append_nil taken).symm ▸ h, List.Sublist.refl _, fun _ => rfl⟩
  | cons o ops ih =>
    have hitems : (o :: ops).filterMap item? = (item? o).toList ++ ops.filterMap item? := by
      rw [List.filterMap_cons]
      cases item? o <;> rfl
    rw [hitems]
    rcases hstep s taken o h with hnext | ⟨hnext, hfull⟩
    · obtain ⟨more, hmore, hsub, hall⟩ := ih hnext
      refine ⟨(item? o).toList ++ more, ?_, (List.append_sublist_append_left _).mpr hsub, ?_⟩
      · rwa [run_cons, ← List.append_assoc]
      · intro halong
        rw [hall halong.2]
    · obtain ⟨more, hmore, hsub, -⟩ := ih hnext
      exact ⟨more, hmore, hsub.trans (List.sublist_append_right _ _),
        fun halong => absurd halong.1 hfull⟩

end Runs
