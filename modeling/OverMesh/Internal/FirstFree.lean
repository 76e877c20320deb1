import Mathlib.Data.List.Nodup
import Mathlib.Data.List.Perm.Subperm

/-!
# The first free candidate

A loop that tries one candidate after the other until it finds one that is not taken. The candidates
differ, so if the taken ones are among finitely many values the loop ends.

## Main results

* `search_free` — one candidate more than there are values that may be taken is enough
-/

namespace FirstFree

variable {α : Type*}

/-- The first candidate from the `i`-th one on that is not taken, looking at most `fuel` further. -/
def search (taken : α → Bool) (cand : ℕ → α) : ℕ → ℕ → α
  | 0, i => cand i
  | fuel + 1, i => if taken (cand i) then search taken cand fuel (i + 1) else cand i

variable {taken : α → Bool} {cand : ℕ → α} {fuel i : ℕ}

/-- The result is a candidate, and those before it are taken. -/
theorem search_eq (taken : α → Bool) (cand : ℕ → α) (fuel i : ℕ) :
    ∃ k ≤ fuel, search taken cand fuel i = cand (i + k) ∧
      (∀ j < k, taken (cand (i + j)) = true) ∧ (k < fuel → taken (cand (i + k)) = false) := by
  induction fuel generalizing i with
  | zero => exact ⟨0, Nat.le_refl 0, rfl, by simp, by simp⟩
  | succ fuel ih =>
    rw [search]
    split_ifs with htaken
    · obtain ⟨k, hk, heq, hbefore, hfree⟩ := ih (i + 1)
      have hshift : ∀ j, i + 1 + j = i + (j + 1) := fun j => by omega
      refine ⟨k + 1, by omega, by rw [heq, hshift], ?_, ?_⟩
      · intro j hj
        cases j with
        | zero => exact htaken
        | succ j =>
          rw [← hshift]
          exact hbefore j (by omega)
      · intro hlt
        rw [← hshift]
        exact hfree (by omega)
    · exact ⟨0, Nat.zero_le _, rfl, by simp, fun _ => (Bool.not_eq_true _).mp htaken⟩

/-- **The loop ends at a free candidate.** The candidates differ, so that they cannot all be among
fewer values. -/
theorem search_free (hcand : Function.Injective cand) {l : List α}
    (hl : ∀ a, taken a = true → a ∈ l) (hfuel : l.length ≤ fuel) :
    taken (search taken cand fuel i) = false := by
  obtain ⟨k, hk, heq, hbefore, hfree⟩ := search_eq taken cand fuel i
  rw [heq]
  by_cases hlt : k < fuel
  · exact hfree hlt
  · -- all of the first `fuel` candidates are taken, so they are the values that may be
    obtain rfl : k = fuel := by omega
    by_contra hne
    have htaken : ∀ j ≤ k, taken (cand (i + j)) = true := by
      intro j hj
      rcases Nat.lt_or_eq_of_le hj with hj | rfl
      · exact hbefore j hj
      · exact (Bool.not_eq_false _).mp hne
    have hinj : Function.Injective fun j => cand (i + j) := fun a b hab => by
      have := hcand hab
      omega
    have hsub : (List.range (k + 1)).map (fun j => cand (i + j)) ⊆ l := by
      intro a ha
      obtain ⟨j, hj, rfl⟩ := List.mem_map.mp ha
      exact hl _ (htaken j (Nat.lt_succ_iff.mp (List.mem_range.mp hj)))
    have hlen := (List.Nodup.subperm (List.nodup_range.map hinj) hsub).length_le
    rw [List.length_map, List.length_range] at hlen
    omega

end FirstFree
