import Mathlib.Data.List.Nodup

/-!
# Slots

A list of records that are changed in place, such as the tasks of a system, by position. `Distinct
f` says that no two of them have the same value of `f`, for those that have one.

## Main results

* `Slots.getElem?_set_cases` — a record of the changed list is the new one or another one
* `Slots.Distinct.set`, `Slots.Distinct.concat` — what it takes to stay distinct
* `Slots.Distinct.nodup` — the values differ
-/

namespace Slots

variable {α β : Type*} {l : List α} {i j : ℕ} {a b : α}

theorem getElem?_set_cases (h : (l.set i a)[j]? = some b) :
    j = i ∧ b = a ∨ j ≠ i ∧ l[j]? = some b := by
  rw [List.getElem?_set] at h
  split_ifs at h with hij hlt
  · exact .inl ⟨hij.symm, (Option.some.inj h).symm⟩
  · exact .inr ⟨Ne.symm hij, h⟩

/-- A record of the changed list is the new one, or one at another position. -/
theorem mem_set_cases (h : b ∈ l.set i a) : b = a ∨ ∃ j, j ≠ i ∧ l[j]? = some b := by
  obtain ⟨j, hj⟩ := List.mem_iff_getElem?.mp h
  rcases getElem?_set_cases hj with ⟨-, rfl⟩ | ⟨hne, hj⟩
  · exact .inl rfl
  · exact .inr ⟨j, hne, hj⟩

theorem mem_set_of_ne (hj : l[j]? = some b) (hne : j ≠ i) : b ∈ l.set i a :=
  List.mem_of_getElem? ((List.getElem?_set_ne hne.symm).trans hj)

theorem mem_set_self (h : l[i]? = some b) : a ∈ l.set i a :=
  List.mem_set (List.getElem?_eq_some_iff.mp h).1 a

/-- What the changed record has if the old one had it, all have that had it before. -/
theorem forall_mem_set {P : α → Prop} (hi : l[i]? = some b) (h : P b → P a) (hl : ∀ x ∈ l, P x) :
    ∀ x ∈ l.set i a, P x := by
  intro x hx
  rcases mem_set_cases hx with rfl | ⟨j, -, hj⟩
  · exact h (hl b (List.mem_of_getElem? hi))
  · exact hl x (List.mem_of_getElem? hj)

theorem exists_mem_set {P : α → Prop} (hi : l[i]? = some b) (h : P b → P a)
    (hl : ∃ x ∈ l, P x) : ∃ x ∈ l.set i a, P x := by
  obtain ⟨x, hx, hP⟩ := hl
  obtain ⟨j, hj⟩ := List.mem_iff_getElem?.mp hx
  by_cases hji : j = i
  · subst hji
    obtain rfl := Option.some.inj (hi.symm.trans hj)
    exact ⟨a, mem_set_self hi, h hP⟩
  · exact ⟨x, mem_set_of_ne hj hji, hP⟩

theorem getElem?_concat_of_some (h : l[i]? = some b) (a : α) : (l ++ [a])[i]? = some b := by
  obtain ⟨hlt, -⟩ := List.getElem?_eq_some_iff.mp h
  rw [List.getElem?_append_left hlt, h]

theorem getElem?_concat_cases (h : (l ++ [a])[j]? = some b) :
    l[j]? = some b ∨ j = l.length ∧ b = a := by
  rw [List.getElem?_append] at h
  split_ifs at h with hlt
  · exact .inl h
  · have hmem := List.mem_of_getElem? h
    obtain ⟨hlen, -⟩ := List.getElem?_eq_some_iff.mp h
    rw [List.length_singleton] at hlen
    exact .inr ⟨by omega, List.mem_singleton.mp hmem⟩

/-- What the change does not touch stays. -/
theorem map_set_eq {f : α → β} (h : l[i]? = some a) (hf : f b = f a) :
    (l.set i b).map f = l.map f := by
  rw [List.map_set, hf]
  obtain ⟨hlt, rfl⟩ := List.getElem?_eq_some_iff.mp h
  rw [← List.getElem_map f (h := by rwa [List.length_map]), List.set_getElem_self]

theorem mem_drop_succ_iff : a ∈ l.drop (i + 1) ↔ ∃ j, i < j ∧ l[j]? = some a := by
  rw [List.mem_iff_getElem?]
  constructor
  · rintro ⟨k, hk⟩
    rw [List.getElem?_drop] at hk
    exact ⟨i + 1 + k, by omega, hk⟩
  · rintro ⟨j, hij, hj⟩
    refine ⟨j - (i + 1), ?_⟩
    rwa [List.getElem?_drop, show i + 1 + (j - (i + 1)) = j by omega]

/-- No two records have the same value. -/
def Distinct (f : α → Option β) (l : List α) : Prop :=
  ∀ (i j : ℕ) (a b : α) (p : β), i ≠ j → l[i]? = some a → l[j]? = some b → f a = some p →
    f b ≠ some p

variable {f : α → Option β}

namespace Distinct

theorem nil : Distinct f [] := by
  intro i j a b p _ hi
  simp at hi

theorem set (h : Distinct f l)
    (hnew : ∀ p, f a = some p → ∀ j b, j ≠ i → l[j]? = some b → f b ≠ some p) :
    Distinct f (l.set i a) := by
  intro m n x y p hmn hm hn hx hy
  rcases getElem?_set_cases hm with ⟨rfl, rfl⟩ | ⟨hmi, hm'⟩ <;>
    rcases getElem?_set_cases hn with ⟨rfl, rfl⟩ | ⟨hni, hn'⟩
  · exact hmn rfl
  · exact hnew p hx n y hni hn' hy
  · exact hnew p hy m x hmi hm' hx
  · exact h m n x y p hmn hm' hn' hx hy

theorem concat (h : Distinct f l) (hnew : ∀ p, f a = some p → ∀ b ∈ l, f b ≠ some p) :
    Distinct f (l ++ [a]) := by
  intro m n x y p hmn hm hn hx hy
  rcases getElem?_concat_cases hm with hm' | ⟨rfl, rfl⟩ <;>
    rcases getElem?_concat_cases hn with hn' | ⟨rfl, rfl⟩
  · exact h m n x y p hmn hm' hn' hx hy
  · exact hnew p hy x (List.mem_of_getElem? hm') hx
  · exact hnew p hx y (List.mem_of_getElem? hn') hy
  · exact hmn rfl

theorem nodup (h : Distinct f l) : (l.filterMap f).Nodup := by
  refine List.pairwise_filterMap.mpr (List.pairwise_iff_getElem.mpr ?_)
  intro m n hm hn hmn p hp q hq hpq
  subst hpq
  exact h m n l[m] l[n] p (Nat.ne_of_lt hmn) (List.getElem?_eq_getElem hm)
    (List.getElem?_eq_getElem hn) hp hq

end Distinct

end Slots
