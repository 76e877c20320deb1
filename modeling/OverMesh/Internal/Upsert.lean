import Mathlib.Data.List.Nodup

/-!
# Updating rows by key

A map with values that are changed in place, as a list of rows without repeated keys. `upsert`
changes the row of a key, and makes one first if there is none.

## Main results

* `Upsert.nodup_upsert` — keys stay distinct
* `Upsert.map_upsert` — a view of the rows that goes along with the change goes along with `upsert`
-/

namespace Upsert

variable {α β κ : Type*} [DecidableEq κ]

/-- Change the row with key `k`. -/
def update (key : α → κ) (k : κ) (f : α → α) (rows : List α) : List α :=
  rows.map fun r => if key r = k then f r else r

/-- Change the row with key `k`, which is `fresh` if there is none. -/
def upsert (key : α → κ) (k : κ) (f : α → α) (fresh : α) (rows : List α) : List α :=
  if rows.any (key · = k) then update key k f rows else rows ++ [f fresh]

variable {key : α → κ} {k : κ} {f : α → α} {fresh : α} {rows : List α}

theorem any_iff : rows.any (key · = k) = true ↔ k ∈ rows.map key := by
  simp only [List.any_eq_true, decide_eq_true_eq, List.mem_map]

theorem map_key_update (hf : ∀ r, key (f r) = key r) :
    (update key k f rows).map key = rows.map key := by
  rw [update, List.map_map]
  refine List.map_congr_left fun r _ => ?_
  rw [Function.comp_apply]
  split_ifs
  · exact hf r
  · rfl

/-- The keys after `upsert`. -/
theorem map_key_upsert (hf : ∀ r, key (f r) = key r) (hfresh : key fresh = k) :
    (upsert key k f fresh rows).map key =
      if k ∈ rows.map key then rows.map key else rows.map key ++ [k] := by
  rw [upsert]
  by_cases hk : k ∈ rows.map key
  · rw [if_pos (any_iff.mpr hk), if_pos hk, map_key_update hf]
  · rw [if_neg (mt any_iff.mp hk), if_neg hk, List.map_append, List.map_singleton, hf, hfresh]

theorem nodup_upsert (hf : ∀ r, key (f r) = key r) (hfresh : key fresh = k)
    (h : (rows.map key).Nodup) : ((upsert key k f fresh rows).map key).Nodup := by
  rw [map_key_upsert hf hfresh]
  split_ifs with hk
  · exact h
  · exact h.append (List.nodup_singleton k) (List.disjoint_singleton.mpr hk)

theorem subset_map_key_upsert (hf : ∀ r, key (f r) = key r) (hfresh : key fresh = k) :
    rows.map key ⊆ (upsert key k f fresh rows).map key := by
  rw [map_key_upsert hf hfresh]
  split_ifs
  · exact List.Subset.refl _
  · exact List.subset_append_left _ _

section View

variable {key' : β → κ} {f' : β → β} {fresh' : β} {g : α → β}

theorem map_update (hkey : ∀ r, key' (g r) = key r) (hf : ∀ r, key r = k → g (f r) = f' (g r)) :
    (update key k f rows).map g = update key' k f' (rows.map g) := by
  rw [update, update, List.map_map, List.map_map]
  refine List.map_congr_left fun r _ => ?_
  rw [Function.comp_apply, Function.comp_apply, hkey]
  split_ifs with hk
  · exact hf r hk
  · rfl

/-- **A view goes along.** -/
theorem map_upsert (hkey : ∀ r, key' (g r) = key r) (hf : ∀ r, key r = k → g (f r) = f' (g r))
    (hk : key fresh = k) (hfresh : k ∉ rows.map key → g fresh = fresh') :
    (upsert key k f fresh rows).map g = upsert key' k f' fresh' (rows.map g) := by
  have hkeys : (rows.map g).map key' = rows.map key := by
    rw [List.map_map]
    exact List.map_congr_left fun r _ => hkey r
  rw [upsert, upsert]
  by_cases hmem : k ∈ rows.map key
  · rw [if_pos (any_iff.mpr hmem), if_pos (any_iff.mpr (hkeys ▸ hmem)), map_update hkey hf]
  · rw [if_neg (mt any_iff.mp hmem), if_neg (mt any_iff.mp (hkeys ▸ hmem)), List.map_append,
      List.map_singleton, hf fresh hk, hfresh hmem]

end View

end Upsert
