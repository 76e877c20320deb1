import Mathlib.Data.List.MinMax
import Mathlib.Data.List.Nodup
import Mathlib.Data.Prod.Basic

/-!
# Longest-prefix tables

A table that assigns owners to prefixes and answers, for a point, who owns the longest prefix that
covers it. Assigning a prefix anew takes it from its previous owner. `program` builds a table from a
list of owners with their prefixes, one owner after the other, clearing what the owner had before.

Prefixes are an arbitrary type with a length and a relation `covers`. Where it matters, prefixes of
one length that cover a common point are assumed to be equal, as canonical prefixes of addresses
are.

## Main results

* `lookup_program_sound` — the answer owns a prefix that covers the point, and nobody owns a longer
  one
* `lookup_program_last` — of several owners with equally long prefixes the one that was programmed
  last is the answer
-/

namespace PrefixTable

variable {ρ κ α : Type*}

/-! ### Lookups -/

section Lookup

variable {covers : ρ → α → Bool} {len : ρ → ℕ} {t : List (ρ × κ)} {x : α} {k : κ}

/-- The owner of the longest prefix that covers `x`. -/
def lookup (covers : ρ → α → Bool) (len : ρ → ℕ) (t : List (ρ × κ)) (x : α) : Option κ :=
  ((t.filter fun e => covers e.1 x).argmax fun e => len e.1).map Prod.snd

/-- The answer owns the longest prefix that covers the point. -/
theorem exists_of_lookup (h : lookup covers len t x = some k) :
    ∃ e ∈ t, e.2 = k ∧ covers e.1 x = true ∧
      ∀ e' ∈ t, covers e'.1 x = true → len e'.1 ≤ len e.1 := by
  obtain ⟨e, he, rfl⟩ := Option.map_eq_some_iff.mp h
  obtain ⟨hmem, hcovers⟩ := List.mem_filter.mp (List.argmax_mem he)
  refine ⟨e, hmem, rfl, hcovers, ?_⟩
  intro e' he' hcovers'
  have hmem' : e' ∈ t.filter fun e => covers e.1 x := List.mem_filter.mpr ⟨he', hcovers'⟩
  exact List.le_of_mem_argmax (f := fun e : ρ × κ => len e.1) hmem' he

/-- A point that is covered has an answer. -/
theorem exists_lookup (len : ρ → ℕ) {e : ρ × κ} (he : e ∈ t) (hcovers : covers e.1 x = true) :
    ∃ k, lookup covers len t x = some k := by
  rw [← Option.ne_none_iff_exists', lookup, Ne, Option.map_eq_none_iff, List.argmax_eq_none,
    List.filter_eq_nil_iff]
  exact fun hnone => hnone e he hcovers

end Lookup

/-! ### Building a table -/

variable [DecidableEq ρ]

/-- Assign a prefix to an owner. -/
def insert (t : List (ρ × κ)) (p : ρ) (k : κ) : List (ρ × κ) := t.filter (·.1 ≠ p) ++ [(p, k)]

/-- Assign several prefixes to an owner. -/
def insertAll (t : List (ρ × κ)) (k : κ) (ps : List ρ) : List (ρ × κ) :=
  ps.foldl (fun t p => insert t p k) t

theorem mem_insert {t : List (ρ × κ)} {p : ρ} {k : κ} {e : ρ × κ} :
    e ∈ insert t p k ↔ e ∈ t ∧ e.1 ≠ p ∨ e = (p, k) := by
  simp [insert]

theorem mem_insertAll {k : κ} {ps : List ρ} {t : List (ρ × κ)} {e : ρ × κ} :
    e ∈ insertAll t k ps ↔ e ∈ t ∧ e.1 ∉ ps ∨ e.1 ∈ ps ∧ e.2 = k := by
  induction ps generalizing t with
  | nil => simp [insertAll]
  | cons p ps ih =>
    rw [insertAll, List.foldl_cons, ← insertAll, ih, mem_insert]
    have hpair : e = (p, k) ↔ e.1 = p ∧ e.2 = k := Prod.ext_iff
    rw [hpair, List.mem_cons]
    tauto

variable [DecidableEq κ]

/-- Take everything from an owner. -/
def remove (t : List (ρ × κ)) (k : κ) : List (ρ × κ) := t.filter (·.2 ≠ k)

/-- The table of owners that are programmed one after the other. -/
def program (bs : List (κ × List ρ)) : List (ρ × κ) :=
  bs.foldl (fun t b => insertAll (remove t b.1) b.1 b.2) []

theorem program_concat (bs : List (κ × List ρ)) (b : κ × List ρ) :
    program (bs ++ [b]) = insertAll (remove (program bs) b.1) b.1 b.2 := by
  simp [program]

/-- Every entry was programmed. -/
theorem exists_of_mem_program {bs : List (κ × List ρ)} {e : ρ × κ} (h : e ∈ program bs) :
    ∃ b ∈ bs, b.1 = e.2 ∧ e.1 ∈ b.2 := by
  induction bs using List.reverseRecOn with
  | nil => cases h
  | append_singleton bs b ih =>
    rw [program_concat, mem_insertAll] at h
    rcases h with ⟨hold, -⟩ | ⟨hmem, hk⟩
    · obtain ⟨b', hb', hrest⟩ := ih (List.mem_filter.mp hold).1
      exact ⟨b', List.mem_append_left _ hb', hrest⟩
    · exact ⟨b, List.mem_append_right _ (List.mem_singleton_self b), hk.symm, hmem⟩

/-- No prefix that was programmed is without an owner, if no owner is programmed twice. -/
theorem exists_mem_program {bs : List (κ × List ρ)} (hk : (bs.map Prod.fst).Nodup)
    {b : κ × List ρ} (hb : b ∈ bs) {p : ρ} (hp : p ∈ b.2) : ∃ e ∈ program bs, e.1 = p := by
  induction bs using List.reverseRecOn with
  | nil => cases hb
  | append_singleton bs c ih =>
    rw [List.map_append, List.nodup_append] at hk
    rw [program_concat]
    rcases List.mem_append.mp hb with hb | hb
    · obtain ⟨e, he, rfl⟩ := ih hk.1 hb
      by_cases hc : e.1 ∈ c.2
      · exact ⟨(e.1, c.1), mem_insertAll.mpr (.inr ⟨hc, rfl⟩), rfl⟩
      · refine ⟨e, mem_insertAll.mpr (.inl ⟨List.mem_filter.mpr ⟨he, ?_⟩, hc⟩), rfl⟩
        obtain ⟨b', hb', hkey, -⟩ := exists_of_mem_program he
        have hne := hk.2.2 b'.1 (List.mem_map_of_mem hb') c.1 (by simp)
        simpa [← hkey] using hne
    · rw [List.mem_singleton.mp hb] at hp
      exact ⟨(p, c.1), mem_insertAll.mpr (.inr ⟨hp, rfl⟩), rfl⟩

/-! ### Who is found -/

section Program

variable {covers : ρ → α → Bool} {len : ρ → ℕ} {x : α} {k : κ}

/-- **The answer** owns a prefix that covers the point, and nobody owns a longer one. -/
theorem lookup_program_sound {bs : List (κ × List ρ)} (hk : (bs.map Prod.fst).Nodup)
    (h : lookup covers len (program bs) x = some k) :
    ∃ b ∈ bs, b.1 = k ∧ ∃ p ∈ b.2, covers p x = true ∧
      ∀ b' ∈ bs, ∀ p' ∈ b'.2, covers p' x = true → len p' ≤ len p := by
  obtain ⟨e, he, rfl, hcovers, hmax⟩ := exists_of_lookup h
  obtain ⟨b, hb, hkey, hp⟩ := exists_of_mem_program he
  refine ⟨b, hb, hkey, e.1, hp, hcovers, ?_⟩
  intro b' hb' p' hp' hcovers'
  obtain ⟨e', he', rfl⟩ := exists_mem_program hk hb' hp'
  exact hmax e' he' hcovers'

/-- **The last one wins.** An owner that is programmed last and has a prefix that covers the point
and is not shorter than anybody's is the answer. -/
theorem lookup_program_last
    (hunique : ∀ p q, covers p x = true → covers q x = true → len p = len q → p = q)
    {bs : List (κ × List ρ)} {b : κ × List ρ} {p : ρ} (hp : p ∈ b.2) (hcovers : covers p x = true)
    (hmax : ∀ b' ∈ bs ++ [b], ∀ p' ∈ b'.2, covers p' x = true → len p' ≤ len p) :
    lookup covers len (program (bs ++ [b])) x = some b.1 := by
  have hentry : (p, b.1) ∈ program (bs ++ [b]) := by
    rw [program_concat]
    exact mem_insertAll.mpr (.inr ⟨hp, rfl⟩)
  obtain ⟨k, hk⟩ := exists_lookup len hentry hcovers
  obtain ⟨e, he, rfl, hcovers', hlongest⟩ := exists_of_lookup hk
  obtain ⟨b', hb', -, hp'⟩ := exists_of_mem_program he
  -- The entry that is found is the one for `p`, and that has been assigned last.
  have heq : e.1 = p := hunique _ _ hcovers' hcovers
    (le_antisymm (hmax b' hb' e.1 hp' hcovers') (hlongest _ hentry hcovers))
  rw [program_concat, mem_insertAll] at he
  rcases he with ⟨-, hnot⟩ | ⟨-, howner⟩
  · exact absurd (heq ▸ hp) hnot
  · rw [hk, howner]

end Program

end PrefixTable
