import OverMesh.Coord.AclCompile
import OverMesh.Filter.Decode

/-!
# Port specifications

Rules name their ports as text, `443` or `8000-9000`. `PortSpec` is the grammar of these texts, and
`ParsePortSpec` accepts what is in it and stands for ports, and nothing else.

## Main definitions

* `PortSpec` — the texts that stand for a pair of numbers

## Main results

* `parsePortSpec_eq_ok_iff` — **`ParsePortSpec` accepts its grammar**, and the ranges it returns are
  not changed by the conversion to 16 bits
-/

namespace OverMesh

open GoText

/-- The text is a decimal number or two of them with a dash between, with white space around each.
There is no other dash, so the dash is the first one. -/
inductive PortSpec : List Char → ℕ → ℕ → Prop
  | single {l s r : List Char} {a : ℕ} (hl : Blank l) (hs : Decimal s a) (hr : Blank r) :
      PortSpec (l ++ s ++ r) a a
  | range {l s m m' t r : List Char} {a b : ℕ} (hl : Blank l) (hs : Decimal s a) (hm : Blank m)
      (hm' : Blank m') (ht : Decimal t b) (hr : Blank r) :
      PortSpec (l ++ s ++ m ++ '-' :: (m' ++ t ++ r)) a b

/-- White space around a specification. -/
theorem PortSpec.pad {l s r : List Char} {a b : ℕ} (hl : Blank l) (h : PortSpec s a b)
    (hr : Blank r) : PortSpec (l ++ s ++ r) a b := by
  cases h with
  | single hl' hs hr' =>
    have h := PortSpec.single (hl.append hl') hs (hr'.append hr)
    simpa only [List.append_assoc] using h
  | range hl' hs hm hm' ht hr' =>
    have h := PortSpec.range (hl.append hl') hs hm hm' ht (hr'.append hr)
    simpa only [List.append_assoc, List.cons_append] using h

theorem trimSpace_decimal {l s r : List Char} {n : ℕ} (hl : Blank l) (hs : Decimal s n)
    (hr : Blank r) : trimSpace (l ++ s ++ r) = s :=
  trimSpace_append hl hr hs.ne_nil (fun _ hc => (hs.plain (List.mem_of_mem_head? hc)).1)
    fun _ hc => (hs.plain (List.mem_of_getLast? hc)).1

/-- Neither white space nor digits are dashes. -/
theorem dash_notMem {l s r : List Char} {n : ℕ} (hl : Blank l) (hs : Decimal s n) (hr : Blank r) :
    '-' ∉ l ++ s ++ r := by
  have hblank : ∀ {t : List Char}, Blank t → '-' ∉ t := fun ht hmem =>
    absurd (ht _ hmem) (by decide)
  rw [List.mem_append, List.mem_append, not_or, not_or]
  exact ⟨⟨hblank hl, fun hmem => (hs.plain hmem).2 rfl⟩, hblank hr⟩

theorem blank_nil : Blank [] := fun _ hc => absurd hc List.not_mem_nil

section Parse

variable {spec : List Char} {a b : ℕ}

/-- What the two bounded parses make of the two parts of a trimmed text. -/
def parts (spec : List Char) : Option (ℕ × ℕ) :=
  (parseUint 16 (trimSpace (cut '-' spec).1)).bind fun f =>
    match (cut '-' spec).2 with
    | none => some (f, f)
    | some last => (parseUint 16 (trimSpace last)).map fun l => (f, l)

theorem portSpec_of_parts (h : parts spec = some (a, b)) : PortSpec spec a b ∧ b < 2 ^ 16 := by
  rw [parts, Option.bind_eq_some_iff] at h
  obtain ⟨f, hf, h⟩ := h
  obtain ⟨hdec, hlt⟩ := parseUint_eq_some_iff.mp hf
  obtain ⟨l, m, hl, hm, hfirst⟩ := exists_trimSpace (cut '-' spec).1
  have hspec := eq_of_cut '-' spec
  cases hcut : (cut '-' spec).2 with
  | none =>
    rw [hcut] at h hspec
    obtain ⟨rfl, rfl⟩ := Prod.mk.injEq .. ▸ Option.some.inj h
    rw [Option.map_none, Option.getD_none, List.append_nil, hfirst] at hspec
    rw [hspec]
    exact ⟨.single hl hdec hm, hlt⟩
  | some last =>
    rw [hcut] at h hspec
    obtain ⟨k, hk, hpair⟩ := Option.map_eq_some_iff.mp h
    obtain ⟨rfl, rfl⟩ := Prod.mk.injEq .. ▸ hpair
    obtain ⟨hdec', hlt'⟩ := parseUint_eq_some_iff.mp hk
    obtain ⟨m', r, hm', hr, hlast⟩ := exists_trimSpace last
    rw [Option.map_some, Option.getD_some, hfirst, hlast] at hspec
    rw [hspec]
    exact ⟨.range hl hdec hm hm' hdec' hr, hlt'⟩

/-- The trimmed text of a specification has the parts it stands for. -/
theorem parts_of_portSpec (h : PortSpec spec a b) (ha : a < 2 ^ 16) (hb : b < 2 ^ 16) :
    parts (trimSpace spec) = some (a, b) := by
  cases h with
  | single hl hs hr =>
    have hdash := dash_notMem blank_nil hs blank_nil
    have htrim := trimSpace_decimal blank_nil hs blank_nil
    rw [List.nil_append, List.append_nil] at hdash htrim
    rw [trimSpace_decimal hl hs hr, parts, cut_of_not_mem hdash, htrim,
      parseUint_eq_some_iff.mpr ⟨hs, ha⟩]
    rfl
  | @range l s m m' t r a b hl hs hm hm' ht hr =>
    have htrim : trimSpace (l ++ (s ++ m ++ '-' :: (m' ++ t)) ++ r) =
        s ++ m ++ '-' :: (m' ++ t) := by
      refine trimSpace_append hl hr (by simp) ?_ ?_
      · intro c hc
        rw [List.append_assoc, List.head?_append_of_ne_nil _ hs.ne_nil] at hc
        exact (hs.plain (List.mem_of_mem_head? hc)).1
      · intro c hc
        rw [← List.cons_append, ← List.append_assoc,
          List.getLast?_append_of_ne_nil _ ht.ne_nil] at hc
        exact (ht.plain (List.mem_of_getLast? hc)).1
    have hdash : '-' ∉ s ++ m := dash_notMem blank_nil hs hm
    have hfirst : trimSpace (s ++ m) = s := trimSpace_decimal blank_nil hs hm
    have hlast := trimSpace_decimal hm' ht blank_nil
    rw [List.append_nil] at hlast
    rw [show l ++ s ++ m ++ '-' :: (m' ++ t ++ r) = l ++ (s ++ m ++ '-' :: (m' ++ t)) ++ r by simp,
      htrim, parts, cut_append hdash, hfirst, parseUint_eq_some_iff.mpr ⟨hs, ha⟩]
    simp [hlast, parseUint_eq_some_iff.mpr ⟨ht, hb⟩]

end Parse

theorem parsePortSpec_eq_ok_parts {text : String} {pr : Proto.PortRange} :
    parsePortSpec text = .ok pr ↔
      ∃ a b, parts (trimSpace text.toList) = some (a, b) ∧ a ≠ 0 ∧ a ≤ b ∧
        pr = ⟨UInt32.ofNat a, UInt32.ofNat b⟩ := by
  simp only [parsePortSpec, parts]
  generalize trimSpace text.toList = spec
  cases parseUint 16 (trimSpace (cut '-' spec).1) with
  | none => simp
  | some f =>
    cases (cut '-' spec).2 with
    | none => by_cases hf : f = 0 <;> simp [hf, eq_comm]
    | some last =>
      cases hlast : parseUint 16 (trimSpace last) with
      | none => by_cases hf : f = 0 <;> simp [hf, hlast]
      | some l =>
        by_cases hf : f = 0
        · simp [hf]
        · rcases Nat.lt_or_ge l f with hlt | hle
          · simp [hf, hlast, hlt]
          · simp [hf, hlast, hle, Nat.not_lt.mpr hle, eq_comm]

theorem toNat_ofNat_of_lt {n : ℕ} (h : n < 2 ^ 16) :
    (UInt32.ofNat n).toNat = n ∧ (UInt32.ofNat n).toUInt16.toNat = n := by
  rw [UInt32.toNat_toUInt16, UInt32.toNat_ofNat']
  omega

/-- **`ParsePortSpec` accepts exactly its grammar**: the texts that stand for `a` and `b` with
`1 ≤ a ≤ b ≤ 65535`. The range it returns is that of `a` to `b`, also after the conversion to 16
bits, and port 0 is not in it. -/
theorem parsePortSpec_eq_ok_iff (text : String) (pr : Proto.PortRange) :
    parsePortSpec text = .ok pr ↔
      ∃ a b, PortSpec text.toList a b ∧ 1 ≤ a ∧ a ≤ b ∧ b ≤ 65535 ∧
        pr.first.toNat = a ∧ pr.last.toNat = b ∧
        pr.first.toUInt16.toNat = a ∧ pr.last.toUInt16.toNat = b ∧ ¬ pr.HoldsCut 0 := by
  rw [parsePortSpec_eq_ok_parts]
  refine exists_congr fun a => exists_congr fun b => ?_
  constructor
  · rintro ⟨hparts, ha, hab, rfl⟩
    obtain ⟨hspec, hb⟩ := portSpec_of_parts hparts
    obtain ⟨l, r, hl, hr, htext⟩ := exists_trimSpace text.toList
    obtain ⟨hfirst, hfirst'⟩ := toNat_ofNat_of_lt (lt_of_le_of_lt hab hb)
    obtain ⟨hlast, hlast'⟩ := toNat_ofNat_of_lt hb
    refine ⟨htext ▸ hspec.pad hl hr, by omega, hab, by omega, hfirst, hlast, hfirst', hlast', ?_⟩
    rintro ⟨hzero, -⟩
    rw [UInt16.le_iff_toNat_le, hfirst'] at hzero
    exact ha (Nat.le_zero.mp hzero)
  · rintro ⟨hspec, ha, hab, hb, hfirst, hlast, -⟩
    refine ⟨parts_of_portSpec hspec (by omega) (by omega), by omega, hab, ?_⟩
    obtain ⟨first, last⟩ := pr
    rw [← hfirst, ← hlast, UInt32.ofNat_toNat, UInt32.ofNat_toNat]

example : parsePortSpec " 08000 - 9000\t" = .ok ⟨8000, 9000⟩ := by decide +kernel

end OverMesh
