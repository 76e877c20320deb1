import Mathlib.Data.List.Basic
import Mathlib.Data.List.Find
import Mathlib.Data.List.Infix
import OverMesh.Internal.GoText

/-!
# Strings of the Go standard library, byte by byte

A Go string is a sequence of bytes, and need not be text. This is what matters for the contents of a
file and for what comes in over the network. `strings.Index`, `strings.TrimSpace` and
`strings.Fields` are here on lists of bytes.

The last two look for white space, which is a matter of characters: they decode UTF-8, and take a
byte that is not part of a character for a character of its own. A first byte of a character is
never taken for a later one, so the encoding of a character is decoded as that character wherever it
stands. White space is therefore found by its bytes alone, from either end.

## Main results

* `index_eq_some_iff`, `index_eq_none_iff` — the first place at which a pattern stands
* `apart` — patterns whose first byte occurs nowhere else in them do not overlap
* `trimSpace_eq_self_iff` — nothing is trimmed from a text with no white space at its ends
* `fields_append` — white space separates the fields

`byteVal?` is the value of a hexadecimal digit.
-/

namespace GoBytes

/-! ### Places of a pattern -/

section Index

variable {α : Type*} [DecidableEq α] {pat pat' s : List α} {i j : ℕ}

/-- `strings.Index`, `none` for `-1`. -/
def index (pat : List α) : List α → Option ℕ
  | [] => if pat = [] then some 0 else none
  | c :: cs => if pat <+: c :: cs then some 0 else (index pat cs).map (· + 1)

/-- The pattern stands at this place. -/
def At (pat s : List α) (i : ℕ) : Prop := pat <+: s.drop i

omit [DecidableEq α] in
theorem At.split (h : At pat s i) : s = s.take i ++ pat ++ s.drop (i + pat.length) := by
  obtain ⟨t, ht⟩ := h
  have hdrop : s.drop (i + pat.length) = t := by
    rw [← List.drop_drop, ← ht, List.drop_left]
  rw [hdrop, List.append_assoc, ht, List.take_append_drop]

omit [DecidableEq α] in
theorem at_append (p pat r : List α) : At pat (p ++ pat ++ r) p.length := by
  rw [At, List.append_assoc, List.drop_left]
  exact List.prefix_append pat r

omit [DecidableEq α] in
/-- A pattern that stands before another place stands in the text before it. -/
theorem At.infix_take (h : At pat s i) (hle : i + pat.length ≤ j) : pat <:+: s.take j := by
  obtain ⟨t, ht⟩ := h
  have hsplit : s = s.take i ++ (pat ++ t) := by rw [ht, List.take_append_drop]
  refine (List.infix_append (s.take i) pat []).trans ?_
  rw [List.append_nil]
  have hlen : (s.take i ++ pat).length ≤ j := by
    rw [List.length_append, List.length_take]
    omega
  refine (List.prefix_take_iff.mpr ⟨?_, hlen⟩).isInfix
  exact ⟨t, by rw [List.append_assoc]; exact hsplit.symm⟩

omit [DecidableEq α] in
theorem At.infix_drop (h : At pat s i) (hle : j ≤ i) : pat <:+: s.drop j := by
  refine h.isInfix.trans ?_
  rw [show i = j + (i - j) by omega, ← List.drop_drop]
  exact (List.drop_suffix _ _).isInfix

omit [DecidableEq α] in
theorem exists_at_iff : (∃ i, At pat s i) ↔ pat <:+: s := by
  constructor
  · rintro ⟨i, h⟩
    exact h.isInfix.trans (List.drop_suffix i s).isInfix
  · rintro ⟨p, r, rfl⟩
    exact ⟨p.length, at_append p pat r⟩

omit [DecidableEq α] in
/-- There is no place before the front. -/
theorem front_iff (h : At pat s 0) : some 0 = some i ↔ At pat s i ∧ ∀ j < i, ¬ At pat s j := by
  rw [Option.some.injEq]
  constructor
  · rintro rfl
    exact ⟨h, fun j hj => absurd hj (Nat.not_lt_zero j)⟩
  · rintro ⟨-, hfirst⟩
    by_contra hi
    exact hfirst 0 (by omega) h

/-- **The first place.** -/
theorem index_eq_some_iff : index pat s = some i ↔ At pat s i ∧ ∀ j < i, ¬ At pat s j := by
  induction s generalizing i with
  | nil =>
    rw [index]
    split_ifs with hpat
    · exact front_iff (hpat ▸ List.nil_prefix)
    · have hat : ¬ At pat [] i := by rwa [At, List.drop_nil, List.prefix_nil]
      simp [hat]
  | cons c cs ih =>
    rw [index]
    split_ifs with hzero
    · exact front_iff hzero
    · rw [Option.map_eq_some_iff]
      constructor
      · rintro ⟨k, hk, rfl⟩
        obtain ⟨hat, hfirst⟩ := ih.mp hk
        refine ⟨hat, fun j hj => ?_⟩
        cases j with
        | zero => exact hzero
        | succ j => exact hfirst j (by omega)
      · rintro ⟨hat, hfirst⟩
        cases i with
        | zero => exact absurd hat hzero
        | succ k => exact ⟨k, ih.mpr ⟨hat, fun j hj => hfirst (j + 1) (by omega)⟩, rfl⟩

theorem index_eq_none_iff : index pat s = none ↔ ¬ pat <:+: s := by
  rw [← exists_at_iff, not_exists, Option.eq_none_iff_forall_ne_some]
  constructor
  · intro hnone i
    induction i using Nat.strong_induction_on with
    | h i ih => exact fun hat => hnone i (index_eq_some_iff.mpr ⟨hat, ih⟩)
  · intro hnone i hi
    exact hnone i (index_eq_some_iff.mp hi).1

theorem exists_index (h : pat <:+: s) : ∃ i, index pat s = some i :=
  Option.ne_none_iff_exists'.mp fun hnone => index_eq_none_iff.mp hnone h

omit [DecidableEq α] in
/-- **Patterns that begin alike do not overlap**, if what they begin with occurs nowhere else in the
one that stands first. -/
theorem apart {x : α} {t t' : List α} (hx : x ∉ t) (hi : At (x :: t) s i) (hj : At (x :: t') s j)
    (hlt : i < j) : i + (x :: t).length ≤ j := by
  by_contra hlong
  obtain ⟨k, rfl⟩ := Nat.exists_eq_add_of_le hlt
  have hk : k < t.length := by
    rw [List.length_cons] at hlong
    omega
  obtain ⟨r, hr⟩ := hi
  obtain ⟨r', hr'⟩ := hj
  have hat : (s.drop i)[k + 1]? = some x := by
    rw [List.getElem?_drop, show i + (k + 1) = i.succ + k + 0 by omega, ← List.getElem?_drop, ← hr']
    rfl
  rw [← hr, List.cons_append, List.getElem?_cons_succ, List.getElem?_append_left hk] at hat
  exact hx (List.mem_of_getElem? hat)

end Index

/-! ### White space -/

/-- The bytes of a text. -/
def bytes (s : String) : List UInt8 := s.toList.flatMap String.utf8EncodeChar

/-- The characters for which `unicode.IsSpace` is true. -/
def spaceRunes : List Char :=
  ['\t', '\n', '\x0b', '\x0c', '\r', ' ', '\u0085', '\u00a0', '\u1680', '\u2000', '\u2001',
    '\u2002', '\u2003', '\u2004', '\u2005', '\u2006', '\u2007', '\u2008', '\u2009', '\u200a',
    '\u2028', '\u2029', '\u202f', '\u205f', '\u3000']

/-- The bytes of white space. -/
def spaces : List (List UInt8) := spaceRunes.map String.utf8EncodeChar

/-- The length of the white space at the front, `0` if there is none. -/
def spaceLen (s : List UInt8) : ℕ :=
  ((spaces.find? fun sp => sp <+: s).map List.length).getD 0

/-- The length of the white space at the end, `0` if there is none. -/
def spaceLenEnd (s : List UInt8) : ℕ :=
  ((spaces.find? fun sp => sp <:+ s).map List.length).getD 0

/-- `strings.TrimSpace`: one character after the other is taken from the front, and then from the
end. -/
def trimSpace (s : List UInt8) : List UInt8 :=
  let l := (fun s => s.drop (spaceLen s))^[s.length] s
  (fun s => s.take (s.length - spaceLenEnd s))^[l.length] l

/-- The pieces between white space, `skip` bytes of which are still to be left out. -/
def pieces : ℕ → List UInt8 → List (List UInt8)
  | _, [] => [[]]
  | skip + 1, _ :: s => pieces skip s
  | 0, c :: s =>
    if spaceLen (c :: s) = 0 then (pieces 0 s).modifyHead (c :: ·)
    else [] :: pieces (spaceLen (c :: s) - 1) s

/-- `strings.Fields`. -/
def fields (s : List UInt8) : List (List UInt8) := (pieces 0 s).filter (· ≠ [])

/-- A byte below 128 is a character of its own. -/
theorem toNat_of_mem_utf8EncodeChar {c : Char} {b : UInt8} (h : b ∈ String.utf8EncodeChar c)
    (hb : b.toNat < 128) : c.toNat = b.toNat := by
  have hbyte : ∀ n : ℕ, n < 256 → b = UInt8.ofNat n → b.toNat = n := by
    rintro n hn rfl
    rw [UInt8.toNat_ofNat', Nat.mod_eq_of_lt hn]
  have hhigh : ∀ n : ℕ, 128 ≤ n → n < 256 → b ≠ UInt8.ofNat n := by
    intro n hn hlt heq
    have := hbyte n hlt heq
    omega
  delta String.utf8EncodeChar at h
  simp only at h
  split_ifs at h with h1 h2 h3
  · exact (hbyte _ (by omega) (List.mem_singleton.mp h)).symm
  all_goals simp only [List.mem_cons, List.not_mem_nil, or_false] at h
  · rcases h with h | h <;> exact (hhigh _ (by omega) (by omega) h).elim
  · rcases h with h | h | h <;> exact (hhigh _ (by omega) (by omega) h).elim
  · rcases h with h | h | h | h <;> exact (hhigh _ (by omega) (by omega) h).elim

theorem mem_of_mem_bytes {s : String} {c : Char} {b : UInt8} (h : b ∈ bytes s)
    (hc : c.toNat = b.toNat) (hb : b.toNat < 128) : c ∈ s.toList := by
  obtain ⟨d, hd, hbd⟩ := List.mem_flatMap.mp h
  have heq : d.toNat = c.toNat := (toNat_of_mem_utf8EncodeChar hbd hb).trans hc.symm
  rwa [← Char.ofNat_toNat d, heq, Char.ofNat_toNat] at hd

/-- A text is determined by its bytes. -/
theorem bytes_injective : Function.Injective bytes := by
  intro s t h
  rw [← String.toByteArray_inj, ← String.utf8Encode_toList, ← String.utf8Encode_toList]
  exact congrArg List.toByteArray h

theorem utf8EncodeChar_of_lt {c : Char} (h : c.toNat < 128) :
    String.utf8EncodeChar c = [UInt8.ofNat c.toNat] := by
  delta String.utf8EncodeChar
  exact if_pos (by rw [Char.toNat] at h; omega)

/-- A text of ASCII characters has a byte for each of them. -/
theorem bytes_of_ascii {s : String} (h : ∀ c ∈ s.toList, c.toNat < 128) :
    bytes s = s.toList.map fun c => UInt8.ofNat c.toNat := by
  rw [bytes, List.map_eq_flatMap]
  exact List.flatMap_congr fun c hc => utf8EncodeChar_of_lt (h c hc)

/-- A text whose characters are found to be ASCII one by one. -/
theorem ascii_of_all {s : String} (h : s.toList.all (fun c => c.toNat < 128) = true) (c : Char)
    (hc : c ∈ s.toList) : c.toNat < 128 := of_decide_eq_true (List.all_eq_true.mp h c hc)

/-- If the bytes are ASCII, the characters are. -/
theorem ascii_of_bytes {s : String} (h : ∀ b ∈ bytes s, b.toNat < 128) {c : Char}
    (hc : c ∈ s.toList) : c.toNat < 128 := by
  obtain ⟨b, hb⟩ := List.exists_mem_of_ne_nil _ (String.utf8EncodeChar_ne_nil (c := c))
  have hlt := h b (List.mem_flatMap.mpr ⟨c, hc, hb⟩)
  rw [toNat_of_mem_utf8EncodeChar hb hlt]
  exact hlt

/-- ASCII characters are given back by their bytes. -/
theorem map_ofNat_of_ascii {cs : List Char} (h : ∀ c ∈ cs, c.toNat < 128) :
    (cs.map fun c => UInt8.ofNat c.toNat).map (fun b => Char.ofNat b.toNat) = cs := by
  rw [List.map_map]
  refine (List.map_congr_left fun c hc => ?_).trans (List.map_id cs)
  have hlt := h c hc
  show Char.ofNat (UInt8.ofNat c.toNat).toNat = c
  rw [UInt8.toNat_ofNat', Nat.mod_eq_of_lt (by omega), Char.ofNat_toNat]

/-- The bytes, each as the character with its number. -/
def chars (b : List UInt8) : List Char := b.map fun x => Char.ofNat x.toNat

theorem chars_bytes {s : String} (h : ∀ c ∈ s.toList, c.toNat < 128) :
    chars (bytes s) = s.toList := by
  rw [bytes_of_ascii h]
  exact map_ofNat_of_ascii h

/-! ### Hexadecimal digits -/

/-- The byte is a hexadecimal digit of either case. -/
def IsHexDigit (b : UInt8) : Prop := 48 ≤ b ∧ b ≤ 57 ∨ 97 ≤ b ∧ b ≤ 102 ∨ 65 ≤ b ∧ b ≤ 70

theorem IsHexDigit.lt {b : UInt8} (h : IsHexDigit b) : b.toNat < 128 := by
  rw [IsHexDigit, UInt8.le_iff_toNat_le, UInt8.le_iff_toNat_le, UInt8.le_iff_toNat_le,
    UInt8.le_iff_toNat_le, UInt8.le_iff_toNat_le, UInt8.le_iff_toNat_le] at h
  have h57 : (57 : UInt8).toNat = 57 := rfl
  have h102 : (102 : UInt8).toNat = 102 := rfl
  have h70 : (70 : UInt8).toNat = 70 := rfl
  omega

/-- The value of a hexadecimal digit. -/
def byteVal? (b : UInt8) : Option ℕ :=
  if 48 ≤ b ∧ b ≤ 57 then some (b.toNat - 48)
  else if 97 ≤ b ∧ b ≤ 102 then some (b.toNat - 97 + 10)
  else if 65 ≤ b ∧ b ≤ 70 then some (b.toNat - 65 + 10)
  else none

theorem byteVal?_isSome_iff {b : UInt8} : (byteVal? b).isSome ↔ IsHexDigit b := by
  rw [byteVal?, IsHexDigit]
  split_ifs with h1 h2 h3
  · simp [h1]
  · simp [h2]
  · simp [h3]
  · simp [h1, h2, h3]

/-! ### Trimming and fields -/

section Space

variable {s t w : List UInt8}

theorem length_of_mem_spaces {sp : List UInt8} (h : sp ∈ spaces) : 0 < sp.length := by
  have hall : ∀ sp ∈ spaces, 0 < sp.length := by decide
  exact hall sp h

theorem find_length_eq_zero_iff {p : List UInt8 → Bool} :
    ((spaces.find? p).map List.length).getD 0 = 0 ↔ ∀ sp ∈ spaces, p sp = false := by
  cases hfind : spaces.find? p with
  | none =>
    simp only [Option.map_none, Option.getD_none, true_iff]
    simpa using List.find?_eq_none.mp hfind
  | some sp =>
    have hmem := List.mem_of_find?_eq_some hfind
    have hp := List.find?_some hfind
    have hpos := length_of_mem_spaces hmem
    simp only [Option.map_some, Option.getD_some]
    constructor
    · omega
    · intro hall
      rw [hall sp hmem] at hp
      cases hp

theorem spaceLen_eq_zero_iff : spaceLen s = 0 ↔ ∀ sp ∈ spaces, ¬ sp <+: s := by
  rw [spaceLen, find_length_eq_zero_iff]
  simp only [decide_eq_false_iff_not]

theorem spaceLenEnd_eq_zero_iff : spaceLenEnd s = 0 ↔ ∀ sp ∈ spaces, ¬ sp <:+ s := by
  rw [spaceLenEnd, find_length_eq_zero_iff]
  simp only [decide_eq_false_iff_not]

theorem spaceLen_le (s : List UInt8) : spaceLen s ≤ s.length := by
  rw [spaceLen]
  cases hfind : spaces.find? fun sp => sp <+: s with
  | none => exact Nat.zero_le _
  | some sp =>
    have hp := List.find?_some hfind
    rw [decide_eq_true_iff] at hp
    exact hp.length_le

/-- What is repeated and never makes a text longer makes it shorter if it does so once. -/
theorem length_iterate_le {f : List UInt8 → List UInt8} (hf : ∀ s, (f s).length ≤ s.length) (n : ℕ)
    (s : List UInt8) : (f^[n] s).length ≤ s.length := by
  induction n generalizing s with
  | zero => exact le_refl _
  | succ n ih => exact (ih (f s)).trans (hf s)

theorem length_iterate_lt {f : List UInt8 → List UInt8} (hf : ∀ s, (f s).length ≤ s.length) {n : ℕ}
    (hn : n ≠ 0) (h : (f s).length < s.length) : (f^[n] s).length < s.length := by
  obtain ⟨n, rfl⟩ := Nat.exists_eq_succ_of_ne_zero hn
  exact (length_iterate_le hf n (f s)).trans_lt h

/-- What is trimmed adds nothing. -/
theorem mem_of_mem_trimSpace {b : UInt8} (h : b ∈ trimSpace s) : b ∈ s := by
  have hiter : ∀ (f : List UInt8 → List UInt8), (∀ s, f s ⊆ s) → ∀ n s, f^[n] s ⊆ s := by
    intro f hf n
    induction n with
    | zero => exact fun s => List.Subset.refl s
    | succ n ih => exact fun s => List.Subset.trans (ih (f s)) (hf s)
  have hright := hiter (fun s => s.take (s.length - spaceLenEnd s)) fun s => List.take_subset _ _
  have hleft := hiter (fun s => s.drop (spaceLen s)) fun s => List.drop_subset _ _
  exact hleft _ _ (hright _ _ h)

/-- **Nothing is trimmed from a text without white space at its ends**, and from no other. -/
theorem trimSpace_eq_self_iff : trimSpace s = s ↔ ∀ sp ∈ spaces, ¬ sp <+: s ∧ ¬ sp <:+ s := by
  have hleft : ∀ s : List UInt8, (s.drop (spaceLen s)).length ≤ s.length := fun s => by simp
  have hright : ∀ s : List UInt8, (s.take (s.length - spaceLenEnd s)).length ≤ s.length :=
    fun s => by simp
  rw [trimSpace]
  constructor
  · intro heq sp hsp
    have hlen := congrArg List.length heq
    have hfront : spaceLen s = 0 := by
      by_contra hne
      have hlong := spaceLen_le s
      have hshort : (s.drop (spaceLen s)).length < s.length := by
        rw [List.length_drop]
        omega
      have hlt := length_iterate_lt hleft (by omega : s.length ≠ 0) hshort
      exact absurd hlen ((length_iterate_le hright _ _).trans_lt hlt).ne
    have hl : (fun s => s.drop (spaceLen s))^[s.length] s = s :=
      Function.iterate_fixed (by simp [hfront]) _
    refine ⟨spaceLen_eq_zero_iff.mp hfront sp hsp, fun hsuf => ?_⟩
    have hne : spaceLenEnd s ≠ 0 := fun h => spaceLenEnd_eq_zero_iff.mp h sp hsp hsuf
    have hlong := (length_of_mem_spaces hsp).trans_le hsuf.length_le
    have hshort : (s.take (s.length - spaceLenEnd s)).length < s.length := by
      rw [List.length_take]
      omega
    have hlt := length_iterate_lt hright (by omega : s.length ≠ 0) hshort
    simp only [hl] at hlen
    exact absurd hlen hlt.ne
  · intro hclear
    have hzero : spaceLen s = 0 := spaceLen_eq_zero_iff.mpr fun sp hsp => (hclear sp hsp).1
    have hzeroEnd : spaceLenEnd s = 0 := spaceLenEnd_eq_zero_iff.mpr fun sp hsp => (hclear sp hsp).2
    have hl : (fun s => s.drop (spaceLen s))^[s.length] s = s :=
      Function.iterate_fixed (by simp [hzero]) _
    simp only [hl]
    exact Function.iterate_fixed (by simp [hzeroEnd]) _

/-- White space of a single byte. -/
def Blank (x : UInt8) : Prop := x ∈ [9, 10, 11, 12, 13, 32]

instance (x : UInt8) : Decidable (Blank x) := inferInstanceAs (Decidable (x ∈ _))

theorem spaceLen_blank {x : UInt8} (hx : Blank x) (t : List UInt8) : spaceLen (x :: t) = 1 := by
  simp only [Blank, List.mem_cons, List.not_mem_nil, or_false] at hx
  rcases hx with rfl | rfl | rfl | rfl | rfl | rfl <;> rfl

/-- White space of a single byte ends whatever is before it. -/
theorem spaceLen_append_blank {x : UInt8} (hx : Blank x) (hs : s ≠ []) (t : List UInt8) :
    spaceLen (s ++ x :: t) = spaceLen s := by
  have hinner : ∀ sp ∈ spaces, ∀ y ∈ sp.tail, ¬ Blank y := by
    decide +kernel
  have hsame : ∀ sp ∈ spaces, decide (sp <+: s ++ x :: t) = decide (sp <+: s) := by
    intro sp hsp
    rw [decide_eq_decide]
    refine ⟨fun hpre => ?_, fun hpre => hpre.trans (List.prefix_append _ _)⟩
    rcases List.prefix_or_prefix_of_prefix hpre (List.prefix_append s (x :: t)) with h | ⟨r, rfl⟩
    · exact h
    · -- the blank would be among the later bytes of the white space
      rw [List.prefix_append_right_inj] at hpre
      cases r with
      | nil => rw [List.append_nil]
      | cons c r =>
        obtain ⟨rfl, -⟩ := List.cons_prefix_cons.mp hpre
        refine absurd hx (hinner _ hsp c ?_)
        obtain ⟨d, s, rfl⟩ := List.exists_cons_of_ne_nil hs
        simp
  rw [spaceLen, spaceLen]
  congr 2
  exact List.find?_congr hsame

/-- White space of a single byte at the end is trimmed. -/
theorem trimSpace_append_blank {x : UInt8} (hx : Blank x) (hs : s ≠ [])
    (h : ∀ sp ∈ spaces, ¬ sp <+: s ∧ ¬ sp <:+ s) : trimSpace (s ++ [x]) = s := by
  have hfront : spaceLen (s ++ [x]) = 0 := by
    rw [spaceLen_append_blank hx hs]
    exact spaceLen_eq_zero_iff.mpr fun sp hsp => (h sp hsp).1
  have hend : spaceLenEnd (s ++ [x]) = 1 := by
    have hlast : ∀ sp ∈ spaces, ∀ y ∈ sp.getLast?, Blank y → sp.length = 1 := by
      decide +kernel
    have hblank : ∀ y : UInt8, Blank y → [y] ∈ spaces := fun y hy => by
      simp only [Blank, List.mem_cons, List.not_mem_nil, or_false] at hy
      rcases hy with rfl | rfl | rfl | rfl | rfl | rfl <;> decide
    rw [spaceLenEnd]
    cases hfind : spaces.find? fun sp => sp <:+ s ++ [x] with
    | none =>
      have hnone := List.find?_eq_none.mp hfind [x] (hblank x hx)
      rw [decide_eq_true_iff] at hnone
      exact absurd (List.suffix_append s [x]) hnone
    | some sp =>
      have hsp := List.mem_of_find?_eq_some hfind
      have hsuf := List.find?_some hfind
      rw [decide_eq_true_iff] at hsuf
      obtain ⟨r, hr⟩ := hsuf
      have hx' := congrArg List.getLast? hr
      rw [List.getLast?_append_of_ne_nil _ (List.length_pos_iff.mp (length_of_mem_spaces hsp)),
        List.getLast?_append_of_ne_nil _ (List.cons_ne_nil x []), List.getLast?_singleton] at hx'
      exact hlast sp hsp x hx' hx
  have hclear : spaceLenEnd s = 0 := spaceLenEnd_eq_zero_iff.mpr fun sp hsp => (h sp hsp).2
  have hl : (fun s => s.drop (spaceLen s))^[(s ++ [x]).length] (s ++ [x]) = s ++ [x] :=
    Function.iterate_fixed (by simp [hfront]) _
  have hone : (s ++ [x]).take ((s ++ [x]).length - spaceLenEnd (s ++ [x])) = s := by
    rw [hend, List.length_append, List.length_singleton, Nat.add_sub_cancel, List.take_left]
  rw [trimSpace]
  simp only [hl]
  rw [List.length_append, List.length_singleton, Function.iterate_succ_apply, hone]
  exact Function.iterate_fixed (by simp [hclear]) _

theorem pieces_ne_nil (skip : ℕ) (s : List UInt8) : pieces skip s ≠ [] := by
  induction s generalizing skip with
  | nil => simp [pieces]
  | cons c s ih =>
    cases skip with
    | succ skip => exact ih skip
    | zero =>
      rw [pieces]
      split_ifs
      · cases h : pieces 0 s with
        | nil => exact absurd h (ih 0)
        | cons w ws => simp
      · simp

theorem pieces_append_blank {x : UInt8} (hx : Blank x) {skip : ℕ} (hskip : skip ≤ s.length)
    (t : List UInt8) : pieces skip (s ++ x :: t) = pieces skip s ++ pieces 0 t := by
  induction s generalizing skip with
  | nil =>
    obtain rfl : skip = 0 := Nat.le_zero.mp hskip
    have hpieces : pieces 0 (x :: t) = [] :: pieces 0 t := by
      rw [pieces, spaceLen_blank hx, if_neg Nat.one_ne_zero]
    exact hpieces
  | cons c s ih =>
    cases skip with
    | succ skip => exact ih (by simpa using hskip)
    | zero =>
      have hlen := spaceLen_append_blank hx (List.cons_ne_nil c s) t
      rw [List.cons_append] at hlen
      rw [List.cons_append, pieces, pieces, hlen]
      split_ifs
      · rw [ih (Nat.zero_le _)]
        cases h : pieces 0 s with
        | nil => exact absurd h (pieces_ne_nil 0 s)
        | cons w ws => simp
      · have hle := spaceLen_le (c :: s)
        rw [List.length_cons] at hle
        rw [ih (by omega), List.cons_append]

/-- **White space separates the fields.** -/
theorem fields_append {x : UInt8} (hx : Blank x) (s t : List UInt8) :
    fields (s ++ x :: t) = fields s ++ fields t := by
  rw [fields, pieces_append_blank hx (Nat.zero_le _), List.filter_append]
  rfl

/-- The first piece is at the front, and in no piece there is white space. -/
theorem pieces_clear (skip : ℕ) (s : List UInt8) :
    (skip = 0 → ∀ w ∈ (pieces skip s).head?, w <+: s) ∧
      ∀ w ∈ pieces skip s, pieces 0 w = [w] := by
  induction s generalizing skip with
  | nil => simp [pieces]
  | cons c s ih =>
    cases skip with
    | succ skip => exact ⟨fun h => absurd h (Nat.succ_ne_zero skip), (ih skip).2⟩
    | zero =>
      rw [pieces]
      split_ifs with hspace
      · obtain ⟨hhead, hclear⟩ := ih 0
        cases h : pieces 0 s with
        | nil => exact absurd h (pieces_ne_nil 0 s)
        | cons w ws =>
          rw [h] at hhead hclear
          have hw : w <+: s := hhead rfl w rfl
          have hspace' : spaceLen (c :: w) = 0 := by
            rw [spaceLen_eq_zero_iff] at hspace ⊢
            exact fun sp hsp hpre =>
              hspace sp hsp (hpre.trans (List.cons_prefix_cons.mpr ⟨rfl, hw⟩))
          simp only [List.modifyHead_cons, List.head?_cons, Option.mem_some_iff, List.mem_cons]
          constructor
          · rintro - _ rfl
            exact List.cons_prefix_cons.mpr ⟨rfl, hw⟩
          · rintro v (rfl | hv)
            · rw [pieces, if_pos hspace', hclear w List.mem_cons_self]
              rfl
            · exact hclear v (List.mem_cons_of_mem w hv)
      · refine ⟨fun _ w hw => ?_, ?_⟩
        · rw [List.head?_cons, Option.mem_some_iff] at hw
          exact hw ▸ List.nil_prefix
        · rintro v (_ | ⟨_, hv⟩)
          · rfl
          · exact (ih _).2 v hv

/-- **A field is a single word.** -/
theorem fields_of_mem (h : w ∈ fields s) : fields w = [w] := by
  rw [fields, List.mem_filter, decide_eq_true_iff] at h
  rw [fields, (pieces_clear 0 s).2 w h.1]
  simp [h.2]

/-- There is no white space anywhere in a single piece. -/
theorem not_infix_of_pieces (h : pieces 0 w = [w]) {sp : List UInt8} (hsp : sp ∈ spaces) :
    ¬ sp <:+: w := by
  induction w with
  | nil =>
    intro hin
    have hpos := length_of_mem_spaces hsp
    rw [List.infix_nil.mp hin] at hpos
    exact absurd hpos (Nat.lt_irrefl 0)
  | cons c w ih =>
    rw [pieces] at h
    split_ifs at h with hspace
    · have hrest : pieces 0 w = [w] := by
        cases hw : pieces 0 w with
        | nil => exact absurd hw (pieces_ne_nil 0 w)
        | cons v vs =>
          rw [hw, List.modifyHead_cons, List.cons.injEq, List.cons.injEq] at h
          rw [h.1.2, h.2]
      rw [List.infix_cons_iff, not_or]
      exact ⟨spaceLen_eq_zero_iff.mp hspace sp hsp, ih hrest⟩
    · cases (List.cons.inj h).1

theorem not_infix_of_fields (h : fields w = [w]) {sp : List UInt8} (hsp : sp ∈ spaces) :
    ¬ sp <:+: w := by
  have hmem : w ∈ fields w := by
    rw [h]
    exact List.mem_singleton_self w
  exact not_infix_of_pieces ((pieces_clear 0 w).2 w (List.mem_filter.mp hmem).1) hsp

/-- There is no white space in a field. -/
theorem not_mem_of_mem_fields {x : UInt8} (hx : Blank x) (h : w ∈ fields s) : x ∉ w := by
  intro hmem
  have hone := (pieces_clear 0 s).2 w (List.mem_filter.mp h).1
  obtain ⟨u, v, rfl⟩ := List.append_of_mem hmem
  have hlen := congrArg List.length hone
  have hu := List.length_pos_iff.mpr (pieces_ne_nil 0 u)
  have hv := List.length_pos_iff.mpr (pieces_ne_nil 0 v)
  rw [pieces_append_blank hx (Nat.zero_le _), List.length_append, List.length_singleton] at hlen
  omega

end Space

end GoBytes
