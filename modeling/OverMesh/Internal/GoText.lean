import Mathlib.Data.List.Basic
import Mathlib.Data.List.TakeWhile
import Mathlib.Data.Nat.Digits.Defs
import Mathlib.Data.String.Basic
import Mathlib.Tactic.IntervalCases

/-!
# Text functions of the Go standard library

`strings.TrimSpace`, `strings.TrimSuffix`, `strings.Cut`, `strings.ToLower`, `strconv.ParseUint`,
`strconv.ParseInt` and `encoding/hex`, on lists of characters. Text is valid UTF-8 wherever these
are used, so a string is its characters.

Digits are printed by `decDigit` and `hexDigit` and read by `decVal?` and `hexVal?`. Nothing else
in a development has to look inside a character: the two `_digit` lemmas are the interface.

`Blank` and `Decimal` say which texts are white space and decimal numbers. `trimSpace` and
`parseUint` are characterised by them.
-/

namespace GoText

/-! ### White space and case -/

/-- `unicode.IsSpace`. -/
def isSpace (c : Char) : Bool :=
  c ∈ ['\t', '\n', '\x0b', '\x0c', '\r', ' ', '\u0085', '\u00a0', '\u1680', '\u2028', '\u2029',
    '\u202f', '\u205f', '\u3000'] || ('\u2000' ≤ c && c ≤ '\u200a')

/-- `strings.TrimSpace`. -/
def trimSpace (s : List Char) : List Char :=
  ((s.dropWhile isSpace).reverse.dropWhile isSpace).reverse

/-- `unicode.ToLower` as far as an ASCII class can tell: the letters `A` to `Z` and the two
characters outside ASCII whose lower case is an ASCII letter, the dotted capital I and the Kelvin
sign. Every other character stays where it is, outside ASCII if it was outside. -/
def toLower (c : Char) : Char :=
  if c = '\u0130' then 'i' else if c = '\u212a' then 'k' else c.toLower

/-- `strings.Cut` at the first `sep`: what stands before it, and what stands after it if there is
one. -/
def cut (sep : Char) : List Char → List Char × Option (List Char)
  | [] => ([], none)
  | c :: cs => if c = sep then ([], some cs) else ((c :: (cut sep cs).1), (cut sep cs).2)

/-- `strings.TrimSuffix`. -/
def trimSuffix (s suffix : List Char) : List Char :=
  if suffix <:+ s then s.take (s.length - suffix.length) else s

@[simp] theorem trimSuffix_append (s suffix : List Char) : trimSuffix (s ++ suffix) suffix = s := by
  rw [trimSuffix, if_pos (List.suffix_append s suffix), List.length_append, Nat.add_sub_cancel,
    List.take_left]

/-- A letter is not a dot in either case. -/
theorem toLower_eq_dot_iff {c : Char} : toLower c = '.' ↔ c = '.' := by
  constructor
  · intro h
    rw [toLower] at h
    split_ifs at h with hI hK
    · cases h
    · cases h
    · delta Char.toLower at h
      split_ifs at h with hupper
      · have hval : (c.val + 32).toNat = 46 := congrArg (fun d : Char => d.val.toNat) h
        have hlow : 65 ≤ c.val.toNat := UInt32.le_iff_toNat_le.mp hupper.1
        have hhigh : c.val.toNat ≤ 90 := UInt32.le_iff_toNat_le.mp hupper.2
        rw [UInt32.toNat_add, show (32 : UInt32).toNat = 32 from rfl] at hval
        omega
      · exact h
  · rintro rfl
    rfl

/-! ### Cutting -/

theorem cut_of_not_mem {sep : Char} {s : List Char} (h : sep ∉ s) : cut sep s = (s, none) := by
  induction s with
  | nil => rfl
  | cons c cs ih =>
    rw [List.mem_cons, not_or] at h
    rw [cut, if_neg (Ne.symm h.1), ih h.2]

theorem cut_append {sep : Char} {xs : List Char} (h : sep ∉ xs) (ys : List Char) :
    cut sep (xs ++ sep :: ys) = (xs, some ys) := by
  induction xs with
  | nil => simp [cut]
  | cons x xs ih =>
    rw [List.mem_cons, not_or] at h
    rw [List.cons_append, cut, if_neg (Ne.symm h.1), ih h.2]

/-- The two parts make up the text. -/
theorem eq_of_cut (sep : Char) (s : List Char) :
    s = (cut sep s).1 ++ ((cut sep s).2.map (sep :: ·)).getD [] := by
  induction s with
  | nil => rfl
  | cons c cs ih =>
    rw [cut]
    split_ifs with hc
    · rw [hc]
      rfl
    · exact congrArg (c :: ·) ih

/-! ### Trimming -/

/-- A run of white space. -/
def Blank (s : List Char) : Prop := ∀ c ∈ s, isSpace c = true

theorem Blank.append {s t : List Char} (hs : Blank s) (ht : Blank t) : Blank (s ++ t) := by
  intro c hc
  exact (List.mem_append.mp hc).elim (hs c) (ht c)

theorem blank_takeWhile (s : List Char) : Blank (s.takeWhile isSpace) :=
  fun _ hc => List.mem_takeWhile_imp hc

/-- What is trimmed is white space. -/
theorem exists_trimSpace (s : List Char) :
    ∃ l r, Blank l ∧ Blank r ∧ s = l ++ trimSpace s ++ r := by
  refine ⟨s.takeWhile isSpace, ((s.dropWhile isSpace).reverse.takeWhile isSpace).reverse,
    blank_takeWhile s, fun c hc => blank_takeWhile _ c (List.mem_reverse.mp hc), ?_⟩
  have hright : s.dropWhile isSpace =
      trimSpace s ++ ((s.dropWhile isSpace).reverse.takeWhile isSpace).reverse := by
    rw [trimSpace, ← List.reverse_append, List.takeWhile_append_dropWhile, List.reverse_reverse]
  rw [List.append_assoc, ← hright, List.takeWhile_append_dropWhile]

/-- White space around a text whose ends are not white space is what is trimmed. -/
theorem trimSpace_append {l s r : List Char} (hl : Blank l) (hr : Blank r) (hs : s ≠ [])
    (hhead : ∀ c ∈ s.head?, isSpace c = false) (hlast : ∀ c ∈ s.getLast?, isSpace c = false) :
    trimSpace (l ++ s ++ r) = s := by
  have hdrop : ∀ t u : List Char, t ≠ [] → (∀ c ∈ t.head?, isSpace c = false) →
      (t ++ u).dropWhile isSpace = t ++ u := by
    intro t u ht hc
    cases t with
    | nil => exact absurd rfl ht
    | cons c cs => rw [List.cons_append, List.dropWhile_cons_of_neg (by simp [hc c rfl])]
  have hfront : (l ++ s ++ r).dropWhile isSpace = s ++ r := by
    rw [List.append_assoc, List.dropWhile_append_of_pos hl, hdrop s r hs hhead]
  have hback : (s ++ r).reverse.dropWhile isSpace = s.reverse := by
    rw [List.reverse_append, List.dropWhile_append_of_pos fun c hc => hr c (List.mem_reverse.mp hc),
      ← List.append_nil s.reverse,
      hdrop s.reverse [] (by simpa using hs) (by rwa [List.head?_reverse])]
  rw [trimSpace, hfront, hback, List.reverse_reverse]

/-! ### Decimal -/

/-- The value of a decimal digit. -/
def decVal? (c : Char) : Option ℕ :=
  if '0' ≤ c ∧ c ≤ '9' then some (c.toNat - '0'.toNat) else none

/-- The decimal digit of a value below ten. -/
def decDigit (d : ℕ) : Char := Char.ofNat ('0'.toNat + d)

theorem decVal?_decDigit {d : ℕ} (h : d < 10) : decVal? (decDigit d) = some d := by
  interval_cases d <;> decide

theorem lt_of_decVal? {c : Char} {d : ℕ} (h : decVal? c = some d) : d < 10 ∧ c = decDigit d := by
  rw [decVal?, Option.ite_none_right_eq_some] at h
  obtain ⟨⟨hlo, hhi⟩, hd⟩ := h
  have hlo : 48 ≤ c.toNat := hlo
  have hhi : c.toNat ≤ 57 := hhi
  have hd : c.toNat - 48 = d := Option.some.inj hd
  refine ⟨by omega, ?_⟩
  rw [decDigit, show '0'.toNat + d = c.toNat by
    change 48 + d = c.toNat
    omega, Char.ofNat_toNat]

/-- The number a run of digits denotes, `none` at the first other character. -/
def digitsVal? : ℕ → List Char → Option ℕ
  | acc, [] => some acc
  | acc, c :: cs => (decVal? c).bind fun d => digitsVal? (acc * 10 + d) cs

/-- `strconv.ParseUint(s, 10, w)`: digits only, at least one, and within `w` bits. -/
def parseUint (w : ℕ) (s : List Char) : Option ℕ :=
  if s = [] then none
  else (digitsVal? 0 s).bind fun n => if n < 2 ^ w then some n else none

theorem parseUint_lt {w : ℕ} {s : List Char} {n : ℕ} (h : parseUint w s = some n) : n < 2 ^ w := by
  simp only [parseUint, Option.ite_none_left_eq_some, Option.bind_eq_some_iff,
    Option.ite_none_right_eq_some, Option.some.injEq] at h
  obtain ⟨-, m, -, hm, rfl⟩ := h
  exact hm

/-- `strconv.ParseInt(s, 10, w)`: an optional sign, and within `w` bits. -/
def parseInt (w : ℕ) (s : List Char) : Option ℤ :=
  match s with
  | '-' :: ds => (parseUint w ds).bind fun n => if n ≤ 2 ^ (w - 1) then some (-n) else none
  | '+' :: ds => (parseUint w ds).bind fun n => if n < 2 ^ (w - 1) then some n else none
  | ds => (parseUint w ds).bind fun n => if n < 2 ^ (w - 1) then some n else none

/-- A number in decimal. -/
def decString (n : ℕ) : List Char :=
  if n = 0 then ['0'] else (Nat.digits 10 n).reverse.map decDigit

theorem decString_inj {m n : ℕ} (hm : m ≠ 0) (hn : n ≠ 0) (h : decString m = decString n) :
    m = n := by
  rw [decString, decString, if_neg hm, if_neg hn] at h
  have hread : ∀ k : ℕ, ((Nat.digits 10 k).reverse.map decDigit).map decVal? =
      (Nat.digits 10 k).reverse.map some := fun k => by
    rw [List.map_map]
    refine List.map_congr_left fun d hd => decVal?_decDigit ?_
    exact Nat.digits_lt_base (by decide) (List.mem_reverse.mp hd)
  have hdigits : (Nat.digits 10 m).reverse.map some = (Nat.digits 10 n).reverse.map some := by
    rw [← hread, ← hread, h]
  have := List.map_injective_iff.mpr (Option.some_injective ℕ) hdigits
  exact Nat.digits.injective 10 (List.reverse_injective this)

theorem digitsVal?_map_decDigit {ds : List ℕ} (h : ∀ d ∈ ds, d < 10) (acc : ℕ) :
    digitsVal? acc (ds.map decDigit) = some (ds.foldl (fun a d => a * 10 + d) acc) := by
  induction ds generalizing acc with
  | nil => rfl
  | cons d ds ih =>
    rw [List.map_cons, digitsVal?, decVal?_decDigit (h d List.mem_cons_self), Option.bind_some,
      ih fun d' hd' => h d' (List.mem_cons_of_mem _ hd')]
    rfl

theorem digitsVal?_eq_some_iff {acc n : ℕ} {s : List Char} : digitsVal? acc s = some n ↔
    ∃ ds : List ℕ, (∀ d ∈ ds, d < 10) ∧ s = ds.map decDigit ∧
      n = ds.foldl (fun a d => a * 10 + d) acc := by
  constructor
  · intro h
    induction s generalizing acc with
    | nil => exact ⟨[], by simp, rfl, (Option.some.inj h).symm⟩
    | cons c cs ih =>
      rw [digitsVal?, Option.bind_eq_some_iff] at h
      obtain ⟨d, hd, h⟩ := h
      obtain ⟨hlt, rfl⟩ := lt_of_decVal? hd
      obtain ⟨ds, hds, rfl, rfl⟩ := ih h
      refine ⟨d :: ds, ?_, rfl, rfl⟩
      rintro e (_ | ⟨_, he⟩)
      · exact hlt
      · exact hds e he
  · rintro ⟨ds, hds, rfl, rfl⟩
    exact digitsVal?_map_decDigit hds acc

/-- The text consists of decimal digits, at least one, and its value is `n`. Leading zeros count as
digits. -/
def Decimal (s : List Char) (n : ℕ) : Prop :=
  ∃ ds : List ℕ, ds ≠ [] ∧ (∀ d ∈ ds, d < 10) ∧ s = ds.map decDigit ∧
    n = Nat.ofDigits 10 ds.reverse

theorem ofDigits_reverse (ds : List ℕ) :
    Nat.ofDigits 10 ds.reverse = ds.foldl (fun a d => a * 10 + d) 0 := by
  rw [Nat.ofDigits_eq_foldr, List.foldr_reverse]
  refine List.foldl_ext _ _ _ fun a d _ => ?_
  rw [Nat.cast_id, Nat.add_comm, Nat.mul_comm]

/-- **`ParseUint` reads decimal numbers** that fit, and nothing else. -/
theorem parseUint_eq_some_iff {w n : ℕ} {s : List Char} :
    parseUint w s = some n ↔ Decimal s n ∧ n < 2 ^ w := by
  rw [parseUint, Option.ite_none_left_eq_some, Option.bind_eq_some_iff]
  simp only [Option.ite_none_right_eq_some, Option.some.injEq, digitsVal?_eq_some_iff]
  constructor
  · rintro ⟨hne, m, ⟨ds, hds, rfl, rfl⟩, hlt, rfl⟩
    exact ⟨⟨ds, fun h => hne (h ▸ rfl), hds, rfl, (ofDigits_reverse ds).symm⟩, hlt⟩
  · rintro ⟨⟨ds, hne, hds, rfl, rfl⟩, hlt⟩
    exact ⟨by simpa using hne, _, ⟨ds, hds, rfl, ofDigits_reverse ds⟩, hlt, rfl⟩

theorem Decimal.ne_nil {s : List Char} {n : ℕ} (h : Decimal s n) : s ≠ [] := by
  obtain ⟨ds, hne, -, rfl, -⟩ := h
  simpa using hne

/-- The characters of a decimal number are neither white space nor a sign. -/
theorem Decimal.plain {s : List Char} {n : ℕ} (h : Decimal s n) {c : Char} (hc : c ∈ s) :
    isSpace c = false ∧ c ≠ '-' := by
  have hdigit : ∀ d < 10, isSpace (decDigit d) = false ∧ decDigit d ≠ '-' := by decide
  obtain ⟨ds, -, hds, rfl, -⟩ := h
  obtain ⟨d, hd, rfl⟩ := List.mem_map.mp hc
  exact hdigit d (hds d hd)

/-- A number is read back from its digits. -/
theorem digitsVal?_decString (n : ℕ) : digitsVal? 0 (decString n) = some n := by
  rw [decString]
  split_ifs with h
  · rw [h]
    rfl
  · rw [digitsVal?_map_decDigit fun d hd =>
      Nat.digits_lt_base (by decide) (List.mem_reverse.mp hd), List.foldl_reverse]
    have hfold : (fun (d a : ℕ) => a * 10 + d) = fun d a => d + 10 * a := by
      funext d a
      omega
    rw [hfold]
    exact congrArg some ((Nat.ofDigits_eq_foldr 10 _).symm.trans (Nat.ofDigits_digits 10 n))

/-- A decimal text consists of digits. -/
theorem digit_of_mem_decString {n : ℕ} {c : Char} (h : c ∈ decString n) : '0' ≤ c ∧ c ≤ '9' := by
  have hdigit : ∀ d < 10, '0' ≤ decDigit d ∧ decDigit d ≤ '9' := by decide
  rw [decString] at h
  split_ifs at h
  · obtain rfl := List.mem_singleton.mp h
    decide
  · obtain ⟨d, hd, rfl⟩ := List.mem_map.mp h
    exact hdigit d (Nat.digits_lt_base (by decide) (List.mem_reverse.mp hd))

/-- A decimal text starts with a digit. -/
theorem decString_eq_cons (n : ℕ) : ∃ d < 10, ∃ cs, decString n = decDigit d :: cs := by
  rw [decString]
  split_ifs with h
  · exact ⟨0, by decide, [], rfl⟩
  · cases hds : (Nat.digits 10 n).reverse with
    | nil => exact absurd (List.reverse_eq_nil_iff.mp hds) (Nat.digits_ne_nil_iff_ne_zero.mpr h)
    | cons d ds =>
      have hmem : d ∈ Nat.digits 10 n := by
        rw [← List.mem_reverse, hds]
        exact List.mem_cons_self
      exact ⟨d, Nat.digits_lt_base (by decide) hmem, ds.map decDigit, rfl⟩

/-- **A number is read back from its decimal text**, if it fits. -/
theorem parseInt_decString (w n : ℕ) :
    parseInt w (decString n) = if n < 2 ^ (w - 1) then some (n : ℤ) else none := by
  have hle : 2 ^ (w - 1) ≤ 2 ^ w := Nat.pow_le_pow_right (by decide) (Nat.sub_le w 1)
  have huint : parseUint w (decString n) = if n < 2 ^ w then some n else none := by
    obtain ⟨d, -, cs, hcs⟩ := decString_eq_cons n
    rw [parseUint, if_neg (by rw [hcs]; simp), digitsVal?_decString, Option.bind_some]
  have hsign : parseInt w (decString n) =
      (parseUint w (decString n)).bind fun n => if n < 2 ^ (w - 1) then some (n : ℤ) else none := by
    obtain ⟨d, hd, cs, hcs⟩ := decString_eq_cons n
    rw [hcs]
    interval_cases d <;> rfl
  rw [hsign, huint]
  split_ifs with hw hn hn
  · simp [hn]
  · simp [hn]
  · omega
  · rfl

/-! #### Other characters -/

section NotAscii

variable {c : Char} {s : List Char}

end NotAscii

/-! ### Hexadecimal -/

/-- The value of a hexadecimal digit of either case. -/
def hexVal? (c : Char) : Option ℕ :=
  if '0' ≤ c ∧ c ≤ '9' then some (c.toNat - '0'.toNat)
  else if 'a' ≤ c ∧ c ≤ 'f' then some (c.toNat - 'a'.toNat + 10)
  else if 'A' ≤ c ∧ c ≤ 'F' then some (c.toNat - 'A'.toNat + 10)
  else none

/-- The lower-case hexadecimal digit of a value below sixteen. -/
def hexDigit (d : ℕ) : Char :=
  if d < 10 then Char.ofNat ('0'.toNat + d) else Char.ofNat ('a'.toNat + (d - 10))

theorem hexVal?_hexDigit {d : ℕ} (h : d < 16) : hexVal? (hexDigit d) = some d := by
  interval_cases d <;> decide

/-- `hex.EncodeToString`. -/
def hexEncode : List UInt8 → List Char
  | [] => []
  | b :: bs => hexDigit (b.toNat / 16) :: hexDigit (b.toNat % 16) :: hexEncode bs

/-- `hex.DecodeString`. -/
def hexDecode : List Char → Option (List UInt8)
  | [] => some []
  | [_] => none
  | c :: c' :: cs =>
    (hexVal? c).bind fun hi => (hexVal? c').bind fun lo =>
      (hexDecode cs).map (UInt8.ofNat (hi * 16 + lo) :: ·)

@[simp] theorem length_hexEncode (bs : List UInt8) : (hexEncode bs).length = 2 * bs.length := by
  induction bs with
  | nil => rfl
  | cons b bs ih => simp only [hexEncode, List.length_cons, ih]; omega

/-- Decoding undoes encoding. -/
@[simp] theorem hexDecode_hexEncode (bs : List UInt8) : hexDecode (hexEncode bs) = some bs := by
  induction bs with
  | nil => rfl
  | cons b bs ih =>
    have hb := b.toNat_lt
    rw [hexEncode, hexDecode, hexVal?_hexDigit (by omega), hexVal?_hexDigit (by omega), ih]
    simp only [Option.bind_some, Option.map_some]
    rw [show b.toNat / 16 * 16 + b.toNat % 16 = b.toNat by omega, UInt8.ofNat_toNat]

/-- The characters of an encoding are digits. -/
theorem exists_hexDigit_of_mem {bs : List UInt8} {c : Char} (h : c ∈ hexEncode bs) :
    ∃ d < 16, c = hexDigit d := by
  induction bs with
  | nil => exact absurd h List.not_mem_nil
  | cons b bs ih =>
    have hb := b.toNat_lt
    rw [hexEncode, List.mem_cons, List.mem_cons] at h
    rcases h with rfl | rfl | h
    · exact ⟨b.toNat / 16, by omega, rfl⟩
    · exact ⟨b.toNat % 16, by omega, rfl⟩
    · exact ih h

theorem isSpace_of_mem_hexEncode {bs : List UInt8} {c : Char} (h : c ∈ hexEncode bs) :
    isSpace c = false := by
  obtain ⟨d, hd, rfl⟩ := exists_hexDigit_of_mem h
  interval_cases d <;> decide

/-! ### Sizes -/

/-- A character below 128 is a byte. -/
theorem utf8ByteSize_of_ascii {s : String} (h : ∀ c ∈ s.toList, c.toNat < 128) :
    s.utf8ByteSize = s.toList.length := by
  have hsize : ∀ cs : List Char, (∀ c ∈ cs, c.toNat < 128) → String.utf8Len cs = cs.length := by
    intro cs hcs
    induction cs with
    | nil => rfl
    | cons c cs ih =>
      rw [List.forall_mem_cons] at hcs
      have hone : c.utf8Size = 1 := by
        have hrange : c.val.toNat < 128 := hcs.1
        rw [Char.utf8Size, if_pos]
        rw [UInt32.le_iff_toNat_le]
        change c.val.toNat ≤ 127
        omega
      rw [String.utf8Len_cons, ih hcs.2, hone, List.length_cons]
  rw [← String.utf8Len_toList]
  exact hsize _ h

theorem utf8ByteSize_hexEncode (bs : List UInt8) :
    (String.ofList (hexEncode bs)).utf8ByteSize = 2 * bs.length := by
  rw [utf8ByteSize_of_ascii, String.toList_ofList, length_hexEncode]
  intro c hc
  rw [String.toList_ofList] at hc
  obtain ⟨d, hd, rfl⟩ := exists_hexDigit_of_mem hc
  interval_cases d <;> decide

end GoText
