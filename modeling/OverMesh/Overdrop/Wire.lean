import OverMesh.Internal.GoPath
import OverMesh.Internal.GoQuery
import OverMesh.Overdrop.Resume

/-!
# Names on the wire

A file name is a sequence of bytes. `Send` escapes it with the few replacements of `urlEscape` and
puts it into a query; the receiver parses the query, trims white space, takes the last element of
what is left for a path, and refuses some characters. Here this is byte by byte.

What survives is every name without a semicolon, a backslash and white space at its ends. A
semicolon makes the query parser drop the name, a backslash is refused, and white space is cut off.

## Main definitions

* `urlEscape`, `offsetQuery`, `putQuery` — what `Send` asks for
* `Wire.params`, `Wire.queryParams` — what the receiver reads
* `FileName` — the names `Send` can take

## Main results

* `get_query` — what arrives is the name, or nothing if there is a semicolon in it
* `queryParams_sent_iff` — **when a name survives the transfer**
-/

namespace OverMesh

open GoText GoBytes GoPath GoQuery

namespace Overdrop

namespace Wire

/-! ### The sender -/

/-- The replacements of `urlEscape`. -/
def replacements : List (UInt8 × List UInt8) :=
  [(37, bytes "%25"), (38, bytes "%26"), (43, bytes "%2B"), (35, bytes "%23"), (63, bytes "%3F"),
    (32, bytes "%20")]

/-- The replacer, on one byte. -/
def escapeByte (b : UInt8) : List UInt8 :=
  ((replacements.find? fun r => r.1 = b).map Prod.snd).getD [b]

/-- `urlEscape`. -/
def urlEscape (s : List UInt8) : List UInt8 := s.flatMap escapeByte

/-- A number, as `%d` writes it. -/
def decBytes (n : ℕ) : List UInt8 := bytes (decimal n)

/-- One pair of a query. -/
def pair (key : String) (value : List UInt8) : List UInt8 := bytes key ++ 61 :: value

/-- The query `Send` asks for the offset with. -/
def offsetQuery (name : List UInt8) (size : ℕ) : List UInt8 :=
  pair "name" (urlEscape name) ++ 38 :: pair "size" (decBytes size)

/-- The query of the transfer itself. -/
def putQuery (name : List UInt8) (size offset : ℕ) : List UInt8 :=
  offsetQuery name size ++ 38 :: pair "offset" (decBytes offset)

/-! ### The receiver -/

/-- The names that `params` refuses. -/
def BadName (name : List UInt8) : Prop :=
  name = [] ∨ name = [dot] ∨ name = [dot, dot] ∨ name = [sep] ∨ name.any (· ∈ [sep, 92, 0])

instance (name : List UInt8) : Decidable (BadName name) := inferInstanceAs (Decidable (_ ∨ _))

/-- `params`, of the values of the query. -/
def params (name size : List UInt8) : Except DropError (List UInt8 × ℕ) :=
  let name := base (GoBytes.trimSpace name)
  if BadName name then .error .badName
  else match parseInt 64 (chars size) with
    | none => .error .badSize
    | some n => if n < 0 then .error .badSize else .ok (name, n.toNat)

/-- `params`, of a query. -/
def queryParams (query : List UInt8) : Except DropError (List UInt8 × ℕ) :=
  params (get (parseQuery query) (bytes "name")) (get (parseQuery query) (bytes "size"))

/-! ### What is read from the queries -/

/-- A byte is replaced, or stays as it is. -/
theorem escapeByte_cases (b : UInt8) : (∃ r ∈ replacements, r.1 = b ∧ escapeByte b = r.2) ∨
      (∀ r ∈ replacements, r.1 ≠ b) ∧ escapeByte b = [b] := by
  rw [escapeByte]
  cases hfind : replacements.find? fun r => r.1 = b with
  | some r =>
    have hr := List.find?_some hfind
    exact .inl ⟨r, List.mem_of_find?_eq_some hfind, of_decide_eq_true hr, rfl⟩
  | none =>
    refine .inr ⟨fun r hr heq => ?_, rfl⟩
    exact List.find?_eq_none.mp hfind r hr (decide_eq_true heq)

theorem standsFor_escapeByte (b : UInt8) : StandsFor (escapeByte b) b := by
  have hall : ∀ r ∈ replacements, StandsFor r.2 r.1 := by
    simp only [replacements, List.forall_mem_cons]
    refine ⟨?_, ?_, ?_, ?_, ?_, ?_, fun _ h => absurd h List.not_mem_nil⟩
    all_goals exact .inr ⟨_, _, _, _, rfl, rfl, rfl, rfl⟩
  rcases escapeByte_cases b with ⟨r, hr, rfl, heq⟩ | ⟨hnone, heq⟩
  · rw [heq]
    exact hall r hr
  · rw [heq]
    refine .inl ⟨rfl, ?_, ?_⟩
    · exact fun h => hnone (37, bytes "%25") (by decide) h.symm
    · exact fun h => hnone (43, bytes "%2B") (by decide) h.symm

/-- The name is read back from its escape. -/
theorem unescape_urlEscape (s : List UInt8) : unescape (urlEscape s) = some s :=
  unescape_flatMap fun b _ => standsFor_escapeByte b

theorem not_mem_urlEscape (s : List UInt8) : 38 ∉ urlEscape s := by
  intro h
  obtain ⟨b, -, hb⟩ := List.mem_flatMap.mp h
  have hall : ∀ r ∈ replacements, 38 ∉ r.2 := by decide
  rcases escapeByte_cases b with ⟨r, hr, -, heq⟩ | ⟨hnone, heq⟩
  · rw [heq] at hb
    exact hall r hr hb
  · rw [heq] at hb
    exact hnone (38, bytes "%26") (by decide) (List.mem_singleton.mp hb)

/-- A semicolon is not among what is replaced. -/
theorem semicolon_mem_urlEscape {s : List UInt8} : 59 ∈ urlEscape s ↔ 59 ∈ s := by
  have hall : ∀ r ∈ replacements, 59 ∉ r.2 := by decide
  constructor
  · intro h
    obtain ⟨b, hb, hesc⟩ := List.mem_flatMap.mp h
    rcases escapeByte_cases b with ⟨r, hr, -, heq⟩ | ⟨-, heq⟩
    · rw [heq] at hesc
      exact absurd hesc (hall r hr)
    · rw [heq] at hesc
      rwa [List.mem_singleton.mp hesc]
  · intro h
    exact List.mem_flatMap.mpr ⟨59, h, by decide⟩

theorem ascii_decimal {n : ℕ} {c : Char} (h : c ∈ (decimal n).toList) :
    48 ≤ c.toNat ∧ c.toNat ≤ 57 := by
  rw [decimal, String.toList_ofList] at h
  obtain ⟨hlo, hhi⟩ := digit_of_mem_decString h
  exact ⟨UInt32.le_iff_toNat_le.mp hlo, UInt32.le_iff_toNat_le.mp hhi⟩

theorem lt_of_mem_decimal {n : ℕ} {c : Char} (h : c ∈ (decimal n).toList) : c.toNat < 128 := by
  have := (ascii_decimal h).2
  omega

/-- A number is written with digits. -/
theorem digit_of_mem_decBytes {n : ℕ} {b : UInt8} (h : b ∈ decBytes n) :
    48 ≤ b.toNat ∧ b.toNat ≤ 57 := by
  rw [decBytes, bytes_of_ascii fun c hc => lt_of_mem_decimal hc] at h
  obtain ⟨c, hc, rfl⟩ := List.mem_map.mp h
  have hc := ascii_decimal hc
  rw [UInt8.toNat_ofNat', Nat.mod_eq_of_lt (by omega)]
  exact hc

theorem not_mem_decBytes {n : ℕ} {b : UInt8} (h : b.toNat < 48 ∨ 57 < b.toNat) :
    b ∉ decBytes n := by
  intro hb
  have := digit_of_mem_decBytes hb
  omega

theorem chars_decBytes (n : ℕ) : chars (decBytes n) = decString n := by
  rw [decBytes, chars_bytes fun c hc => lt_of_mem_decimal hc, decimal, String.toList_ofList]

/-- A pair of a query is read, or dropped if there is a semicolon in the value. -/
theorem parseQuery_pair {key : String} (hkey : ∀ b ∈ bytes key, b ∉ [37, 38, 43, 59, 61])
    {value read : List UInt8} (hamp : 38 ∉ value) (hread : unescape value = some read) :
    parseQuery (pair key value) = if 59 ∈ value then [] else [(bytes key, read)] := by
  have hnot : ∀ x ∈ [37, 38, 43, 59, 61], x ∉ bytes key := fun x hx h => hkey x h hx
  have hamp' : (38 : UInt8) ∉ pair key value := by
    rw [pair, List.mem_append, List.mem_cons]
    rintro (h | h | h)
    · exact hnot 38 (by decide) h
    · exact absurd h (by decide)
    · exact hamp h
  have hself : unescape (bytes key) = some (bytes key) := by
    refine unescape_of_plain fun b hb => ⟨?_, ?_⟩
    · rintro rfl
      exact hnot 37 (by decide) hb
    · rintro rfl
      exact hnot 43 (by decide) hb
  rw [parseQuery_of_not_mem hamp', pair,
    parsePair_append (hnot 61 (by decide)) (hnot 59 (by decide)) hself hread]
  split <;> rfl

/-- A number is read as it is written. -/
theorem parseQuery_number {key : String} (hkey : ∀ b ∈ bytes key, b ∉ [37, 38, 43, 59, 61])
    (n : ℕ) : parseQuery (pair key (decBytes n)) = [(bytes key, decBytes n)] := by
  have hself : unescape (decBytes n) = some (decBytes n) := by
    refine unescape_of_plain fun b hb => ?_
    have := digit_of_mem_decBytes hb
    constructor
    · rintro rfl
      exact absurd this (by decide)
    · rintro rfl
      exact absurd this (by decide)
  rw [parseQuery_pair hkey (not_mem_decBytes (by decide)) hself,
    if_neg (not_mem_decBytes (by decide))]

theorem parseQuery_offsetQuery (name : List UInt8) (size : ℕ) : parseQuery (offsetQuery name size) =
      (if 59 ∈ name then [] else [(bytes "name", name)]) ++ [(bytes "size", decBytes size)] := by
  rw [offsetQuery, parseQuery_append, parseQuery_number (by decide +kernel),
    parseQuery_pair (by decide +kernel) (not_mem_urlEscape name) (unescape_urlEscape name)]
  simp only [semicolon_mem_urlEscape]

theorem parseQuery_putQuery (name : List UInt8) (size offset : ℕ) :
    parseQuery (putQuery name size offset) =
      parseQuery (offsetQuery name size) ++ [(bytes "offset", decBytes offset)] := by
  rw [putQuery, parseQuery_append, parseQuery_number (by decide +kernel)]

/-- **What arrives** is the name and the size, but no name if there is a semicolon in it. -/
theorem get_query {query name : List UInt8} {size : ℕ}
    (h : query = offsetQuery name size ∨ ∃ offset, query = putQuery name size offset) :
    get (parseQuery query) (bytes "name") = (if 59 ∈ name then [] else name) ∧
      get (parseQuery query) (bytes "size") = decBytes size := by
  have hrest : ∃ rest, parseQuery query =
      (if 59 ∈ name then [] else [(bytes "name", name)]) ++ (bytes "size", decBytes size) :: rest ∧
        get rest (bytes "name") = [] := by
    rcases h with rfl | ⟨offset, rfl⟩
    · exact ⟨[], parseQuery_offsetQuery name size, rfl⟩
    · refine ⟨[(bytes "offset", decBytes offset)], ?_, get_cons_of_ne (by decide) _ _⟩
      rw [parseQuery_putQuery, parseQuery_offsetQuery, List.append_assoc]
      rfl
  obtain ⟨rest, hquery, hname⟩ := hrest
  rw [hquery]
  split
  · rw [List.nil_append, get_cons_of_ne (by decide), hname, get_cons_self]
    exact ⟨rfl, rfl⟩
  · rw [List.singleton_append, get_cons_self, get_cons_of_ne (by decide), get_cons_self]
    exact ⟨rfl, rfl⟩

/-! ### Names that survive -/

theorem any_refused_iff (n : List UInt8) :
    (n.any (· ∈ [sep, 92, 0])) = true ↔ sep ∈ n ∨ 92 ∈ n ∨ 0 ∈ n := by
  simp [List.any_eq_true, and_or_left, exists_or]

theorem not_badName_iff {n : List UInt8} : ¬ BadName n ↔ Proper n ∧ 92 ∉ n ∧ 0 ∉ n := by
  rw [BadName, any_refused_iff, Proper]
  simp only [not_or]
  constructor
  · rintro ⟨hnil, hdot, hdots, -, hslash, hback, hzero⟩
    exact ⟨⟨hnil, hdot, hdots, hslash⟩, hback, hzero⟩
  · rintro ⟨⟨hnil, hdot, hdots, hslash⟩, hback, hzero⟩
    refine ⟨hnil, hdot, hdots, ?_, hslash, hback, hzero⟩
    rintro rfl
    exact hslash List.mem_cons_self

/-- **What is accepted**: the last element, trimmed, if it is a name without backslashes and zero
bytes, and a size. -/
theorem params_eq_ok_iff {raw size n : List UInt8} {k : ℕ} : params raw size = .ok (n, k) ↔
      base (GoBytes.trimSpace raw) = n ∧ ¬ BadName n ∧ parseInt 64 (chars size) = some (k : ℤ) := by
  rw [params]
  constructor
  · intro h
    by_cases hbad : BadName (base (GoBytes.trimSpace raw))
    · rw [if_pos hbad] at h
      cases h
    rw [if_neg hbad] at h
    split at h
    · cases h
    · next m hm =>
      split at h
      · cases h
      · next hneg =>
        obtain ⟨rfl, rfl⟩ := Prod.mk.inj (Except.ok.inj h)
        refine ⟨rfl, hbad, ?_⟩
        rw [hm, Int.toNat_of_nonneg (not_lt.mp hneg)]
  · rintro ⟨rfl, hbad, hk⟩
    rw [if_neg hbad, hk]
    simp only
    rw [if_neg (by omega), Int.toNat_natCast]

/-- A name that `filepath.Base` gives for an existing file, and that can be put into a URL: it names
an entry of a directory, and has no control characters. -/
structure FileName where
  name : List UInt8
  proper : Proper name
  no_control : ∀ b ∈ name, 32 ≤ b ∧ b ≠ 127

theorem FileName.not_badName_iff (f : FileName) : ¬ BadName f.name ↔ 92 ∉ f.name := by
  have hzero : 0 ∉ f.name := fun h => absurd (f.no_control 0 h).1 (by decide)
  rw [Wire.not_badName_iff]
  exact ⟨fun h => h.2.1, fun h => ⟨f.proper, h, hzero⟩⟩

/-- The last element, trimmed, is the name itself just when there is nothing to trim. -/
theorem FileName.base_trimSpace_iff (f : FileName) :
    base (GoBytes.trimSpace f.name) = f.name ↔ GoBytes.trimSpace f.name = f.name := by
  constructor
  · intro h
    by_cases hnil : GoBytes.trimSpace f.name = []
    · rw [hnil] at h
      exact absurd h.symm f.proper.2.1
    · have hsep : sep ∉ GoBytes.trimSpace f.name :=
        fun hm => f.proper.2.2.2 (mem_of_mem_trimSpace hm)
      rwa [base_eq_self hnil hsep] at h
  · intro h
    rw [h, base_eq_self f.proper.1 f.proper.2.2.2]

theorem queryParams_eq_ok_iff (f : FileName) (size : Fin (2 ^ 63)) {query : List UInt8}
    (hquery : query = offsetQuery f.name size ∨ ∃ offset, query = putQuery f.name size offset) :
    queryParams query = .ok (f.name, size.val) ↔
      59 ∉ f.name ∧ 92 ∉ f.name ∧ ∀ sp ∈ spaces, ¬ sp <+: f.name ∧ ¬ sp <:+ f.name := by
  obtain ⟨hname, hsize⟩ := get_query hquery
  have hparse : parseInt 64 (chars (decBytes size)) = some (size.val : ℤ) := by
    rw [chars_decBytes, parseInt_decString, if_pos size.isLt]
  rw [queryParams, hname, hsize, params_eq_ok_iff, f.not_badName_iff, ← trimSpace_eq_self_iff,
    and_iff_left hparse]
  by_cases hsemi : 59 ∈ f.name
  · -- what arrives is empty, and is read as the current directory
    rw [if_pos hsemi]
    exact iff_of_false (fun h => f.proper.2.1 h.1.symm) fun h => h.1 hsemi
  · rw [if_neg hsemi, f.base_trimSpace_iff, and_iff_right hsemi, and_comm]

/-- **When a name survives the transfer**: the receiver reads it as it is, from the request for the
offset and from the transfer, just when there is no semicolon and no backslash in it, and it neither
begins nor ends with white space. -/
theorem queryParams_sent_iff (f : FileName) (size : Fin (2 ^ 63)) :
    (queryParams (offsetQuery f.name size) = .ok (f.name, size.val) ↔
      59 ∉ f.name ∧ 92 ∉ f.name ∧ ∀ sp ∈ spaces, ¬ sp <+: f.name ∧ ¬ sp <:+ f.name) ∧
    ∀ offset, (queryParams (putQuery f.name size offset) = .ok (f.name, size.val) ↔
      59 ∉ f.name ∧ 92 ∉ f.name ∧ ∀ sp ∈ spaces, ¬ sp <+: f.name ∧ ¬ sp <:+ f.name) :=
  ⟨queryParams_eq_ok_iff f size (.inl rfl),
    fun offset => queryParams_eq_ok_iff f size (.inr ⟨offset, rfl⟩)⟩

/-- The name of a file that consists of these characters. -/
def sampleName (s : String) (h : Proper (bytes s) ∧ ∀ b ∈ bytes s, 32 ≤ b ∧ b ≠ 127) : FileName :=
  ⟨bytes s, h.1, h.2⟩

/-- Files with a semicolon or a backslash in their names cannot be sent, and one whose name ends
with a space arrives under another name. -/
theorem queryParams_sent_lost :
    queryParams (offsetQuery (sampleName "a;b.txt" (by decide +kernel)).name 3) =
        .error .badName ∧
      queryParams (offsetQuery (sampleName "a\\b.txt" (by decide +kernel)).name 3) =
        .error .badName ∧
      queryParams (offsetQuery (sampleName "draft " (by decide +kernel)).name 3) =
        .ok (bytes "draft", 3) := by
  decide +kernel

end Wire

end Overdrop

end OverMesh
