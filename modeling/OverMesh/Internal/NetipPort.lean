import Mathlib.Data.Nat.Digits.Lemmas
import OverMesh.Internal.NetipText

/-!
# Endpoints as text

`netip.AddrPort.String` and its inverse `ParseAddrPort`. An address may have a zone, and a zone may
be any text that is not empty: `ParseAddr` takes whatever comes after the first percent sign.

## Main results

* `Netip.parseChars_chars_all` — an address is read back, whatever its zone
* `Netip.parseAddrPort_string`, `Netip.parsePrefix_chars` — so are endpoints and prefixes
-/

namespace Netip

open GoText

/-- `netip.AddrPort.String` on characters. -/
def addrPortChars (ap : Addr × ℕ) : List Char :=
  match ap.1 with
  | .v4 a => (Addr.v4 a).chars ++ ':' :: decString ap.2
  | .v6 a z => '[' :: (Addr.v6 a z).chars ++ ']' :: ':' :: decString ap.2

/-- `netip.AddrPort.String`. -/
def addrPortText (ap : Addr × ℕ) : String := String.ofList (addrPortChars ap)

/-! ### Zones -/

/-- What of an IPv6 address comes before its zone. -/
theorem chars_v6 (a : BitVec 128) {z : String} (hz : z ≠ "") :
    (Addr.v6 a z).chars = (Addr.v6 a "").chars ++ '%' :: z.toList := by
  rw [Addr.chars, Addr.chars, if_neg hz, if_pos rfl, List.append_nil]

/-- No percent sign but that of the zone. -/
theorem percent_not_mem_chars (a : BitVec 128) : '%' ∉ (Addr.v6 a "").chars := by
  intro h
  rw [Addr.chars, if_pos rfl, List.append_nil] at h
  split_ifs at h
  · rcases List.mem_append.mp h with h | h
    · exact absurd h (by decide)
    · rcases mem_string4 h with h | h <;> exact absurd h (by decide)
  · rcases mem_string6 (groups_lt a) h with h | h <;> exact absurd h (by decide)

/-- **An address with a zone is read back**, whatever the zone. -/
theorem parseChars_chars_of_zone (a : BitVec 128) {z : String} (hz : z ≠ "") :
    parseChars (Addr.v6 a z).chars = some (.v6 a z) := by
  have hplain := parseChars_chars (a := .v6 a "") rfl
  have hpct := percent_not_mem_chars a
  rw [chars_v6 a hz]
  rw [parseChars] at hplain
  -- the family is decided before the zone begins
  cases hfind : (Addr.v6 a "").chars.find? fun c => c = '.' ∨ c = ':' ∨ c = '%' with
  | none =>
    rw [hfind] at hplain
    cases hplain
  | some c =>
    rw [hfind] at hplain
    have hfind' : ((Addr.v6 a "").chars ++ '%' :: z.toList).find?
        (fun c => c = '.' ∨ c = ':' ∨ c = '%') = some c := by
      rw [List.find?_append, hfind, Option.some_or]
    rw [parseChars, hfind', cut_append hpct]
    split at hplain
    · obtain ⟨o, -, ho⟩ := Option.map_eq_some_iff.mp hplain
      cases ho
    · rw [cut_of_not_mem hpct] at hplain
      obtain ⟨b, hb, hba⟩ := Option.map_eq_some_iff.mp hplain
      obtain ⟨rfl, -⟩ := Addr.v6.inj hba
      have hne : z.toList ≠ [] := fun h => hz (by simpa using h)
      cases htl : z.toList with
      | nil => exact absurd htl hne
      | cons d ds =>
        dsimp only
        rw [hb, Option.map_some, Option.getD_some, ← htl, String.ofList_toList]
    · cases hplain

/-- **An address is read back.** -/
theorem parseChars_chars_all (a : Addr) : parseChars a.chars = some a := by
  cases a with
  | v4 a => exact parseChars_chars rfl
  | v6 a z =>
    by_cases hz : z = ""
    · subst hz
      exact parseChars_chars rfl
    · exact parseChars_chars_of_zone a hz

/-- The zone is part of the text that was read. -/
theorem mem_of_mem_zone_parseChars {s : List Char} {a : Addr} {c : Char} (h : parseChars s = some a)
    (hc : c ∈ a.zone.toList) : c ∈ s := by
  rw [parseChars] at h
  split at h
  · obtain ⟨o, -, rfl⟩ := Option.map_eq_some_iff.mp h
    exact absurd hc (by simp)
  · have hs := eq_of_cut '%' s
    split at h
    · cases h
    · next s' zone hne hcut =>
      obtain ⟨a', -, rfl⟩ := Option.map_eq_some_iff.mp h
      rw [hs, hcut]
      rw [Addr.zone, String.toList_ofList] at hc
      cases zone with
      | none => cases hc
      | some z => exact List.mem_append_right _ (List.mem_cons_of_mem _ hc)
  · cases h

theorem mem_of_mem_zone_parseAddrPort {s : String} {ap : Addr × ℕ} {c : Char}
    (h : parseAddrPort s = some ap) (hc : c ∈ ap.1.zone.toList) : c ∈ s.toList := by
  rw [parseAddrPort] at h
  obtain ⟨⟨ip, port⟩, hcut, h⟩ := Option.bind_eq_some_iff.mp h
  dsimp only at h
  split_ifs at h
  obtain ⟨⟨b, ip'⟩, hip, h⟩ := Option.bind_eq_some_iff.mp h
  obtain ⟨n, -, h⟩ := Option.bind_eq_some_iff.mp h
  obtain ⟨a, ha, h⟩ := Option.bind_eq_some_iff.mp h
  split_ifs at h
  obtain rfl := Option.some.inj h
  have hip' : c ∈ ip' := mem_of_mem_zone_parseChars ha hc
  have hmem : c ∈ ip := by
    unfold unbracket at hip
    split at hip
    · split_ifs at hip
      obtain ⟨-, rfl⟩ := Prod.mk.inj (Option.some.inj hip)
      exact List.mem_cons_of_mem _ (List.mem_of_mem_dropLast hip')
    · obtain ⟨-, rfl⟩ := Prod.mk.inj (Option.some.inj hip)
      exact hip'
  rw [cutLast] at hcut
  split at hcut
  · cases hcut
  · next after before heq =>
    obtain ⟨rfl, -⟩ := Prod.mk.inj (Option.some.inj hcut)
    have hs := eq_of_cut ':' s.toList.reverse
    rw [heq] at hs
    rw [← List.mem_reverse, hs]
    exact List.mem_append_right _ (List.mem_cons_of_mem _ (List.mem_reverse.mp hmem))

/-! ### Ports -/

theorem parseUint_decString {w n : ℕ} (h : n < 2 ^ w) : parseUint w (decString n) = some n := by
  obtain ⟨d, -, cs, hcs⟩ := decString_eq_cons n
  rw [parseUint, if_neg (by rw [hcs]; simp), digitsVal?_decString, Option.bind_some, if_pos h]

theorem decString_ne_nil (n : ℕ) : decString n ≠ [] := by
  obtain ⟨d, -, cs, hcs⟩ := decString_eq_cons n
  rw [hcs]
  exact List.cons_ne_nil _ _

theorem colon_not_mem_decString (n : ℕ) : ':' ∉ decString n :=
  fun h => absurd (digit_of_mem_decString h).2 (by decide)

/-- **An endpoint is read back.** -/
theorem parseAddrPort_string {ap : Addr × ℕ} (hport : ap.2 < 65536) :
    parseAddrPort (addrPortText ap) = some ap := by
  obtain ⟨a, port⟩ := ap
  have hread := parseChars_chars_all a
  have huint : parseUint 16 (decString port) = some port := parseUint_decString hport
  rw [parseAddrPort, addrPortText, String.toList_ofList, addrPortChars]
  cases a with
  | v4 a =>
    obtain ⟨c, cs, hhead, hdigit⟩ := string4_head a
    have hchars : (Addr.v4 a).chars = c :: cs := hhead
    simp only [cutLast_append (colon_not_mem_decString port), Option.bind_some]
    rw [if_neg (by simp [hchars, decString_ne_nil])]
    have hunbracket : unbracket (Addr.v4 a).chars = some (false, (Addr.v4 a).chars) := by
      have hne : c ≠ '[' := by
        rintro rfl
        exact absurd hdigit (by decide)
      rw [hchars, unbracket]
      exact fun rest h => hne (List.cons.inj h).1
    simp [hunbracket, huint, hread, Addr.is6]
  | v6 a z =>
    have hsplit : '[' :: (Addr.v6 a z).chars ++ ']' :: ':' :: decString port =
        ('[' :: ((Addr.v6 a z).chars ++ [']'])) ++ ':' :: decString port := by simp
    simp only [hsplit, cutLast_append (colon_not_mem_decString port), Option.bind_some]
    rw [if_neg (by simp [decString_ne_nil])]
    have hunbracket : unbracket ('[' :: ((Addr.v6 a z).chars ++ [']'])) =
        some (true, (Addr.v6 a z).chars) := by
      simp [unbracket]
    simp [hunbracket, huint, hread, Addr.is6]

/-! ### Prefixes -/

theorem parseBits_decString {n : ℕ} (h : n < 2 ^ 63) : parseBits (decString n) = some n := by
  have hzero : ¬ (1 < (decString n).length ∧ (decString n).head? = some '0') := by
    rintro ⟨hlen, hhead⟩
    rw [decString] at hlen hhead
    split_ifs at hlen hhead with hn
    · simp at hlen
    · -- the first digit of a number is not zero
      rw [List.head?_map, List.head?_reverse] at hhead
      obtain ⟨d, hd, hd0⟩ := Option.map_eq_some_iff.mp hhead
      have hlt : d < 10 := Nat.digits_lt_base (by decide) (List.mem_of_getLast? hd)
      have hne : d ≠ 0 := by
        have hnil : Nat.digits 10 n ≠ [] := Nat.digits_ne_nil_iff_ne_zero.mpr hn
        rw [List.getLast?_eq_some_getLast hnil] at hd
        exact Option.some.inj hd ▸ Nat.getLast_digit_ne_zero 10 hn
      interval_cases d <;> revert hd0 hne <;> decide
  rw [parseBits, if_neg hzero, parseUint_decString h]

/-- **A prefix is read back.** -/
theorem parsePrefix_chars (p : Prefix) :
    parsePrefix (String.ofList (p.addr.chars ++ '/' :: decString p.bits)) = some p := by
  have hbits : p.bits < 2 ^ 63 := by
    have hle := p.bits_le
    have hlen : p.addr.bitLen ≤ 128 := by cases p.addr <;> simp
    omega
  have htext : String.ofList (p.addr.chars ++ '/' :: decString p.bits) =
      p.addr.string ++ String.ofList ('/' :: decString p.bits) := by
    simp [Addr.string, String.ofList_append]
  have hslash : '/' ∉ decString p.bits :=
    fun h => absurd (digit_of_mem_decString h).1 (by decide)
  rw [htext, parsePrefix_string_append p.zoneless _ hslash (parseBits_decString hbits),
    dif_pos p.bits_le]

end Netip
