import OverMesh.Internal.GoText
import OverMesh.Internal.Netip
import Mathlib.Data.List.TakeWhile

/-!
# The text form of addresses and prefixes

`netip.Addr.String`, `netip.ParseAddr` and `netip.ParsePrefix`: dotted decimal for IPv4, and for
IPv6 eight hexadecimal groups with the first longest run of two or more zero groups written `::`,
or `::ffff:a.b.c.d` for an IPv4-mapped address.

## Main results

* `parseChars_chars` — parsing undoes printing, for every address without a zone
* `parsePrefix_v4_32`, `parsePrefix_v6_128` — `a/32` and `a/128` are the one-address prefix of `a`
* `parsePrefix_v4_128` — an IPv4 address with `/128` behind it is refused

## Implementation notes

The IPv6 parser keeps the loop of the Go code: `parse6Loop` takes one group off the front of the
text and has `room` groups left to fill. Its three lemmas say what it does with a group followed
by a colon, by two colons, and by the end of the text; the round trip is an induction on the
printed groups with these as its cases. Which run of zeros the printer picks does not matter for
it, only that the run consists of zeros and is not empty.
-/

namespace Netip

open GoText

/-! ### Printing -/

/-- One octet in decimal, without leading zeros. -/
def octet (n : ℕ) : List Char :=
  if n < 10 then [decDigit n]
  else if n < 100 then [decDigit (n / 10), decDigit (n % 10)]
  else [decDigit (n / 100), decDigit (n / 10 % 10), decDigit (n % 10)]

/-- Dotted decimal. -/
def string4 (a : BitVec 32) : List Char :=
  octet (a.toNat / 2 ^ 24) ++ '.' :: octet (a.toNat / 2 ^ 16 % 256) ++
    '.' :: octet (a.toNat / 2 ^ 8 % 256) ++ '.' :: octet (a.toNat % 256)

/-- The eight 16-bit groups of an IPv6 address, most significant first. -/
def groups (a : BitVec 128) : List ℕ :=
  [7, 6, 5, 4, 3, 2, 1, 0].map fun i => a.toNat / 65536 ^ i % 65536

/-- One group in hexadecimal, without leading zeros. -/
def hexGroup (x : ℕ) : List Char :=
  (if 0x1000 ≤ x then [hexDigit (x / 0x1000)] else []) ++
    (if 0x100 ≤ x then [hexDigit (x / 0x100 % 16)] else []) ++
    (if 0x10 ≤ x then [hexDigit (x / 0x10 % 16)] else []) ++ [hexDigit (x % 16)]

/-- Groups separated by colons. -/
def joinGroups : List ℕ → List Char
  | [] => []
  | [x] => hexGroup x
  | x :: y :: xs => hexGroup x ++ ':' :: joinGroups (y :: xs)

/-- The number of zero groups at the front. -/
def zeroRun (ws : List ℕ) : ℕ := (ws.takeWhile (· = 0)).length

/-- The first longest run of zero groups, as start and length; length 0 if there is no run of two.
`i` runs over the group positions as the loop of `appendTo6` does. -/
def longestZeros (ws : List ℕ) : ℕ × ℕ :=
  (List.range ws.length).foldl (fun best i =>
    let l := zeroRun (ws.drop i)
    if 2 ≤ l ∧ best.2 < l then (i, l) else best) (0, 0)

/-- IPv6 groups with the longest run of zeros elided. -/
def string6 (ws : List ℕ) : List Char :=
  let z := longestZeros ws
  if z.2 = 0 then joinGroups ws
  else joinGroups (ws.take z.1) ++ ':' :: ':' :: joinGroups (ws.drop (z.1 + z.2))

/-- `netip.Addr.String`. -/
def Addr.chars : Addr → List Char
  | .v4 a => string4 a
  | .v6 a z =>
    (if a.toNat / 2 ^ 32 = 0xffff then "::ffff:".toList ++ string4 (a.setWidth 32)
      else string6 (groups a)) ++ if z = "" then [] else '%' :: z.toList

@[inherit_doc Addr.chars]
def Addr.string (a : Addr) : String := String.ofList a.chars

/-- `netip.Prefix.String`. -/
def Prefix.string (p : Prefix) : String := p.addr.string ++ "/" ++ toString p.bits

/-! ### Parsing -/

/-- `parseIPv4Fields`: the octets of a dotted quad. `val` is the octet being read, `digLen` the
number of its digits so far. -/
def parse4 : List Char → ℕ → ℕ → List ℕ → Option (List ℕ)
  | [], val, _, fields => if fields.length < 3 then none else some (fields ++ [val])
  | c :: cs, val, digLen, fields =>
    match decVal? c with
    | some d =>
      if digLen = 1 ∧ val = 0 then none
      else if 255 < val * 10 + d then none
      else parse4 cs (val * 10 + d) (digLen + 1) fields
    | none =>
      if c = '.' then
        if digLen = 0 ∨ cs = [] then none
        else if fields.length = 3 then none
        else parse4 cs 0 0 (fields ++ [val])
      else none

/-- The 32-bit number of four octets. -/
def ofOctets (o : List ℕ) : BitVec 32 := BitVec.ofNat 32 (o.foldl (fun acc x => acc * 256 + x) 0)

/-- The 128-bit number of eight groups. -/
def ofGroups (ws : List ℕ) : BitVec 128 :=
  BitVec.ofNat 128 (ws.foldl (fun acc x => acc * 65536 + x) 0)

/-- The value of a hexadecimal group. -/
def hexGroupVal (ds : List Char) : ℕ := ds.foldl (fun acc c => acc * 16 + (hexVal? c).getD 0) 0

/-- The loop of `parseIPv6`. `room` is the number of groups that still fit, `ws` the groups read,
`ell` the position of the `::` if there was one. -/
def parse6Loop : ℕ → List Char → List ℕ → Option ℕ → Option (List ℕ × Option ℕ)
  | 0, s, ws, ell => if s = [] then some (ws, ell) else none
  | room + 1, s, ws, ell =>
    let ds := s.takeWhile fun c => (hexVal? c).isSome
    let rest := s.dropWhile fun c => (hexVal? c).isSome
    if ds = [] ∨ 4 < ds.length then none
    else match rest with
      | [] => some (ws ++ [hexGroupVal ds], ell)
      | '.' :: _ =>
        -- an embedded IPv4 address takes the place of the last two groups
        if (ell = none ∧ ws.length ≠ 6) ∨ 6 < ws.length then none
        else (parse4 s 0 0 []).map fun o =>
          (ws ++ [o.getD 0 0 * 256 + o.getD 1 0, o.getD 2 0 * 256 + o.getD 3 0], ell)
      | [':'] => none
      | ':' :: ':' :: rest' =>
        if ell.isSome then none
        else if rest' = [] then some (ws ++ [hexGroupVal ds], some (ws.length + 1))
        else parse6Loop room rest' (ws ++ [hexGroupVal ds]) (some (ws.length + 1))
      | ':' :: rest' => parse6Loop room rest' (ws ++ [hexGroupVal ds]) ell
      | _ => none

/-- Fill the elided groups in. -/
def expand : List ℕ × Option ℕ → Option (List ℕ)
  | (ws, some p) =>
    if ws.length < 8 then some (ws.take p ++ List.replicate (8 - ws.length) 0 ++ ws.drop p)
    else none
  | (ws, none) => if ws.length < 8 then none else some ws

/-- `parseIPv6` after the zone is split off. -/
def parse6 (s : List Char) : Option (BitVec 128) :=
  match s with
  | [':', ':'] => some 0
  | ':' :: ':' :: rest => ((parse6Loop 8 rest [] (some 0)).bind expand).map ofGroups
  | _ => ((parse6Loop 8 s [] none).bind expand).map ofGroups

/-- `netip.ParseAddr` on characters. The first of `.`, `:` and `%` decides the family. -/
def parseChars (s : List Char) : Option Addr :=
  match s.find? fun c => c = '.' ∨ c = ':' ∨ c = '%' with
  | some '.' => (parse4 s 0 0 []).map fun o => .v4 (ofOctets o)
  | some ':' =>
    match cut '%' s with
    | (_, some []) => none
    | (s', zone) => (parse6 s').map fun a => .v6 a (String.ofList (zone.getD []))
  | _ => none

/-- `netip.ParseAddr`. -/
def parseAddr (s : String) : Option Addr := parseChars s.toList

/-- Cut at the last occurrence of `sep`. -/
def cutLast (sep : Char) (s : List Char) : Option (List Char × List Char) :=
  match cut sep s.reverse with
  | (_, none) => none
  | (after, some before) => some (before.reverse, after.reverse)

/-- `strconv.Atoi` where a sign and leading zeros have been refused already. -/
def parseBits (s : List Char) : Option ℕ :=
  if 1 < s.length ∧ s.head? = some '0' then none else parseUint 63 s

/-- `netip.ParsePrefix`. A prefix has no zone. -/
def parsePrefix (s : String) : Option Prefix :=
  (cutLast '/' s.toList).bind fun (addr, bits) =>
    (parseChars addr).bind fun ip => (parseBits bits).bind fun n =>
      if h : n ≤ ip.bitLen ∧ ip.zone = "" then some ⟨ip, n, h.1, h.2⟩ else none

/-- The address part of an endpoint without its brackets, and whether it had them. -/
def unbracket (ip : List Char) : Option (Bool × List Char) :=
  match ip with
  | '[' :: rest => if rest.getLast? = some ']' then some (true, rest.dropLast) else none
  | _ => some (false, ip)

/-- `netip.ParseAddrPort`: an IPv6 address stands in brackets, an IPv4 address does not. -/
def parseAddrPort (s : String) : Option (Addr × ℕ) :=
  (cutLast ':' s.toList).bind fun (ip, port) =>
    if ip = [] ∨ port = [] then none
    else (unbracket ip).bind fun (ip6, ip) =>
      (parseUint 16 port).bind fun n => (parseChars ip).bind fun a =>
        if ip6 = a.is6 then some (a, n) else none

/-! ### IPv4 round trip -/

theorem isSome_decVal?_of_mem_octet {n : ℕ} (hn : n < 256) {c : Char} (hc : c ∈ octet n) :
    (decVal? c).isSome := by
  have key : ∀ d < 10, (decVal? (decDigit d)).isSome := fun d hd => by
    rw [decVal?_decDigit hd]; rfl
  rw [octet] at hc
  split at hc
  · simp only [List.mem_singleton] at hc
    exact hc ▸ key _ (by omega)
  · split at hc <;> simp only [List.mem_cons, List.not_mem_nil, or_false] at hc
    · rcases hc with rfl | rfl <;> exact key _ (by omega)
    · rcases hc with rfl | rfl | rfl <;> exact key _ (by omega)

theorem octet_ne_nil (n : ℕ) : octet n ≠ [] := by
  rw [octet]
  split
  · simp
  · split <;> simp

/-- Reading an octet consumes exactly its digits. -/
theorem parse4_octet {n : ℕ} (hn : n < 256) (rest : List Char) (fields : List ℕ) :
    parse4 (octet n ++ rest) 0 0 fields = parse4 rest n (octet n).length fields := by
  rw [octet]
  split
  · next h => simp [parse4, decVal?_decDigit h]; omega
  · next h =>
    split
    · next h' =>
      have h1 : n / 10 * 10 + n % 10 = n := by omega
      have h2 : n / 10 ≠ 0 := by omega
      have h3 : ¬ 255 < n / 10 := by omega
      have h4 : ¬ 255 < n := by omega
      simp [parse4, decVal?_decDigit (show n / 10 < 10 by omega),
        decVal?_decDigit (show n % 10 < 10 by omega), h1, h2, h3, h4]
    · next h' =>
      have h1 : (n / 100 * 10 + n / 10 % 10) * 10 + n % 10 = n := by omega
      have h2 : n / 100 ≠ 0 := by omega
      have h3 : ¬ 255 < n / 100 := by omega
      have h4 : ¬ 255 < n / 100 * 10 + n / 10 % 10 := by omega
      have h5 : ¬ 255 < n := by omega
      simp [parse4, decVal?_decDigit (show n / 100 < 10 by omega),
        decVal?_decDigit (show n / 10 % 10 < 10 by omega),
        decVal?_decDigit (show n % 10 < 10 by omega), h1, h2, h3, h4, h5]

theorem parse4_dot {val digLen : ℕ} {fields : List ℕ} {cs : List Char} (hd : digLen ≠ 0)
    (hcs : cs ≠ []) (hf : fields.length ≠ 3) :
    parse4 ('.' :: cs) val digLen fields = parse4 cs 0 0 (fields ++ [val]) := by
  rw [parse4, show decVal? '.' = none by decide]
  simp [hd, hcs, hf]

theorem parse4_string4 (a : BitVec 32) : parse4 (string4 a) 0 0 [] =
      some [a.toNat / 2 ^ 24, a.toNat / 2 ^ 16 % 256, a.toNat / 2 ^ 8 % 256, a.toNat % 256] := by
  have ha := a.isLt
  have hlen : ∀ n, (octet n).length ≠ 0 := fun n h => octet_ne_nil n (List.length_eq_zero_iff.mp h)
  have hne : ∀ n cs, octet n ++ cs ≠ [] := by
    intro n cs h
    exact octet_ne_nil n (List.append_eq_nil_iff.mp h).1
  simp only [string4, List.append_assoc, List.cons_append]
  rw [parse4_octet (by omega), parse4_dot (hlen _) (hne _ _) (by simp),
    parse4_octet (by omega), parse4_dot (hlen _) (hne _ _) (by simp),
    parse4_octet (by omega), parse4_dot (hlen _) (octet_ne_nil _) (by simp),
    ← List.append_nil (octet (a.toNat % 256)), parse4_octet (by omega)]
  simp [parse4]

theorem ofOctets_eq (a : BitVec 32) :
    ofOctets [a.toNat / 2 ^ 24, a.toNat / 2 ^ 16 % 256, a.toNat / 2 ^ 8 % 256, a.toNat % 256] =
      a := by
  have ha := a.isLt
  apply BitVec.eq_of_toNat_eq
  simp only [ofOctets, List.foldl_cons, List.foldl_nil, BitVec.toNat_ofNat]
  omega

/-! ### IPv6 groups -/

theorem hexGroup_ne_nil (x : ℕ) : hexGroup x ≠ [] := by simp [hexGroup]

theorem length_hexGroup_le (x : ℕ) : (hexGroup x).length ≤ 4 := by
  simp only [hexGroup, List.length_append, List.length_singleton]
  split <;> split <;> split <;> simp

theorem isSome_hexVal?_of_mem_hexGroup {x : ℕ} (hx : x < 65536) {c : Char} (hc : c ∈ hexGroup x) :
    (hexVal? c).isSome := by
  have key : ∀ d < 16, (hexVal? (hexDigit d)).isSome := fun d hd => by
    rw [hexVal?_hexDigit hd]; rfl
  have hite : ∀ (p : Prop) [Decidable p] (d : ℕ), c ∈ (if p then [hexDigit d] else []) →
      c = hexDigit d := fun p _ d h => by split at h <;> simp_all
  simp only [hexGroup, List.mem_append, List.mem_singleton] at hc
  rcases hc with ((hc | hc) | hc) | rfl
  · rw [hite _ _ hc]; exact key _ (by omega)
  · rw [hite _ _ hc]; exact key _ (by omega)
  · rw [hite _ _ hc]; exact key _ (by omega)
  · exact key _ (by omega)

theorem hexGroupVal_hexGroup {x : ℕ} (hx : x < 65536) : hexGroupVal (hexGroup x) = x := by
  simp only [hexGroupVal, hexGroup, List.foldl_append, List.foldl_cons, List.foldl_nil,
    hexVal?_hexDigit (show x % 16 < 16 by omega), Option.getD_some]
  split <;> split <;> split <;>
    simp only [List.foldl_cons, List.foldl_nil, Option.getD_some, Nat.zero_mul, Nat.zero_add,
      hexVal?_hexDigit (show x / 0x1000 < 16 by omega),
      hexVal?_hexDigit (show x / 0x100 % 16 < 16 by omega),
      hexVal?_hexDigit (show x / 0x10 % 16 < 16 by omega)] <;> omega

/-- The digits of a group are what the parser takes off the front, up to any other character. -/
theorem span_hexGroup {x : ℕ} (hx : x < 65536) (rest : List Char)
    (hrest : ∀ c cs, rest = c :: cs → hexVal? c = none) :
    ((hexGroup x ++ rest).takeWhile fun c => (hexVal? c).isSome) = hexGroup x ∧
      ((hexGroup x ++ rest).dropWhile fun c => (hexVal? c).isSome) = rest := by
  have hall : ∀ c ∈ hexGroup x, (fun c => (hexVal? c).isSome) c = true :=
    fun c hc => isSome_hexVal?_of_mem_hexGroup hx hc
  rw [List.takeWhile_append_of_pos hall, List.dropWhile_append_of_pos hall]
  cases rest with
  | nil => simp
  | cons c cs => simp [hrest c cs rfl]

/-! ### One group at a time -/

variable {x room : ℕ} {ws : List ℕ} {ell : Option ℕ}

/-- The last group. -/
theorem parse6Loop_end (hx : x < 65536) :
    parse6Loop (room + 1) (hexGroup x) ws ell = some (ws ++ [x], ell) := by
  obtain ⟨ht, hd⟩ := span_hexGroup hx [] (by simp)
  rw [List.append_nil] at ht hd
  rw [parse6Loop]
  simp only [ht, hd, hexGroup_ne_nil, false_or, hexGroupVal_hexGroup hx,
    if_neg (Nat.not_lt.mpr (length_hexGroup_le x))]

/-- A group with one colon and more text behind it. -/
theorem parse6Loop_colon (hx : x < 65536) {c : Char} {cs : List Char} (hc : c ≠ ':') :
    parse6Loop (room + 1) (hexGroup x ++ ':' :: c :: cs) ws ell =
      parse6Loop room (c :: cs) (ws ++ [x]) ell := by
  obtain ⟨ht, hd⟩ := span_hexGroup hx (':' :: c :: cs)
    (fun c' cs' h => by obtain ⟨rfl, -⟩ := List.cons.inj h; decide)
  rw [parse6Loop]
  simp only [ht, hd, hexGroup_ne_nil, false_or, hexGroupVal_hexGroup hx,
    if_neg (Nat.not_lt.mpr (length_hexGroup_le x))]
  split
  · next h => simp at h
  · next h => simp at h
  · next h => simp at h
  · next h => exact absurd (List.cons.inj (List.cons.inj h).2).1 hc
  · next h => rw [← (List.cons.inj h).2]
  · next h => exact absurd rfl (h (c :: cs))

/-- A group with two colons behind it. -/
theorem parse6Loop_colons (hx : x < 65536) {cs : List Char} :
    parse6Loop (room + 1) (hexGroup x ++ ':' :: ':' :: cs) ws none =
      if cs = [] then some (ws ++ [x], some (ws.length + 1))
      else parse6Loop room cs (ws ++ [x]) (some (ws.length + 1)) := by
  obtain ⟨ht, hd⟩ := span_hexGroup hx (':' :: ':' :: cs)
    (fun c' cs' h => by obtain ⟨rfl, -⟩ := List.cons.inj h; decide)
  rw [parse6Loop]
  simp only [ht, hd, hexGroup_ne_nil, false_or, hexGroupVal_hexGroup hx,
    if_neg (Nat.not_lt.mpr (length_hexGroup_le x)), Option.isSome_none, Bool.false_eq_true,
    if_false]

/-! ### Runs of groups -/

theorem joinGroups_head {xs : List ℕ} (hne : xs ≠ []) (hxs : ∀ y ∈ xs, y < 65536) :
    ∃ c cs, joinGroups xs = c :: cs ∧ (hexVal? c).isSome := by
  obtain ⟨y, ys, rfl⟩ := List.exists_cons_of_ne_nil hne
  obtain ⟨c, cs, hc⟩ := List.exists_cons_of_ne_nil (hexGroup_ne_nil y)
  have hsome : (hexVal? c).isSome :=
    isSome_hexVal?_of_mem_hexGroup (hxs y (by simp)) (by rw [hc]; simp)
  cases ys with
  | nil => exact ⟨c, cs, by rw [joinGroups, hc], hsome⟩
  | cons z zs => exact ⟨c, cs ++ ':' :: joinGroups (z :: zs), by rw [joinGroups, hc]; rfl, hsome⟩

theorem ne_colon_of_hexVal? {c : Char} (h : (hexVal? c).isSome) : c ≠ ':' := by
  rintro rfl
  exact absurd h (by decide)

/-- The parser reads a printed run of groups back. -/
theorem parse6Loop_joinGroups {xs : List ℕ} (hne : xs ≠ []) (hxs : ∀ y ∈ xs, y < 65536)
    (hroom : xs.length ≤ room) : parse6Loop room (joinGroups xs) ws ell = some (ws ++ xs, ell) := by
  induction xs generalizing room ws with
  | nil => exact absurd rfl hne
  | cons y ys ih =>
    obtain ⟨r, rfl⟩ : ∃ r, room = r + 1 := ⟨room - 1, by simp at hroom; omega⟩
    cases ys with
    | nil => exact parse6Loop_end (hxs y (by simp))
    | cons z zs =>
      have hzs : ∀ w ∈ z :: zs, w < 65536 := fun w hw => hxs w (List.mem_cons_of_mem _ hw)
      obtain ⟨c, cs, hc, hsome⟩ := joinGroups_head (List.cons_ne_nil z zs) hzs
      rw [joinGroups, hc, parse6Loop_colon (hxs y (by simp)) (ne_colon_of_hexVal? hsome), ← hc,
        ih (by simp) hzs (by simpa using hroom), List.append_assoc]
      rfl

/-- The parser reads two printed runs with `::` between them back. -/
theorem parse6Loop_elided {xs ys : List ℕ} (hne : xs ≠ []) (hxs : ∀ y ∈ xs, y < 65536)
    (hys : ∀ y ∈ ys, y < 65536) (hroom : xs.length + ys.length ≤ room) :
    parse6Loop room (joinGroups xs ++ ':' :: ':' :: joinGroups ys) ws none =
      some (ws ++ xs ++ ys, some (ws.length + xs.length)) := by
  induction xs generalizing room ws with
  | nil => exact absurd rfl hne
  | cons x xs ih =>
    obtain ⟨r, rfl⟩ : ∃ r, room = r + 1 := ⟨room - 1, by simp at hroom; omega⟩
    have hx := hxs x (by simp)
    cases xs with
    | nil =>
      rw [joinGroups, parse6Loop_colons hx]
      by_cases hy : ys = []
      · simp [hy, joinGroups]
      · obtain ⟨c, cs, hc, -⟩ := joinGroups_head hy hys
        rw [if_neg (by simp [hc]), parse6Loop_joinGroups hy hys (by simp at hroom; omega)]
        rfl
    | cons z zs =>
      have hzs : ∀ w ∈ z :: zs, w < 65536 := fun w hw => hxs w (List.mem_cons_of_mem _ hw)
      obtain ⟨c, cs, hc, hsome⟩ := joinGroups_head (List.cons_ne_nil z zs) hzs
      rw [joinGroups, List.append_assoc, List.cons_append, hc, List.cons_append,
        parse6Loop_colon hx (ne_colon_of_hexVal? hsome), ← List.cons_append, ← hc,
        ih (by simp) hzs (by simp at hroom ⊢; omega)]
      simp only [List.append_assoc, List.cons_append, List.nil_append, List.length_append,
        List.length_cons, List.length_nil, Option.some.injEq, Prod.mk.injEq, true_and]
      omega

/-! ### The elided run -/

theorem eq_replicate_zeroRun (ws : List ℕ) :
    ws = List.replicate (zeroRun ws) 0 ++ ws.drop (zeroRun ws) := by
  have hz : ws.takeWhile (· = 0) = List.replicate (zeroRun ws) 0 :=
    List.eq_replicate_iff.mpr ⟨rfl, fun b hb => by simpa using List.mem_takeWhile_imp hb⟩
  have hsplit := List.takeWhile_append_dropWhile (p := fun w : ℕ => decide (w = 0)) (l := ws)
  have hd : ws.drop (zeroRun ws) = ws.dropWhile (· = 0) := by
    have h : (ws.takeWhile (· = 0) ++ ws.dropWhile (· = 0)).drop (ws.takeWhile (· = 0)).length =
        ws.dropWhile (· = 0) := List.drop_left
    rwa [hsplit] at h
  rw [hd, ← hz]
  exact hsplit.symm

/-- Whatever run the printer elides is a run of zeros. -/
theorem longestZeros_spec (ws : List ℕ) :
    ws = ws.take (longestZeros ws).1 ++ List.replicate (longestZeros ws).2 0 ++
      ws.drop ((longestZeros ws).1 + (longestZeros ws).2) := by
  suffices h : ws.drop (longestZeros ws).1 = List.replicate (longestZeros ws).2 0 ++
      ws.drop ((longestZeros ws).1 + (longestZeros ws).2) by
    conv_lhs => rw [← List.take_append_drop (longestZeros ws).1 ws, h]
    rw [List.append_assoc]
  -- the invariant of the fold: the best run so far is a run of zeros
  rw [longestZeros]
  refine List.foldlRecOn (motive := fun best : ℕ × ℕ => ws.drop best.1 =
    List.replicate best.2 0 ++ ws.drop (best.1 + best.2)) _ _ (by simp) ?_
  intro best hbest i _
  dsimp only
  split
  · rw [← List.drop_drop]
    exact eq_replicate_zeroRun _
  · exact hbest

/-- Printing and parsing eight groups. -/
theorem parse6_string6 {ws : List ℕ} (hlen : ws.length = 8) (hws : ∀ w ∈ ws, w < 65536) :
    parse6 (string6 ws) = some (ofGroups ws) := by
  have hspec := longestZeros_spec ws
  set z := longestZeros ws with hz
  have hpre : ∀ w ∈ ws.take z.1, w < 65536 := fun w hw => hws w (List.mem_of_mem_take hw)
  have hsuf : ∀ w ∈ ws.drop (z.1 + z.2), w < 65536 := fun w hw => hws w (List.mem_of_mem_drop hw)
  have hsum := congrArg List.length hspec
  simp only [hlen, List.length_append, List.length_replicate] at hsum
  have third : ∀ c cs, (hexVal? c).isSome → parse6 (c :: cs) =
      ((parse6Loop 8 (c :: cs) [] none).bind expand).map ofGroups := by
    intro c cs hc
    unfold parse6
    split
    · next h => exact absurd (List.cons.inj h).1 (ne_colon_of_hexVal? hc)
    · next h => exact absurd (List.cons.inj h).1 (ne_colon_of_hexVal? hc)
    · rfl
  rw [string6, ← hz]
  by_cases h0 : z.2 = 0
  · -- nothing elided
    have hne : ws ≠ [] := by rintro rfl; simp at hlen
    obtain ⟨c, cs, hc, hsome⟩ := joinGroups_head hne hws
    rw [if_pos h0, hc, third c cs hsome, ← hc, parse6Loop_joinGroups hne hws (by omega)]
    simp [expand, hlen]
  · rw [if_neg h0]
    by_cases hp : ws.take z.1 = []
    · rw [hp, List.nil_append] at hspec
      rw [hp]
      simp only [hp, List.length_nil, Nat.zero_add] at hsum
      by_cases hs : ws.drop (z.1 + z.2) = []
      · -- the unspecified address
        rw [hs, List.append_nil] at hspec
        have hz8 : z.2 = 8 := by simp only [hs, List.length_nil] at hsum; omega
        rw [hs, hspec, hz8]
        decide
      · obtain ⟨c, cs, hc, hsome⟩ := joinGroups_head hs hsuf
        have hstep : parse6 (joinGroups [] ++ ':' :: ':' :: joinGroups (ws.drop (z.1 + z.2))) =
            ((parse6Loop 8 (joinGroups (ws.drop (z.1 + z.2))) [] (some 0)).bind expand).map
              ofGroups := by
          rw [hc]; rfl
        have h8 : (ws.drop (z.1 + z.2)).length < 8 := by omega
        rw [hstep, parse6Loop_joinGroups hs hsuf (by omega)]
        simp only [List.nil_append, Option.bind_some, expand, if_pos h8, List.take_zero,
          List.drop_zero, Option.map_some]
        rw [show 8 - (ws.drop (z.1 + z.2)).length = z.2 by omega, ← hspec]
    · obtain ⟨c, cs, hc, hsome⟩ := joinGroups_head hp hpre
      have h8 : (ws.take z.1 ++ ws.drop (z.1 + z.2)).length < 8 := by
        rw [List.length_append]; omega
      rw [hc, List.cons_append, third _ _ hsome, ← List.cons_append, ← hc,
        parse6Loop_elided hp hpre hsuf (by omega)]
      simp only [List.nil_append, Option.bind_some, expand, if_pos h8, List.length_nil,
        Nat.zero_add, Option.map_some, List.take_left, List.drop_left]
      rw [show 8 - (ws.take z.1 ++ ws.drop (z.1 + z.2)).length = z.2 by
        rw [List.length_append]; omega, ← hspec]

/-! ### The round trip -/

/-- The part of a number above a group, and the group. -/
theorem div_pow_mul_add_mod (n i : ℕ) :
    n / 65536 ^ (i + 1) * 65536 + n / 65536 ^ i % 65536 = n / 65536 ^ i := by
  rw [pow_succ, ← Nat.div_div_eq_div_mul]
  exact Nat.div_add_mod' _ _

theorem ofGroups_groups (a : BitVec 128) : ofGroups (groups a) = a := by
  have htop : a.toNat / 65536 ^ 7 % 65536 = a.toNat / 65536 ^ 7 :=
    Nat.mod_eq_of_lt (Nat.div_lt_of_lt_mul a.isLt)
  apply BitVec.eq_of_toNat_eq
  simp only [ofGroups, groups, List.map_cons, List.map_nil, List.foldl_cons, List.foldl_nil,
    BitVec.toNat_ofNat]
  rw [Nat.zero_mul, Nat.zero_add, htop, div_pow_mul_add_mod _ 6, div_pow_mul_add_mod _ 5,
    div_pow_mul_add_mod _ 4, div_pow_mul_add_mod _ 3, div_pow_mul_add_mod _ 2,
    div_pow_mul_add_mod _ 1, div_pow_mul_add_mod _ 0, pow_zero, Nat.div_one,
    Nat.mod_eq_of_lt a.isLt]

theorem groups_lt (a : BitVec 128) : ∀ w ∈ groups a, w < 65536 := by
  intro w hw
  obtain ⟨i, -, rfl⟩ := List.mem_map.mp hw
  exact Nat.mod_lt _ (by omega)

theorem isSome_hexVal?_of_decVal? {c : Char} (h : (decVal? c).isSome) : (hexVal? c).isSome := by
  unfold decVal? at h
  unfold hexVal?
  split at h
  · next hc => rw [if_pos hc]; rfl
  · simp at h

theorem string4_head (a : BitVec 32) : ∃ c cs, string4 a = c :: cs ∧ (hexVal? c).isSome := by
  have ha := a.isLt
  obtain ⟨c, cs, hc⟩ := List.exists_cons_of_ne_nil (octet_ne_nil (a.toNat / 2 ^ 24))
  refine ⟨c, _, by rw [string4, hc]; rfl, ?_⟩
  exact isSome_hexVal?_of_decVal?
    (isSome_decVal?_of_mem_octet (n := a.toNat / 2 ^ 24) (by omega) (by rw [hc]; simp))

/-- The group the parser sees at the front of a dotted quad is its first octet. -/
theorem span_string4 (a : BitVec 32) :
    ((string4 a).takeWhile fun c => (hexVal? c).isSome) = octet (a.toNat / 2 ^ 24) ∧
      ∃ rest, ((string4 a).dropWhile fun c => (hexVal? c).isSome) = '.' :: rest := by
  have ha := a.isLt
  have hall : ∀ c ∈ octet (a.toNat / 2 ^ 24), (fun c => (hexVal? c).isSome) c = true :=
    fun c hc => isSome_hexVal?_of_decVal? (isSome_decVal?_of_mem_octet (by omega) hc)
  have hdot : hexVal? '.' = none := by decide
  simp only [string4, List.append_assoc, List.cons_append]
  rw [List.takeWhile_append_of_pos hall, List.dropWhile_append_of_pos hall]
  simp [hdot]

/-- An IPv4-mapped address is read back through its embedded IPv4 part. -/
theorem parse6_mapped {a : BitVec 128} (h : a.toNat / 2 ^ 32 = 0xffff) :
    parse6 ("::ffff:".toList ++ string4 (a.setWidth 32)) = some a := by
  set b := a.setWidth 32 with hb
  have hbn : b.toNat = a.toNat % 2 ^ 32 := by rw [hb, BitVec.toNat_setWidth]
  have hblt := b.isLt
  obtain ⟨c, cs, hc, hsome⟩ := string4_head b
  obtain ⟨hds, rest, hrest⟩ := span_string4 b
  have hstep : parse6 ("::ffff:".toList ++ string4 b) =
      ((parse6Loop 8 (hexGroup 0xffff ++ ':' :: string4 b) [] (some 0)).bind expand).map
        ofGroups := rfl
  have hlen : (octet (b.toNat / 2 ^ 24)).length ≤ 4 := by
    unfold octet; split <;> [simp; (split <;> simp)]
  rw [hstep, hc, parse6Loop_colon (by omega) (ne_colon_of_hexVal? hsome), ← hc, parse6Loop]
  simp only [hds, hrest, octet_ne_nil, false_or, if_neg (Nat.not_lt.mpr hlen), parse4_string4]
  simp only [reduceCtorEq, false_and, List.nil_append, List.length_singleton, false_or,
    show ¬ (6 < 1) by omega, if_false, Option.map_some, Option.bind_some, expand]
  apply congrArg some
  apply BitVec.eq_of_toNat_eq
  simp [ofGroups, hbn, List.replicate]
  omega

theorem mem_string4 {a : BitVec 32} {c : Char} (hc : c ∈ string4 a) :
    (decVal? c).isSome ∨ c = '.' := by
  have ha := a.isLt
  simp only [string4, List.append_assoc, List.cons_append, List.mem_append, List.mem_cons] at hc
  rcases hc with hc | rfl | hc | rfl | hc | rfl | hc
  · exact .inl (isSome_decVal?_of_mem_octet (by omega) hc)
  · exact .inr rfl
  · exact .inl (isSome_decVal?_of_mem_octet (by omega) hc)
  · exact .inr rfl
  · exact .inl (isSome_decVal?_of_mem_octet (by omega) hc)
  · exact .inr rfl
  · exact .inl (isSome_decVal?_of_mem_octet (by omega) hc)

/-- A text whose characters are digits and colons, with a colon among them, is read as IPv6. -/
theorem parseChars_of_colon {s : List Char} (hs : ∀ c ∈ s, (hexVal? c).isSome ∨ c = ':')
    (hcolon : ':' ∈ s) : parseChars s = (parse6 s).map fun a => .v6 a "" := by
  have hfind : s.find? (fun c => decide (c = '.' ∨ c = ':' ∨ c = '%')) = some ':' := by
    obtain ⟨c, hc⟩ := Option.isSome_iff_exists.mp
      (List.find?_isSome (p := fun c => decide (c = '.' ∨ c = ':' ∨ c = '%')).mpr
        ⟨':', hcolon, by decide⟩)
    have hmem := List.mem_of_find?_eq_some hc
    have hp := List.find?_some hc
    simp only [decide_eq_true_eq] at hp
    rcases hs c hmem with h | rfl
    · rcases hp with rfl | rfl | rfl <;> exact absurd h (by decide)
    · exact hc
  have hpct : '%' ∉ s := fun h => by rcases hs _ h with h | h <;> exact absurd h (by decide)
  rw [parseChars, hfind]
  simp only [cut_of_not_mem hpct, Option.getD_none]

theorem mem_joinGroups {xs : List ℕ} (hxs : ∀ y ∈ xs, y < 65536) {c : Char}
    (hc : c ∈ joinGroups xs) : (hexVal? c).isSome ∨ c = ':' := by
  induction xs with
  | nil => simp [joinGroups] at hc
  | cons y ys ih =>
    cases ys with
    | nil => exact .inl (isSome_hexVal?_of_mem_hexGroup (hxs y (by simp)) hc)
    | cons z zs =>
      rw [joinGroups, List.mem_append, List.mem_cons] at hc
      rcases hc with hc | hc | hc
      · exact .inl (isSome_hexVal?_of_mem_hexGroup (hxs y (by simp)) hc)
      · exact .inr hc
      · exact ih (fun w hw => hxs w (List.mem_cons_of_mem _ hw)) hc

theorem mem_string6 {ws : List ℕ} (hws : ∀ w ∈ ws, w < 65536) {c : Char} (hc : c ∈ string6 ws) :
    (hexVal? c).isSome ∨ c = ':' := by
  unfold string6 at hc
  dsimp only at hc
  split at hc
  · exact mem_joinGroups hws hc
  · rw [List.mem_append, List.mem_cons, List.mem_cons] at hc
    rcases hc with hc | hc | hc | hc
    · exact mem_joinGroups (fun w hw => hws w (List.mem_of_mem_take hw)) hc
    · exact .inr hc
    · exact .inr hc
    · exact mem_joinGroups (fun w hw => hws w (List.mem_of_mem_drop hw)) hc

theorem colon_mem_string6 {ws : List ℕ} (hlen : 2 ≤ ws.length) : ':' ∈ string6 ws := by
  unfold string6
  dsimp only
  split
  · match ws, hlen with
    | x :: y :: xs, _ => simp [joinGroups]
  · simp

/-- The characters of a printed address. -/
theorem mem_chars {a : Addr} {c : Char} (hc : c ∈ a.chars) :
    (decVal? c).isSome ∨ (hexVal? c).isSome ∨ c ∈ ['.', ':', '%'] ∨ c ∈ a.zone.toList := by
  have h4 : ∀ b : BitVec 32, c ∈ string4 b → (decVal? c).isSome ∨ (hexVal? c).isSome ∨
      c ∈ ['.', ':', '%'] ∨ c ∈ a.zone.toList := by
    intro b hb
    rcases mem_string4 hb with h | rfl
    · exact .inl h
    · exact .inr (.inr (.inl (by decide)))
  cases a with
  | v4 a => exact h4 a hc
  | v6 a z =>
    rw [Addr.chars, List.mem_append] at hc
    rcases hc with hc | hc
    · split_ifs at hc
      · rcases List.mem_append.mp hc with hc | hc
        · have hlit : "::ffff:".toList.all
              (fun c => (hexVal? c).isSome ∨ c ∈ ['.', ':', '%']) = true := by decide
          rcases of_decide_eq_true (List.all_eq_true.mp hlit c hc) with h | h
          · exact .inr (.inl h)
          · exact .inr (.inr (.inl h))
        · exact h4 _ hc
      · rcases mem_string6 (groups_lt a) hc with h | rfl
        · exact .inr (.inl h)
        · exact .inr (.inr (.inl (by decide)))
    · split_ifs at hc
      · exact absurd hc List.not_mem_nil
      · rcases List.mem_cons.mp hc with rfl | hc
        · exact .inr (.inr (.inl (by decide)))
        · exact .inr (.inr (.inr hc))

/-- **Parsing undoes printing**, for every address without a zone. -/
theorem parseChars_chars {a : Addr} (hz : a.zone = "") : parseChars a.chars = some a := by
  cases a with
  | v4 a =>
    have ha := a.isLt
    -- the digits of the first octet come before the first separator, which is a dot
    have hdig : ∀ c ∈ octet (a.toNat / 2 ^ 24),
        ¬ decide (c = '.' ∨ c = ':' ∨ c = '%') = true := by
      intro c hc h
      have hsome := isSome_decVal?_of_mem_octet (by omega) hc
      simp only [decide_eq_true_eq] at h
      rcases h with rfl | rfl | rfl <;> exact absurd hsome (by decide)
    have hfind : (string4 a).find? (fun c => decide (c = '.' ∨ c = ':' ∨ c = '%')) = some '.' := by
      simp only [string4, List.append_assoc, List.cons_append]
      rw [List.find?_append, List.find?_eq_none.mpr hdig]
      rfl
    rw [Addr.chars, parseChars, hfind]
    simp only [parse4_string4, Option.map_some, ofOctets_eq]
  | v6 a z =>
    obtain rfl : z = "" := hz
    simp only [Addr.chars, if_true, List.append_nil]
    split
    · next hm =>
      have hfind : ("::ffff:".toList ++ string4 (a.setWidth 32)).find?
          (fun c => decide (c = '.' ∨ c = ':' ∨ c = '%')) = some ':' := rfl
      have hpct : '%' ∉ "::ffff:".toList ++ string4 (a.setWidth 32) := by
        rw [List.mem_append, not_or]
        refine ⟨by decide, ?_⟩
        intro h
        rcases mem_string4 h with h | h <;> exact absurd h (by decide)
      rw [parseChars, hfind]
      simp only [cut_of_not_mem hpct, parse6_mapped hm, Option.map_some, Option.getD_none]
    · have hlen : (groups a).length = 8 := rfl
      rw [parseChars_of_colon (fun c hc => mem_string6 (groups_lt a) hc)
        (colon_mem_string6 (by omega)), parse6_string6 hlen (groups_lt a), ofGroups_groups]
      rfl

@[simp] theorem toList_addrString (a : Addr) : a.string.toList = a.chars := by
  simp [Addr.string]

/-! ### Prefixes -/

theorem cutLast_append {sep : Char} {ys : List Char} (h : sep ∉ ys) (xs : List Char) :
    cutLast sep (xs ++ sep :: ys) = some (xs, ys) := by
  have hr : (xs ++ sep :: ys).reverse = ys.reverse ++ sep :: xs.reverse := by simp
  rw [cutLast, hr, cut_append (by simpa using h)]
  simp

/-- What `ParsePrefix` makes of a printed address with a length behind it. -/
theorem parsePrefix_string_append {a : Addr} (hz : a.zone = "") (ds : List Char) {n : ℕ}
    (hds : '/' ∉ ds) (hn : parseBits ds = some n) :
    parsePrefix (a.string ++ String.ofList ('/' :: ds)) =
      if h : n ≤ a.bitLen then some ⟨a, n, h, hz⟩ else none := by
  have hl : (a.string ++ String.ofList ('/' :: ds)).toList = a.chars ++ '/' :: ds := by simp
  rw [parsePrefix, hl, cutLast_append hds]
  simp only [Option.bind_some, parseChars_chars hz, hn, hz, and_true]

/-- `a/32` for an IPv4 address is the prefix of that address alone. -/
theorem parsePrefix_v4_32 (a : BitVec 32) :
    parsePrefix ((Addr.v4 a).string ++ "/32") = some (Prefix.single (.v4 a) rfl) :=
  (parsePrefix_string_append rfl "32".toList (by decide) (by decide : _ = some 32)).trans
    (dif_pos (le_refl 32))

/-- `a/128` for an IPv6 address is the prefix of that address alone. -/
theorem parsePrefix_v6_128 (a : BitVec 128) :
    parsePrefix ((Addr.v6 a "").string ++ "/128") = some (Prefix.single (.v6 a "") rfl) :=
  (parsePrefix_string_append rfl "128".toList (by decide) (by decide : _ = some 128)).trans
    (dif_pos (le_refl 128))

/-- `a/128` for an IPv4 address is refused. -/
theorem parsePrefix_v4_128 (a : BitVec 32) : parsePrefix ((Addr.v4 a).string ++ "/128") = none :=
  (parsePrefix_string_append rfl "128".toList (by decide) (by decide : _ = some 128)).trans
    (dif_neg (by simp))

end Netip
