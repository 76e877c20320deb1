import OverMesh.Internal.GoBytes
import OverMesh.Key

/-!
# Reading keys from bytes

`UnmarshalText` of the public keys reads any bytes into a key that is already there. Here it is byte
by byte, with what becomes of the target. What `Key` has about texts is the case of bytes that are
one: on these the two agree.

## Main definitions

* `unmarshalInto`, `MachinePublic.unmarshalInto`, `NodePublic.unmarshalInto`
* `TextForm` — what makes the text of a key one

## Main results

* `unmarshalPrefixed_eq_some_iff` — reading a text is reading its bytes
* `publicKey_textForms` — **both kinds of keys have text forms, and no bytes are read as both**
-/

namespace OverMesh

namespace Key

open GoText GoBytes

/-! ### Hexadecimal -/

/-- The errors of `hex.DecodeString`. -/
inductive HexError where
  | invalidByte (b : UInt8)
  | length
  deriving DecidableEq

/-- `hex.DecodeString`. -/
def decodeBytes : List UInt8 → Except HexError (List UInt8)
  | [] => .ok []
  | [p] => if (byteVal? p).isNone then .error (.invalidByte p) else .error .length
  | p :: q :: rest =>
    match byteVal? p with
    | none => .error (.invalidByte p)
    | some hi =>
      match byteVal? q with
      | none => .error (.invalidByte q)
      | some lo => (decodeBytes rest).map (UInt8.ofNat (hi * 16 + lo) :: ·)

/-- Why a key is refused: what was read, and the prefix it should have, or what is wrong with the
digits. -/
inductive KeyError where
  | shape (b pre : List UInt8)
  | digits (b : List UInt8) (e : HexError)
  deriving DecidableEq

/-- `copy(out[:], raw)`. -/
def copyInto (out : Bytes32) (raw : List UInt8) : Bytes32 :=
  ⟨raw.take 32 ++ out.val.drop raw.length, by
    rw [List.length_append, List.length_take, List.length_drop, out.property]
    omega⟩

/-- `unmarshalPrefixed`, with the error it returns and what it leaves in `out`. -/
def unmarshalInto (pre b : List UInt8) (out : Bytes32) : Except KeyError Unit × Bytes32 :=
  if b.length ≠ pre.length + 64 ∨ b.take pre.length ≠ pre then (.error (.shape b pre), out)
  else match decodeBytes (b.drop pre.length) with
    | .error e => (.error (.digits b e), out)
    | .ok raw => (.ok (), copyInto out raw)

/-- `UnmarshalText` of a machine key. -/
def MachinePublic.unmarshalInto (p : MachinePublic) (b : List UInt8) :
    Except KeyError Unit × MachinePublic :=
  let r := Key.unmarshalInto (bytes machinePrefix) b p.k
  (r.1, ⟨r.2⟩)

/-- `UnmarshalText` of a node key. -/
def NodePublic.unmarshalInto (p : NodePublic) (b : List UInt8) :
    Except KeyError Unit × NodePublic :=
  let r := Key.unmarshalInto (bytes nodePrefix) b p.k
  (r.1, ⟨r.2⟩)

section Digits

variable {b : UInt8} {ds raw : List UInt8}

/-- **What can be decoded**: an even number of digits. -/
theorem decodeBytes_ok_iff :
    (∃ raw, decodeBytes ds = .ok raw) ↔ ds.length % 2 = 0 ∧ ∀ d ∈ ds, IsHexDigit d := by
  induction ds using decodeBytes.induct with
  | case1 => simp [decodeBytes]
  | case2 p hnone => simp [decodeBytes, hnone]
  | case3 p hsome => simp [decodeBytes, hsome]
  | case4 p q rest hp =>
    have hdigit : ¬ IsHexDigit p := by
      rw [← byteVal?_isSome_iff, hp]
      exact Bool.false_ne_true
    simp [decodeBytes, hp, hdigit]
  | case5 p q rest hi hp hq =>
    have hdigit : ¬ IsHexDigit q := by
      rw [← byteVal?_isSome_iff, hq]
      exact Bool.false_ne_true
    simp [decodeBytes, hp, hq, hdigit]
  | case6 p q rest hi hp lo hq ih =>
    have hpdigit : IsHexDigit p := by
      rw [← byteVal?_isSome_iff, hp]
      rfl
    have hqdigit : IsHexDigit q := by
      rw [← byteVal?_isSome_iff, hq]
      rfl
    have hmap : (∃ raw, (decodeBytes rest).map (UInt8.ofNat (hi * 16 + lo) :: ·) = .ok raw) ↔
        ∃ raw, decodeBytes rest = .ok raw := by
      cases decodeBytes rest <;> simp [Except.map]
    simp only [decodeBytes, hp, hq, hmap, ih, List.length_cons, List.forall_mem_cons, hpdigit,
      hqdigit, true_and]
    rw [Nat.add_assoc, Nat.add_mod_right]

/-- Two digits make a byte. -/
theorem length_of_decodeBytes (h : decodeBytes ds = .ok raw) : ds.length = 2 * raw.length := by
  induction ds using decodeBytes.induct generalizing raw with
  | case1 =>
    obtain rfl := Except.ok.inj h
    rfl
  | case2 p hnone => simp [decodeBytes, hnone] at h
  | case3 p hsome => simp [decodeBytes, hsome] at h
  | case4 p q rest hp => simp [decodeBytes, hp] at h
  | case5 p q rest hi hp hq => simp [decodeBytes, hp, hq] at h
  | case6 p q rest hi hp lo hq ih =>
    simp only [decodeBytes, hp, hq] at h
    cases hrest : decodeBytes rest with
    | error e =>
      rw [hrest] at h
      cases h
    | ok raw' =>
      rw [hrest] at h
      obtain rfl := Except.ok.inj h
      have := ih hrest
      simp only [List.length_cons]
      omega

end Digits

/-! ### The target -/

section Target

variable {pre b : List UInt8} {out k : Bytes32} {e : KeyError}

/-- The key takes the place of the target. -/
theorem copyInto_of_length {raw : List UInt8} (h : raw.length = 32) (out : Bytes32) :
    copyInto out raw = ⟨raw, h⟩ := by
  have hout : out.val.length ≤ raw.length := by rw [out.property, h]
  refine Subtype.ext ?_
  show raw.take 32 ++ out.val.drop raw.length = raw
  rw [List.take_of_length_le h.le, List.drop_eq_nil_of_le hout, List.append_nil]

/-- **What is read**: the prefix and 64 digits. -/
theorem unmarshalInto_eq_ok_iff : unmarshalInto pre b out = (.ok (), k) ↔
    ∃ ds, b = pre ++ ds ∧ ds.length = 64 ∧ decodeBytes ds = .ok k.val := by
  rw [unmarshalInto]
  constructor
  · intro h
    by_cases hshape : b.length ≠ pre.length + 64 ∨ b.take pre.length ≠ pre
    · rw [if_pos hshape] at h
      cases h
    rw [if_neg hshape] at h
    rw [not_or, not_not, not_not] at hshape
    refine ⟨b.drop pre.length, ?_, ?_, ?_⟩
    · have hsplit := List.take_append_drop pre.length b
      rw [hshape.2] at hsplit
      exact hsplit.symm
    · rw [List.length_drop, hshape.1]
      omega
    · split at h
      · cases h
      · next raw hraw =>
        have hlen := length_of_decodeBytes hraw
        rw [List.length_drop, hshape.1] at hlen
        rw [copyInto_of_length (by omega)] at h
        rw [hraw, ← (Prod.mk.inj h).2]
  · rintro ⟨ds, rfl, hlen, hds⟩
    rw [if_neg (by simp [hlen]), List.drop_left, hds]
    simp only [copyInto_of_length k.property]
    rfl

theorem unmarshalInto_fst_ok_iff : (unmarshalInto pre b out).1 = .ok () ↔
    ∃ ds, b = pre ++ ds ∧ ds.length = 64 ∧ ∀ d ∈ ds, IsHexDigit d := by
  constructor
  · intro h
    have heq : unmarshalInto pre b out = (.ok (), (unmarshalInto pre b out).2) := by rw [← h]
    obtain ⟨ds, hb, hlen, hds⟩ := unmarshalInto_eq_ok_iff.mp heq
    exact ⟨ds, hb, hlen, (decodeBytes_ok_iff.mp ⟨_, hds⟩).2⟩
  · rintro ⟨ds, hb, hlen, hds⟩
    obtain ⟨raw, hraw⟩ := decodeBytes_ok_iff.mpr ⟨by rw [hlen], hds⟩
    have hlen' := length_of_decodeBytes hraw
    have heq : unmarshalInto pre b out = (.ok (), ⟨raw, by omega⟩) :=
      unmarshalInto_eq_ok_iff.mpr ⟨ds, hb, hlen, hraw⟩
    rw [heq]

/-- A target that is refused a key stays as it is. -/
theorem unmarshalInto_error (h : (unmarshalInto pre b out).1 = .error e) :
    (unmarshalInto pre b out).2 = out := by
  rw [unmarshalInto] at h ⊢
  split_ifs with hshape
  · rfl
  · rw [if_neg hshape] at h
    split at h
    · rfl
    · cases h

end Target

/-! ### Texts -/

section Texts

variable {pre s : String} {cs : List Char} {raw : List UInt8} {c : Char}

theorem lt_of_hexVal? (h : (hexVal? c).isSome) : c.toNat < 128 := by
  rw [hexVal?] at h
  have hle : ∀ d : Char, c ≤ d → c.toNat ≤ d.toNat := fun d hd => UInt32.le_iff_toNat_le.mp hd
  split_ifs at h with h1 h2 h3
  · exact (hle _ h1.2).trans_lt (by decide)
  · exact (hle _ h2.2).trans_lt (by decide)
  · exact (hle _ h3.2).trans_lt (by decide)
  · cases h

/-- A digit is a digit as a character and as a byte. -/
theorem hexVal?_eq_byteVal? (h : c.toNat < 128) : hexVal? c = byteVal? (UInt8.ofNat c.toNat) := by
  have htoNat : (UInt8.ofNat c.toNat).toNat = c.toNat := by
    rw [UInt8.toNat_ofNat', Nat.mod_eq_of_lt (by omega)]
  have hchar : ∀ d : Char, (d ≤ c ↔ d.toNat ≤ c.toNat) ∧ (c ≤ d ↔ c.toNat ≤ d.toNat) := fun d =>
    ⟨UInt32.le_iff_toNat_le, UInt32.le_iff_toNat_le⟩
  rw [hexVal?, byteVal?]
  simp only [hchar, UInt8.le_iff_toNat_le, htoNat]
  rfl

/-- Decoding characters is decoding their bytes. -/
theorem hexDecode_eq_some_iff (h : ∀ c ∈ cs, c.toNat < 128) : hexDecode cs = some raw ↔
      decodeBytes (cs.map fun c => UInt8.ofNat c.toNat) = .ok raw := by
  induction cs using hexDecode.induct generalizing raw with
  | case1 => simp [hexDecode, decodeBytes]
  | case2 c =>
    simp only [hexDecode, List.map_singleton, decodeBytes]
    split_ifs <;> simp
  | case3 c c' cs ih =>
    rw [List.forall_mem_cons, List.forall_mem_cons] at h
    rw [hexDecode, hexVal?_eq_byteVal? h.1, hexVal?_eq_byteVal? h.2.1, List.map_cons, List.map_cons,
      decodeBytes]
    cases byteVal? (UInt8.ofNat c.toNat) with
    | none => simp
    | some hi =>
      cases byteVal? (UInt8.ofNat c'.toNat) with
      | none => simp
      | some lo =>
        simp only [Option.bind_some, Option.map_eq_some_iff, ih h.2.2]
        cases decodeBytes (cs.map fun c => UInt8.ofNat c.toNat) <;> simp [Except.map]

theorem ascii_of_hexDecode (h : hexDecode cs = some raw) (hc : c ∈ cs) : c.toNat < 128 := by
  induction cs using hexDecode.induct generalizing raw with
  | case1 => exact absurd hc List.not_mem_nil
  | case2 c => cases h
  | case3 d d' cs ih =>
    simp only [hexDecode, Option.bind_eq_some_iff, Option.map_eq_some_iff] at h
    obtain ⟨hi, hhi, lo, hlo, raw', hraw', -⟩ := h
    rcases List.mem_cons.mp hc with rfl | hc
    · exact lt_of_hexVal? (by rw [hhi]; rfl)
    · rcases List.mem_cons.mp hc with rfl | hc
      · exact lt_of_hexVal? (by rw [hlo]; rfl)
      · exact ih hraw' hc

/-- **Reading a text is reading its bytes.** -/
theorem unmarshalPrefixed_eq_some_iff (hpre : ∀ c ∈ pre.toList, c.toNat < 128) {k : Bytes32}
    (out : Bytes32) : unmarshalPrefixed pre s = some k ↔
      unmarshalInto (bytes pre) (bytes s) out = (.ok (), k) := by
  rw [unmarshalInto_eq_ok_iff, bytes_of_ascii hpre]
  constructor
  · intro h
    simp only [unmarshalPrefixed, Option.ite_none_left_eq_some, Option.bind_eq_some_iff,
      Option.dite_none_right_eq_some, not_or, not_not] at h
    obtain ⟨⟨hlen, htake⟩, raw, hraw, hraw32, hk⟩ := h
    obtain rfl := Option.some.inj hk
    have hsplit := List.take_append_drop pre.toList.length s.toList
    rw [htake] at hsplit
    have hascii : ∀ c ∈ s.toList, c.toNat < 128 := by
      rw [← hsplit, List.forall_mem_append]
      exact ⟨hpre, fun c hc => ascii_of_hexDecode hraw hc⟩
    refine ⟨(s.toList.drop pre.toList.length).map fun c => UInt8.ofNat c.toNat, ?_, ?_, ?_⟩
    · rw [bytes_of_ascii hascii, ← List.map_append, hsplit]
    · rw [List.length_map, List.length_drop, hlen]
      omega
    · exact (hexDecode_eq_some_iff fun c hc => ascii_of_hexDecode hraw hc).mp hraw
  · rintro ⟨ds, hbytes, hlen, hds⟩
    have hascii : ∀ c ∈ s.toList, c.toNat < 128 := by
      refine fun c hc => ascii_of_bytes (fun b hb => ?_) hc
      rw [hbytes, List.mem_append] at hb
      rcases hb with hb | hb
      · obtain ⟨d, hd, rfl⟩ := List.mem_map.mp hb
        rw [UInt8.toNat_ofNat', Nat.mod_eq_of_lt (by have := hpre d hd; omega)]
        exact hpre d hd
      · exact ((decodeBytes_ok_iff.mp ⟨_, hds⟩).2 b hb).lt
    rw [bytes_of_ascii hascii] at hbytes
    obtain ⟨front, cs, hs, hfront, rfl⟩ := List.map_eq_append_iff.mp hbytes
    rw [hs, List.forall_mem_append] at hascii
    obtain rfl : front = pre.toList := by
      rw [← map_ofNat_of_ascii hascii.1, hfront, map_ofNat_of_ascii hpre]
    rw [List.length_map] at hlen
    rw [unmarshalPrefixed, hs, if_neg (by simp [hlen]), List.drop_left,
      (hexDecode_eq_some_iff hascii.2).mpr hds, Option.bind_some, dif_pos k.property]
    rfl

end Texts

/-! ### The two kinds of keys -/

/-- **What makes the text of a key one**: it is read back, whatever the target was, exactly the
texts of the right shape are read, a target that is refused stays as it is, and different keys have
different texts. -/
structure TextForm {κ : Type} (pre : String) (string : κ → String)
    (unmarshalText : κ → List UInt8 → Except KeyError Unit × κ) : Prop where
  read_string : ∀ p target, unmarshalText target (bytes (string p)) = (.ok (), p)
  accepts_iff : ∀ target b, (unmarshalText target b).1 = .ok () ↔
    ∃ ds, b = bytes pre ++ ds ∧ ds.length = 64 ∧ ∀ d ∈ ds, IsHexDigit d
  refuses : ∀ target b e, (unmarshalText target b).1 = .error e →
    (unmarshalText target b).2 = target
  string_injective : Function.Injective string

/-- A kind of keys that consists of 32 bytes and a prefix. -/
theorem TextForm.of_prefixed {κ : Type} {pre : String} (hpre : ∀ c ∈ pre.toList, c.toNat < 128)
    {k : κ → Bytes32} {mk : Bytes32 → κ} (hmk : ∀ p, mk (k p) = p) :
    TextForm pre (fun p => prefixedHex pre (k p)) fun p b =>
      ((unmarshalInto (bytes pre) b (k p)).1, mk (unmarshalInto (bytes pre) b (k p)).2) := by
  have hread : ∀ p target : κ,
      unmarshalInto (bytes pre) (bytes (prefixedHex pre (k p))) (k target) = (.ok (), k p) :=
    fun p target =>
    (unmarshalPrefixed_eq_some_iff hpre (k target)).mp (unmarshalPrefixed_prefixedHex pre (k p))
  refine ⟨fun p target => ?_, fun target b => unmarshalInto_fst_ok_iff, fun target b e h => ?_,
    fun p q h => ?_⟩
  · rw [hread, hmk]
  · rw [unmarshalInto_error h, hmk]
  · have hq := hread p p
    have h' : prefixedHex pre (k p) = prefixedHex pre (k q) := h
    rw [h', hread] at hq
    rw [← hmk p, ← hmk q, ← (Prod.mk.inj hq).2]

/-- The prefixes begin differently. -/
theorem append_ne_of_prefixes (ds ds' : List UInt8) :
    bytes machinePrefix ++ ds ≠ bytes nodePrefix ++ ds' := by
  intro h
  have hhead := congrArg List.head? h
  rw [List.head?_append, List.head?_append] at hhead
  have hm : (bytes machinePrefix).head? = some 109 := by decide
  have hn : (bytes nodePrefix).head? = some 110 := by decide
  rw [hm, hn] at hhead
  exact absurd (Option.some.inj hhead) (by decide)

/-- **The text forms of public keys.** A machine key and a node key is read back from its text; what
is read is exactly the prefix of the kind and 64 hexadecimal digits, and what is not read leaves the
target as it was; and no two keys, of one kind or both, have the same text, nor are any bytes read
as both. -/
theorem publicKey_textForms :
    TextForm machinePrefix MachinePublic.string MachinePublic.unmarshalInto ∧
      TextForm nodePrefix NodePublic.string NodePublic.unmarshalInto ∧
      (∀ (p : MachinePublic) (q : NodePublic), p.string ≠ q.string) ∧
      ∀ (p : MachinePublic) (q : NodePublic) (b : List UInt8),
        ¬ ((p.unmarshalInto b).1 = .ok () ∧ (q.unmarshalInto b).1 = .ok ()) := by
  have hm : TextForm machinePrefix MachinePublic.string MachinePublic.unmarshalInto :=
    TextForm.of_prefixed (ascii_of_all (by decide)) fun _ => rfl
  have hn : TextForm nodePrefix NodePublic.string NodePublic.unmarshalInto :=
    TextForm.of_prefixed (ascii_of_all (by decide)) fun _ => rfl
  have hboth : ∀ (p : MachinePublic) (q : NodePublic) (b : List UInt8),
      ¬ ((p.unmarshalInto b).1 = .ok () ∧ (q.unmarshalInto b).1 = .ok ()) := by
    rintro p q b ⟨hp, hq⟩
    obtain ⟨ds, hb, -⟩ := (hm.accepts_iff p b).mp hp
    obtain ⟨ds', hb', -⟩ := (hn.accepts_iff q b).mp hq
    exact append_ne_of_prefixes ds ds' (hb.symm.trans hb')
  refine ⟨hm, hn, fun p q h => ?_, hboth⟩
  refine hboth p q (bytes p.string) ⟨?_, ?_⟩
  · rw [hm.read_string p p]
  · rw [h, hn.read_string q q]

end Key

end OverMesh
