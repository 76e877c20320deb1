import Mathlib.Data.BitVec
import Mathlib.Tactic.Ring
import Mathlib.Tactic.Linarith

/-!
# IP addresses and prefixes

The part of Go's `net/netip` that an overlay network computes with: addresses of the two
families, their successor and unmapped form, and prefixes with `Contains` and `Masked`.

`Addr` has no zero value: where the Go code can meet an invalid `netip.Addr` (`Next` past the
last address), the function here is an `Option`. An IPv6 address carries its zone, since
`Contains` looks at it.

## Conventions

Every comparison of prefixes is stated on `Addr.toNat`, the address as a number, and on
`Prefix.hostBits`, the number of low bits a prefix leaves free. `Prefix.contains_iff_of_masked`
turns `Contains` into a pair of inequalities, which is the form `omega` can use.
-/

namespace Netip

/-- An IPv4 or IPv6 address. -/
inductive Addr where
  | v4 (a : BitVec 32)
  | v6 (a : BitVec 128) (zone : String)
  deriving DecidableEq

namespace Addr

/-- `Is4`. -/
def is4 : Addr → Bool
  | v4 _ => true
  | v6 _ _ => false

/-- `Is6`. True of IPv4-mapped addresses as well. -/
def is6 : Addr → Bool
  | v4 _ => false
  | v6 _ _ => true

/-- `Zone`, empty for IPv4. -/
def zone : Addr → String
  | v4 _ => ""
  | v6 _ z => z

/-- `BitLen`. -/
def bitLen : Addr → ℕ
  | v4 _ => 32
  | v6 _ _ => 128

/-- The address as a number. -/
def toNat : Addr → ℕ
  | v4 a => a.toNat
  | v6 a _ => a.toNat

/-- `Is4In6`: the address is in `::ffff:0:0/96`. -/
def is4In6 : Addr → Bool
  | v4 _ => false
  | v6 a _ => a.toNat / 2 ^ 32 == 0xffff

/-- `Unmap`: an IPv4-mapped address becomes its IPv4 address, any other is unchanged. -/
def unmap : Addr → Addr
  | v4 a => v4 a
  | v6 a z => if a.toNat / 2 ^ 32 = 0xffff then v4 (a.setWidth 32) else v6 a z

/-- `Next`, `none` past the last address of the family. -/
def next : Addr → Option Addr
  | v4 a => if a.toNat + 1 = 2 ^ 32 then none else some (v4 (a + 1))
  | v6 a z => if a.toNat + 1 = 2 ^ 128 then none else some (v6 (a + 1) z)

/-- The address with its low `h` bits cleared. -/
def mask (h : ℕ) : Addr → Addr
  | v4 a => v4 (BitVec.ofNat 32 (a.toNat / 2 ^ h * 2 ^ h))
  | v6 a z => v6 (BitVec.ofNat 128 (a.toNat / 2 ^ h * 2 ^ h)) z

@[simp] theorem is4_v4 (a : BitVec 32) : (v4 a).is4 = true := rfl
@[simp] theorem is4_v6 (a : BitVec 128) (z : String) : (v6 a z).is4 = false := rfl
@[simp] theorem zone_v4 (a : BitVec 32) : (v4 a).zone = "" := rfl
@[simp] theorem zone_v6 (a : BitVec 128) (z : String) : (v6 a z).zone = z := rfl
@[simp] theorem bitLen_v4 (a : BitVec 32) : (v4 a).bitLen = 32 := rfl
@[simp] theorem bitLen_v6 (a : BitVec 128) (z : String) : (v6 a z).bitLen = 128 := rfl
@[simp] theorem toNat_v4 (a : BitVec 32) : (v4 a).toNat = a.toNat := rfl
@[simp] theorem toNat_v6 (a : BitVec 128) (z : String) : (v6 a z).toNat = a.toNat := rfl
@[simp] theorem unmap_v4 (a : BitVec 32) : (v4 a).unmap = v4 a := rfl

@[simp] theorem is4_mask (h : ℕ) (a : Addr) : (a.mask h).is4 = a.is4 := by cases a <;> rfl
@[simp] theorem is6_mask (h : ℕ) (a : Addr) : (a.mask h).is6 = a.is6 := by cases a <;> rfl
@[simp] theorem zone_mask (h : ℕ) (a : Addr) : (a.mask h).zone = a.zone := by cases a <;> rfl
@[simp] theorem bitLen_mask (h : ℕ) (a : Addr) : (a.mask h).bitLen = a.bitLen := by cases a <;> rfl

theorem toNat_lt (a : Addr) : a.toNat < 2 ^ a.bitLen := by
  cases a with
  | v4 a => exact a.isLt
  | v6 a z => exact a.isLt

theorem bitLen_eq_of_is4_eq {a b : Addr} (h : a.is4 = b.is4) : a.bitLen = b.bitLen := by
  cases a <;> cases b <;> simp_all

/-- Family, zone and number determine an address. -/
theorem ext_toNat {a b : Addr} (hf : a.is4 = b.is4) (hz : a.zone = b.zone)
    (hn : a.toNat = b.toNat) : a = b := by
  cases a with
  | v4 a =>
    cases b with
    | v4 b => rw [BitVec.eq_of_toNat_eq hn]
    | v6 b z => simp at hf
  | v6 a z =>
    cases b with
    | v4 b => simp at hf
    | v6 b z' => rw [BitVec.eq_of_toNat_eq hn, show z = z' from hz]

theorem toNat_mask (h : ℕ) (a : Addr) : (a.mask h).toNat = a.toNat / 2 ^ h * 2 ^ h := by
  have hle : a.toNat / 2 ^ h * 2 ^ h ≤ a.toNat := Nat.div_mul_le_self _ _
  have hlt := a.toNat_lt
  cases a with
  | v4 a =>
    simp only [toNat_v4, bitLen_v4] at hle hlt
    simpa [mask] using Nat.mod_eq_of_lt (lt_of_le_of_lt hle hlt)
  | v6 a z =>
    simp only [toNat_v6, bitLen_v6] at hle hlt
    simpa [mask] using Nat.mod_eq_of_lt (lt_of_le_of_lt hle hlt)

/-- The successor is the next number of the same family and zone. -/
theorem next_eq_some_iff {a b : Addr} :
    a.next = some b ↔ b.is4 = a.is4 ∧ b.zone = a.zone ∧ b.toNat = a.toNat + 1 := by
  have hlt := a.toNat_lt
  have hlt' := b.toNat_lt
  constructor
  · intro h
    cases a with
    | v4 a =>
      simp only [next, Option.ite_none_left_eq_some, Option.some.injEq] at h
      obtain ⟨hne, rfl⟩ := h
      simp only [toNat_v4, bitLen_v4] at hlt
      refine ⟨rfl, rfl, ?_⟩
      simp only [toNat_v4, BitVec.toNat_add]
      simpa using Nat.mod_eq_of_lt (show a.toNat + 1 < 2 ^ 32 by omega)
    | v6 a z =>
      simp only [next, Option.ite_none_left_eq_some, Option.some.injEq] at h
      obtain ⟨hne, rfl⟩ := h
      simp only [toNat_v6, bitLen_v6] at hlt
      refine ⟨rfl, rfl, ?_⟩
      simp only [toNat_v6, BitVec.toNat_add]
      simpa using Nat.mod_eq_of_lt (show a.toNat + 1 < 2 ^ 128 by omega)
  · rintro ⟨hf, hz, hn⟩
    have hb : b.bitLen = a.bitLen := bitLen_eq_of_is4_eq hf
    rw [hb, hn] at hlt'
    cases a with
    | v4 a =>
      simp only [toNat_v4, bitLen_v4] at hlt' hn
      rw [next, if_neg (by omega), Option.some.injEq]
      refine ext_toNat hf.symm hz.symm ?_
      simp only [toNat_v4, BitVec.toNat_add, hn]
      simpa using Nat.mod_eq_of_lt (show a.toNat + 1 < 2 ^ 32 by omega)
    | v6 a z =>
      simp only [toNat_v6, bitLen_v6] at hlt' hn
      rw [next, if_neg (by omega), Option.some.injEq]
      refine ext_toNat hf.symm hz.symm ?_
      simp only [toNat_v6, BitVec.toNat_add, hn]
      simpa using Nat.mod_eq_of_lt (show a.toNat + 1 < 2 ^ 128 by omega)

end Addr

/-- A valid prefix. `PrefixFrom` strips the zone, so a prefix never has one. -/
structure Prefix where
  addr : Addr
  bits : ℕ
  bits_le : bits ≤ addr.bitLen
  zoneless : addr.zone = ""
  deriving DecidableEq

namespace Prefix

/-- The number of low address bits the prefix leaves free. -/
def hostBits (p : Prefix) : ℕ := p.addr.bitLen - p.bits

/-- `Contains`. Families must agree and an address with a zone is in no prefix. -/
def contains (p : Prefix) (ip : Addr) : Bool :=
  ip.is4 == p.addr.is4 && ip.zone == "" &&
    ip.toNat / 2 ^ p.hostBits == p.addr.toNat / 2 ^ p.hostBits

/-- `Masked`: the canonical form of the prefix, host bits cleared. -/
def masked (p : Prefix) : Prefix where
  addr := p.addr.mask p.hostBits
  bits := p.bits
  bits_le := by simpa using p.bits_le
  zoneless := by simpa using p.zoneless

/-- The prefix that holds one address, `a/32` or `a/128`. -/
def single (a : Addr) (h : a.zone = "") : Prefix := ⟨a, a.bitLen, le_refl _, h⟩

@[simp] theorem bits_masked (p : Prefix) : p.masked.bits = p.bits := rfl
@[simp] theorem is4_masked (p : Prefix) : p.masked.addr.is4 = p.addr.is4 := Addr.is4_mask _ _
@[simp] theorem is6_masked (p : Prefix) : p.masked.addr.is6 = p.addr.is6 := Addr.is6_mask _ _
@[simp] theorem hostBits_masked (p : Prefix) : p.masked.hostBits = p.hostBits := by
  simp [hostBits, masked]

theorem contains_iff {p : Prefix} {ip : Addr} :
    p.contains ip = true ↔ ip.is4 = p.addr.is4 ∧ ip.zone = "" ∧
      ip.toNat / 2 ^ p.hostBits = p.addr.toNat / 2 ^ p.hostBits := by
  simp [contains, and_assoc]

/-- `Contains` does not see the host bits of the prefix. -/
@[simp] theorem contains_masked (p : Prefix) (ip : Addr) :
    p.masked.contains ip = p.contains ip := by
  rw [Bool.eq_iff_iff, contains_iff, contains_iff, hostBits_masked, is4_masked]
  have : p.masked.addr.toNat / 2 ^ p.hostBits = p.addr.toNat / 2 ^ p.hostBits := by
    rw [masked, Addr.toNat_mask, Nat.mul_div_cancel _ (Nat.two_pow_pos _)]
  rw [this]

/-- The canonical form is determined by the length of the prefix and any address in it. -/
theorem masked_eq_of_contains {p q : Prefix} {ip : Addr} (hp : p.contains ip = true)
    (hq : q.contains ip = true) (hbits : p.bits = q.bits) : p.masked = q.masked := by
  obtain ⟨hp4, -, hpn⟩ := contains_iff.mp hp
  obtain ⟨hq4, -, hqn⟩ := contains_iff.mp hq
  have h4 : p.addr.is4 = q.addr.is4 := hp4.symm.trans hq4
  have hhost : p.hostBits = q.hostBits := by
    rw [hostBits, hostBits, hbits, Addr.bitLen_eq_of_is4_eq h4]
  have haddr : p.masked.addr = q.masked.addr := by
    refine Addr.ext_toNat (by rw [is4_masked, is4_masked, h4])
      (p.masked.zoneless.trans q.masked.zoneless.symm) ?_
    rw [masked, masked, Addr.toNat_mask, Addr.toNat_mask, ← hpn, hhost, ← hqn]
  unfold masked at haddr ⊢
  simp only [Prefix.mk.injEq]
  exact ⟨haddr, hbits⟩

theorem contains_addr (p : Prefix) : p.contains p.addr = true :=
  contains_iff.mpr ⟨rfl, p.zoneless, rfl⟩

@[simp] theorem masked_masked (p : Prefix) : p.masked.masked = p.masked := by
  have h : p.contains p.addr = true := p.contains_addr
  exact masked_eq_of_contains (by rwa [contains_masked]) h rfl

/-- A prefix as an interval of numbers, for a base address with clear host bits. -/
theorem contains_iff_of_masked {p : Prefix} {ip : Addr} (hp : 2 ^ p.hostBits ∣ p.addr.toNat) :
    p.contains ip = true ↔ ip.is4 = p.addr.is4 ∧ ip.zone = "" ∧
      p.addr.toNat ≤ ip.toNat ∧ ip.toNat < p.addr.toNat + 2 ^ p.hostBits := by
  rw [contains_iff]
  obtain ⟨m, hm⟩ := hp
  have hpos : 0 < 2 ^ p.hostBits := Nat.two_pow_pos _
  rw [hm, Nat.mul_div_cancel_left _ hpos, Nat.div_eq_iff hpos]
  have hmul : m * 2 ^ p.hostBits = 2 ^ p.hostBits * m := Nat.mul_comm _ _
  refine and_congr_right fun _ => and_congr_right fun _ => ?_
  omega

theorem two_pow_dvd_masked (p : Prefix) : 2 ^ p.masked.hostBits ∣ p.masked.addr.toNat := by
  rw [hostBits_masked, masked, Addr.toNat_mask]
  exact Dvd.intro_left _ rfl

/-- The one-address prefix contains its address and nothing else. -/
@[simp] theorem contains_single {a ip : Addr} (h : a.zone = "") :
    (single a h).contains ip = true ↔ ip = a := by
  rw [contains_iff, show (single a h).hostBits = 0 by simp [hostBits, single]]
  simp only [pow_zero, Nat.div_one]
  constructor
  · rintro ⟨hf, hz, hn⟩
    exact Addr.ext_toNat hf (hz.trans h.symm) hn
  · rintro rfl
    exact ⟨rfl, h, rfl⟩

end Prefix

/-- A prefix in canonical form. -/
def Canonical : Type := { p : Prefix // p.masked = p }
  deriving DecidableEq

namespace Canonical

/-- The canonical form of a prefix. -/
def of (p : Prefix) : Canonical := ⟨p.masked, p.masked_masked⟩

/-- `Contains`. -/
def contains (c : Canonical) (ip : Addr) : Bool := c.val.contains ip

/-- `Bits`. -/
def bits (c : Canonical) : ℕ := c.val.bits

@[simp] theorem contains_of (p : Prefix) (ip : Addr) : (of p).contains ip = p.contains ip :=
  p.contains_masked ip

@[simp] theorem bits_of (p : Prefix) : (of p).bits = p.bits := rfl

/-- Canonical prefixes of one length with a common address are equal. -/
theorem eq_of_contains {c d : Canonical} {ip : Addr} (hc : c.contains ip = true)
    (hd : d.contains ip = true) (hbits : c.bits = d.bits) : c = d := by
  apply Subtype.ext
  rw [← c.property, ← d.property]
  exact Prefix.masked_eq_of_contains hc hd hbits

end Canonical

end Netip
