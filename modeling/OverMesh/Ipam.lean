import OverMesh.Internal.NetipText
import Mathlib.Data.Finset.Basic
import Mathlib.Tactic.IntervalCases

/-!
# Overlay address allocation

`internal/ipam`: one allocator per network hands out IPv4 addresses by a scan that advances with
wrap-around, and derives the IPv6 address of a node from its id.

`Allocator` carries what `New` establishes and every method keeps. The scan starts at `next`, so
it matters that `next` lies in the prefix and is not its first address: `advance` wraps to the
second address, and a scan that started at the first one would never see its start again.

## Main results

* `Allocator.allocateV4_ok`, `Allocator.allocateV4_error` — what `AllocateV4` returns and what it
  does to the used set
* `Allocator.allocateV4_isOk_iff` — it succeeds exactly when some address of the prefix other than
  the first and the last is unused

## Implementation notes

The loop of `AllocateV4` has no bound in the source. `scan` runs it with as much fuel as the
prefix has addresses, and `scan_spec` shows that it always stops by itself.
-/

namespace OverMesh

namespace Ipam

open Netip

/-- `100.96.0.0/11`. -/
def defaultIPv4Prefix : Prefix := ⟨.v4 0x64600000#32, 11, by decide, rfl⟩

/-- `fdab:3f19::/48`. -/
def defaultIPv6Prefix : Prefix :=
  ⟨.v6 0xfdab3f19000000000000000000000000#128 "", 48, by decide, rfl⟩

/-- The error returns of the package. -/
inductive Error where
  | notIPv4 (v4 : Prefix)
  | notIPv6 (v6 : Prefix)
  | tooSmall (v4 : Prefix)
  | exhausted (v4 : Prefix)
  | zeroNodeID
  | overflows (nodeID : ℕ) (v6 : Prefix)
  deriving DecidableEq

/-- The text of an error. -/
def Error.message : Error → String
  | .notIPv4 v4 => s!"ipam: {v4.string} is not an IPv4 prefix"
  | .notIPv6 v6 => s!"ipam: {v6.string} is not an IPv6 prefix"
  | .tooSmall v4 => s!"ipam: IPv4 prefix {v4.string} too small (need /30 or larger)"
  | .exhausted v4 => s!"ipam: IPv4 prefix {v4.string} exhausted"
  | .zeroNodeID => "ipam: node ID must be nonzero"
  | .overflows nodeID v6 => s!"ipam: node ID {nodeID} overflows prefix {v6.string}"

/-- `lastAddr`: the low `32 - bits` bits set one by one. Bit `i` is bit `i % 8` of byte
`3 - i / 8`. -/
def lastAddr (a : BitVec 32) (bits : ℕ) : BitVec 32 :=
  (List.range (32 - bits)).foldl (fun b i => b ||| 1#32 <<< i) a

/-- The address after the network address. -/
def firstHost (v4 : Prefix) : Addr := v4.addr.next.getD v4.addr

/-- `advance`: the next candidate, wrapping past the end of the prefix. -/
def advance (v4 : Prefix) (c : Addr) : Addr :=
  match c.next with
  | some n => if v4.contains n then n else firstHost v4
  | none => firstHost v4

/-- `isReservedV4`: the network address or the broadcast address. -/
def isReservedV4 (v4 : Prefix) (c : Addr) : Bool :=
  c == v4.addr || match v4.addr with
    | .v4 a => c == .v4 (lastAddr a v4.bits)
    | .v6 _ _ => false

/-- The loop of `AllocateV4` from candidate `c`: the address found, and the next candidate. -/
def scan (v4 : Prefix) (used : Finset Addr) (start : Addr) : ℕ → Addr → Option Addr × Addr
  | 0, c => (none, c)
  | fuel + 1, c =>
    let n := advance v4 c
    if c ∉ used ∧ isReservedV4 v4 c = false then (some c, n)
    else if n = start then (none, n)
    else scan v4 used start fuel n

/-- What `New` accepts as the IPv4 prefix, once masked. -/
structure Pool (v4 : Prefix) : Prop where
  is4 : v4.addr.is4 = true
  bits_le : v4.bits ≤ 30
  masked : 2 ^ v4.hostBits ∣ v4.addr.toNat

/-- Neither in use nor reserved, the test in the loop of `AllocateV4`. -/
def Free (v4 : Prefix) (used : Finset Addr) (c : Addr) : Prop :=
  c ∉ used ∧ isReservedV4 v4 c = false

/-- The host address at position `k` of the cycle `advance` goes through. -/
def hostAt (v4 : Prefix) (k : ℕ) : Addr :=
  .v4 (BitVec.ofNat 32 (v4.addr.toNat + 1 + k % (2 ^ v4.hostBits - 1)))

/-! ### The pool as an interval -/

namespace Pool

variable {v4 : Prefix} (h : Pool v4)

include h

theorem exists_base : ∃ b : BitVec 32, v4.addr = .v4 b := by
  have := h.is4
  cases hv : v4.addr with
  | v4 b => exact ⟨b, rfl⟩
  | v6 b z => rw [hv] at this; exact absurd this (by simp)

theorem hostBits_eq : v4.hostBits = 32 - v4.bits := by
  obtain ⟨b, hb⟩ := h.exists_base
  rw [Prefix.hostBits, hb, Addr.bitLen_v4]

theorem four_le : 4 ≤ 2 ^ v4.hostBits := by
  have := h.bits_le
  rw [h.hostBits_eq]
  calc 4 = 2 ^ 2 := rfl
    _ ≤ 2 ^ (32 - v4.bits) := Nat.pow_le_pow_right (by omega) (by omega)

/-- The prefix ends inside the address space. -/
theorem base_add_le : v4.addr.toNat + 2 ^ v4.hostBits ≤ 2 ^ 32 := by
  obtain ⟨m, hm⟩ := h.masked
  have hlt : v4.addr.toNat < 2 ^ 32 := by
    obtain ⟨b, hb⟩ := h.exists_base
    rw [hb]
    exact b.isLt
  have hpow : (2 : ℕ) ^ 32 = 2 ^ v4.hostBits * 2 ^ v4.bits := by
    rw [← pow_add, h.hostBits_eq]
    congr 1
    have := h.bits_le
    omega
  rw [hm, hpow] at hlt
  have hmlt : m < 2 ^ v4.bits := Nat.lt_of_mul_lt_mul_left hlt
  calc v4.addr.toNat + 2 ^ v4.hostBits = 2 ^ v4.hostBits * (m + 1) := by rw [hm]; ring
    _ ≤ 2 ^ v4.hostBits * 2 ^ v4.bits := Nat.mul_le_mul_left _ hmlt
    _ = 2 ^ 32 := hpow.symm

theorem contains_iff {c : Addr} : v4.contains c = true ↔
    c.is4 = true ∧ v4.addr.toNat ≤ c.toNat ∧ c.toNat < v4.addr.toNat + 2 ^ v4.hostBits := by
  rw [Prefix.contains_iff_of_masked h.masked, h.is4]
  constructor
  · rintro ⟨hf, -, hlo, hhi⟩
    exact ⟨hf, hlo, hhi⟩
  · rintro ⟨hf, hlo, hhi⟩
    refine ⟨hf, ?_, hlo, hhi⟩
    cases c with
    | v4 c => rfl
    | v6 c z => simp at hf

/-- The host addresses form a cycle: position `k` is `k` steps after the first one, wrapping before
the network address. -/
theorem toNat_hostAt (k : ℕ) :
    (hostAt v4 k).toNat = v4.addr.toNat + 1 + k % (2 ^ v4.hostBits - 1) := by
  have h4 := h.four_le
  have hle := h.base_add_le
  have hk : k % (2 ^ v4.hostBits - 1) < 2 ^ v4.hostBits - 1 := Nat.mod_lt _ (by omega)
  rw [hostAt, Addr.toNat_v4, BitVec.toNat_ofNat, Nat.mod_eq_of_lt (by omega)]

theorem contains_hostAt (k : ℕ) : v4.contains (hostAt v4 k) = true := by
  have hk : k % (2 ^ v4.hostBits - 1) < 2 ^ v4.hostBits - 1 :=
    Nat.mod_lt _ (by have := h.four_le; omega)
  rw [h.contains_iff, h.toNat_hostAt]
  exact ⟨rfl, by omega, by omega⟩

theorem hostAt_ne_base (k : ℕ) : hostAt v4 k ≠ v4.addr := fun he => by
  have := congrArg Addr.toNat he
  rw [h.toNat_hostAt] at this
  omega

theorem hostAt_eq_iff {j k : ℕ} :
    hostAt v4 j = hostAt v4 k ↔ j % (2 ^ v4.hostBits - 1) = k % (2 ^ v4.hostBits - 1) := by
  constructor
  · intro he
    have := congrArg Addr.toNat he
    rw [h.toNat_hostAt, h.toNat_hostAt] at this
    omega
  · intro he
    rw [hostAt, hostAt, he]

/-- Every address of the prefix but the first has a position below the length of the cycle. -/
theorem exists_hostAt {c : Addr} (hc : v4.contains c = true) (hne : c ≠ v4.addr) :
    ∃ k < 2 ^ v4.hostBits - 1, c = hostAt v4 k := by
  obtain ⟨hf, hlo, hhi⟩ := h.contains_iff.mp hc
  have hz : c.zone = v4.addr.zone := by
    rw [v4.zoneless]
    cases c with
    | v4 c => rfl
    | v6 c z => simp at hf
  have hn : c.toNat ≠ v4.addr.toNat := fun he => hne (Addr.ext_toNat (hf.trans h.is4.symm) hz he)
  have hlt : c.toNat - (v4.addr.toNat + 1) < 2 ^ v4.hostBits - 1 := by omega
  refine ⟨c.toNat - (v4.addr.toNat + 1), hlt, Addr.ext_toNat hf (hz.trans v4.zoneless) ?_⟩
  rw [h.toNat_hostAt, Nat.mod_eq_of_lt hlt]
  omega

theorem firstHost_eq : firstHost v4 = hostAt v4 0 := by
  have h4 := h.four_le
  have hnext : v4.addr.next = some (hostAt v4 0) := by
    rw [Addr.next_eq_some_iff, h.toNat_hostAt, h.is4, v4.zoneless]
    exact ⟨rfl, rfl, by simp⟩
  rw [firstHost, hnext, Option.getD_some]

/-- `advance` moves one position along the cycle. -/
theorem advance_hostAt (k : ℕ) : advance v4 (hostAt v4 k) = hostAt v4 (k + 1) := by
  set M := 2 ^ v4.hostBits - 1 with hM
  have h4 := h.four_le
  have hk : k % M < M := Nat.mod_lt _ (by omega)
  have hat := h.toNat_hostAt k
  rw [← hM] at hat
  -- the successor leaves the prefix exactly at the last position
  by_cases hlast : k % M + 1 = M
  · have hmod : (k + 1) % M = 0 := by
      rw [Nat.add_mod_eq_ite, Nat.mod_eq_of_lt (a := 1) (by omega)]
      simp [hlast]
    have hwrap : hostAt v4 (k + 1) = firstHost v4 := by
      rw [h.firstHost_eq, h.hostAt_eq_iff, ← hM, hmod, Nat.zero_mod]
    rw [hwrap, advance]
    split
    · next n hn =>
      have := (Addr.next_eq_some_iff.mp hn).2.2
      rw [if_neg]
      intro hc
      have := (h.contains_iff.mp hc).2.2
      omega
    · rfl
  · have hmod : (k + 1) % M = k % M + 1 := by
      rw [Nat.add_mod_eq_ite, Nat.mod_eq_of_lt (a := 1) (by omega), if_neg (by omega)]
    have hnext : (hostAt v4 k).next = some (hostAt v4 (k + 1)) := by
      rw [Addr.next_eq_some_iff, h.toNat_hostAt, h.toNat_hostAt, ← hM, hmod]
      exact ⟨rfl, rfl, by omega⟩
    rw [advance, hnext]
    simp only [h.contains_hostAt, if_true]

/-! ### The scan -/

variable (used : Finset Addr)

/-- The scan visits the cycle once from its start. Either it stops at the first position that is
free, or none is and it is back at the start. -/
theorem scan_spec {p : ℕ} (hp : p < 2 ^ v4.hostBits - 1) (fuel : ℕ) :
    ∀ k < 2 ^ v4.hostBits - 1, 2 ^ v4.hostBits - 1 - k ≤ fuel →
      (∃ j < 2 ^ v4.hostBits - 1, k ≤ j ∧ Free v4 used (hostAt v4 (p + j)) ∧
        scan v4 used (hostAt v4 p) fuel (hostAt v4 (p + k)) =
          (some (hostAt v4 (p + j)), hostAt v4 (p + j + 1))) ∨
      ((∀ j < 2 ^ v4.hostBits - 1, k ≤ j → ¬ Free v4 used (hostAt v4 (p + j))) ∧
        scan v4 used (hostAt v4 p) fuel (hostAt v4 (p + k)) = (none, hostAt v4 p)) := by
  set M := 2 ^ v4.hostBits - 1 with hM
  induction fuel with
  | zero => intro k hk hfuel; omega
  | succ fuel ih =>
    intro k hk hfuel
    rw [scan, h.advance_hostAt]
    by_cases hfree : Free v4 used (hostAt v4 (p + k))
    · exact .inl ⟨k, hk, le_refl k, hfree, if_pos hfree⟩
    · have hback : hostAt v4 (p + k + 1) = hostAt v4 p ↔ k + 1 = M := by
        rw [h.hostAt_eq_iff, ← hM, Nat.mod_eq_of_lt hp]
        by_cases hlt : p + k + 1 < M
        · rw [Nat.mod_eq_of_lt hlt]
          omega
        · rw [Nat.mod_eq_sub_mod (by omega), Nat.mod_eq_of_lt (by omega)]
          omega
      simp only [if_neg (show ¬ (hostAt v4 (p + k) ∉ used ∧ _) from hfree)]
      by_cases hend : k + 1 = M
      · rw [if_pos (hback.mpr hend), hback.mpr hend]
        refine .inr ⟨?_, rfl⟩
        intro j hj hkj
        obtain rfl : j = k := by omega
        exact hfree
      · rw [if_neg (mt hback.mp hend), Nat.add_assoc]
        rcases ih (k + 1) (by omega) (by omega) with ⟨j, hj, hkj, hjf, hscan⟩ | ⟨hnone, hscan⟩
        · exact .inl ⟨j, hj, by omega, hjf, hscan⟩
        · refine .inr ⟨?_, hscan⟩
          intro j hj hkj
          rcases Nat.eq_or_lt_of_le hkj with rfl | hlt
          · exact hfree
          · exact hnone j hj hlt

/-- The scan from a host address, with enough fuel: it finds a free address if there is one, and its
next candidate is a host address again. -/
theorem scan_host {start : Addr} (hs : v4.contains start = true) (hne : start ≠ v4.addr) :
    (∃ c n, scan v4 used start (2 ^ v4.hostBits) start = (some c, n) ∧ v4.contains c = true ∧
        Free v4 used c ∧ v4.contains n = true ∧ n ≠ v4.addr) ∨
      ((∀ c, v4.contains c = true → c ≠ v4.addr → ¬ Free v4 used c) ∧
        scan v4 used start (2 ^ v4.hostBits) start = (none, start)) := by
  obtain ⟨p, hp, rfl⟩ := h.exists_hostAt hs hne
  have h4 := h.four_le
  rcases h.scan_spec used hp (2 ^ v4.hostBits) 0 (by omega) (by omega) with
    ⟨j, hj, -, hfree, hscan⟩ | ⟨hnone, hscan⟩
  · exact .inl ⟨_, _, hscan, h.contains_hostAt _, hfree, h.contains_hostAt _, h.hostAt_ne_base _⟩
  · refine .inr ⟨?_, hscan⟩
    intro c hc hcne
    -- every host address is some number of steps ahead of the start
    obtain ⟨k, hk, rfl⟩ := h.exists_hostAt hc hcne
    have hj : ∃ j < 2 ^ v4.hostBits - 1, hostAt v4 (p + j) = hostAt v4 k := by
      by_cases hpk : p ≤ k
      · exact ⟨k - p, by omega, by rw [Nat.add_sub_cancel' hpk]⟩
      · refine ⟨k + (2 ^ v4.hostBits - 1) - p, by omega, ?_⟩
        rw [h.hostAt_eq_iff, show p + (k + (2 ^ v4.hostBits - 1) - p) = k + (2 ^ v4.hostBits - 1) by
          omega, Nat.add_mod_right]
    obtain ⟨j, hjlt, hje⟩ := hj
    rw [← hje]
    exact hnone j hjlt (Nat.zero_le j)

/-- `lastAddr` is the highest address of the prefix. -/
theorem toNat_lastAddr {b : BitVec 32} (hb : v4.addr = .v4 b) :
    (lastAddr b v4.bits).toNat = v4.addr.toNat + 2 ^ v4.hostBits - 1 := by
  have hdvd := h.masked
  have hle := h.base_add_le
  rw [h.hostBits_eq] at hdvd hle ⊢
  rw [hb, Addr.toNat_v4] at hdvd hle ⊢
  -- after `i` rounds the low `i` bits are set
  have key : ∀ i ≤ 32 - v4.bits,
      ((List.range i).foldl (fun b i => b ||| 1#32 <<< i) b).toNat = b.toNat ||| (2 ^ i - 1) := by
    intro i
    induction i with
    | zero => simp
    | succ i ih =>
      intro hi
      have hlt : 2 ^ i < 2 ^ 32 := Nat.pow_lt_pow_right (by omega) (by omega)
      have hbit : (1#32 <<< i).toNat = 2 ^ i := by
        rw [BitVec.toNat_shiftLeft, Nat.shiftLeft_eq]
        simpa using Nat.mod_eq_of_lt hlt
      have hpos := Nat.two_pow_pos i
      have hones : 2 ^ (i + 1) - 1 = (2 ^ i - 1) ||| 2 ^ i := by
        calc 2 ^ (i + 1) - 1 = 2 ^ i * 1 + (2 ^ i - 1) := by rw [pow_succ]; omega
          _ = 2 ^ i * 1 ||| (2 ^ i - 1) := Nat.two_pow_add_eq_or_of_lt (by omega) 1
          _ = (2 ^ i - 1) ||| 2 ^ i := by rw [Nat.mul_one, Nat.or_comm]
      rw [List.range_succ, List.foldl_append, List.foldl_cons, List.foldl_nil, BitVec.toNat_or,
        ih (by omega), hbit, Nat.or_assoc, ← hones]
  obtain ⟨m, hm⟩ := hdvd
  rw [lastAddr, key _ (le_refl _), hm,
    ← Nat.two_pow_add_eq_or_of_lt (by have := Nat.two_pow_pos (32 - v4.bits); omega)]
  have := Nat.two_pow_pos (32 - v4.bits)
  omega

/-- The reserved addresses are the first and the last of the prefix. -/
theorem isReservedV4_iff {c : Addr} (hc : v4.contains c = true) : isReservedV4 v4 c = true ↔
      c.toNat = v4.addr.toNat ∨ c.toNat = v4.addr.toNat + 2 ^ v4.hostBits - 1 := by
  obtain ⟨b, hb⟩ := h.exists_base
  obtain ⟨hf, -, -⟩ := h.contains_iff.mp hc
  obtain ⟨c, rfl⟩ : ∃ a, c = .v4 a := by
    cases c with
    | v4 c => exact ⟨c, rfl⟩
    | v6 c z => simp at hf
  have hlast := h.toNat_lastAddr hb
  simp only [isReservedV4, hb, Bool.or_eq_true, beq_iff_eq, Addr.v4.injEq] at hlast ⊢
  rw [← hlast]
  simp only [Addr.toNat_v4]
  constructor
  · rintro (rfl | rfl)
    · exact .inl rfl
    · exact .inr rfl
  · rintro (he | he)
    · exact .inl (BitVec.eq_of_toNat_eq he)
    · exact .inr (BitVec.eq_of_toNat_eq he)

end Pool

/-! ### The allocator -/

/-- `Allocator`. -/
structure Allocator where
  v4 : Prefix
  v6 : Prefix
  used : Finset Addr
  next : Addr
  pool : Pool v4
  v6_is6 : v6.addr.is6 = true
  v6_masked : 2 ^ v6.hostBits ∣ v6.addr.toNat
  next_mem : v4.contains next = true
  next_ne : next ≠ v4.addr

/-- `New`. `none` is the zero value of a prefix, which selects the default. -/
def new (v4? v6? : Option Prefix) : Except Error Allocator :=
  let v4 := v4?.getD defaultIPv4Prefix
  let v6 := v6?.getD defaultIPv6Prefix
  if h4 : v4.addr.is4 = false then .error (.notIPv4 v4)
  else if h6 : v6.addr.is6 = false ∨ v6.addr.is4In6 = true then .error (.notIPv6 v6)
  else if h30 : 30 < v4.bits then .error (.tooSmall v4)
  else
    have pool : Pool v4.masked :=
      ⟨by simpa using h4, by simpa using h30, v4.two_pow_dvd_masked⟩
    .ok {
      v4 := v4.masked
      v6 := v6.masked
      used := ∅
      next := firstHost v4.masked
      pool := pool
      v6_is6 := by
        rw [not_or] at h6
        simpa using h6.1
      v6_masked := v6.two_pow_dvd_masked
      next_mem := by rw [pool.firstHost_eq]; exact pool.contains_hostAt 0
      next_ne := by rw [pool.firstHost_eq]; exact pool.hostAt_ne_base 0 }

theorem new_ok {v4 v6 : Prefix} {a : Allocator} (h : new (some v4) (some v6) = .ok a) :
    a.v4 = v4.masked ∧ a.v6 = v6.masked ∧ a.used = ∅ := by
  rw [new] at h
  simp only [Option.getD_some] at h
  split_ifs at h
  obtain rfl := Except.ok.inj h
  exact ⟨rfl, rfl, rfl⟩

namespace Allocator

/-- `MarkUsed`. -/
def markUsed (a : Allocator) (addrs : List Addr) : Allocator :=
  { a with used := addrs.foldl (fun u ad => insert ad.unmap u) a.used }

/-- `Release`. -/
def release (a : Allocator) (addr : Addr) : Allocator := { a with used := a.used.erase addr.unmap }

/-- The scan `AllocateV4` makes. -/
def scanned (a : Allocator) : Option Addr × Addr :=
  scan a.v4 a.used a.next (2 ^ a.v4.hostBits) a.next

theorem scanned_next (a : Allocator) :
    a.v4.contains a.scanned.2 = true ∧ a.scanned.2 ≠ a.v4.addr := by
  rcases a.pool.scan_host a.used a.next_mem a.next_ne with
    ⟨c, n, hscan, -, -, hn, hne⟩ | ⟨-, hscan⟩
  · rw [scanned, hscan]
    exact ⟨hn, hne⟩
  · rw [scanned, hscan]
    exact ⟨a.next_mem, a.next_ne⟩

/-- `AllocateV4`. -/
def allocateV4 (a : Allocator) : Except Error Addr × Allocator :=
  (match a.scanned.1 with
    | some c => .ok c
    | none => .error (.exhausted a.v4),
   { a with
    used := match a.scanned.1 with
      | some c => insert c a.used
      | none => a.used
    next := a.scanned.2
    next_mem := a.scanned_next.1
    next_ne := a.scanned_next.2 })

/-- `AllocateV6For`: the prefix with the bytes of the id copied over its last bytes. The number of
bytes is that of the id without leading zero bytes. -/
def allocateV6For (a : Allocator) (nodeID : ℕ) : Except Error Addr :=
  if nodeID = 0 then .error .zeroNodeID
  else
    let n := 2 ^ (8 * (Nat.log2 nodeID / 8 + 1))
    let addr := Addr.v6 (BitVec.ofNat 128 (a.v6.addr.toNat / n * n + nodeID)) ""
    if a.v6.contains addr then .ok addr else .error (.overflows nodeID a.v6)

variable {a : Allocator}

@[simp] theorem v6_release (addr : Addr) : (a.release addr).v6 = a.v6 := rfl
@[simp] theorem v6_allocateV4 : a.allocateV4.2.v6 = a.v6 := rfl

@[simp] theorem mem_used_release {addr x : Addr} :
    x ∈ (a.release addr).used ↔ x ≠ addr.unmap ∧ x ∈ a.used := Finset.mem_erase

@[simp] theorem mem_used_markUsed {addrs : List Addr} {x : Addr} :
    x ∈ (a.markUsed addrs).used ↔ x ∈ a.used ∨ ∃ ad ∈ addrs, x = ad.unmap := by
  have key : ∀ (addrs : List Addr) (u : Finset Addr),
      x ∈ addrs.foldl (fun u ad => insert ad.unmap u) u ↔ x ∈ u ∨ ∃ ad ∈ addrs, x = ad.unmap := by
    intro addrs
    induction addrs with
    | nil => simp
    | cons ad addrs ih =>
      intro u
      rw [List.foldl_cons, ih, Finset.mem_insert]
      simp only [List.mem_cons, exists_eq_or_imp]
      tauto
  exact key addrs a.used

/-- **A successful allocation** returns a free address of the prefix and marks that address. -/
theorem allocateV4_ok {c : Addr} (h : a.allocateV4.1 = .ok c) :
    a.v4.contains c = true ∧ Free a.v4 a.used c ∧ a.allocateV4.2.used = insert c a.used := by
  rcases a.pool.scan_host a.used a.next_mem a.next_ne with
    ⟨c', n, hscan, hc, hfree, -, -⟩ | ⟨-, hscan⟩
  · have hs : a.scanned = (some c', n) := hscan
    simp only [allocateV4, hs, Except.ok.injEq] at h ⊢
    subst h
    exact ⟨hc, hfree, rfl⟩
  · have hs : a.scanned = (none, a.next) := hscan
    simp [allocateV4, hs] at h

/-- **A failed allocation** means that the prefix has no free address, and changes nothing. -/
theorem allocateV4_error {e : Error} (h : a.allocateV4.1 = .error e) :
    (∀ c, a.v4.contains c = true → ¬ Free a.v4 a.used c) ∧ a.allocateV4.2 = a := by
  rcases a.pool.scan_host a.used a.next_mem a.next_ne with
    ⟨c', n, hscan, -, -, -, -⟩ | ⟨hnone, hscan⟩
  · have hs : a.scanned = (some c', n) := hscan
    simp [allocateV4, hs] at h
  · have hs : a.scanned = (none, a.next) := hscan
    refine ⟨?_, by simp [allocateV4, hs]⟩
    intro c hc hfree
    by_cases hb : c = a.v4.addr
    · simp [Free, isReservedV4, hb] at hfree
    · exact hnone c hc hb hfree

/-- **Allocation is exact**: it succeeds if and only if some address of the prefix is free. -/
theorem allocateV4_isOk_iff :
    (∃ c, a.allocateV4.1 = .ok c) ↔ ∃ c, a.v4.contains c = true ∧ Free a.v4 a.used c := by
  constructor
  · rintro ⟨c, hc⟩
    obtain ⟨hmem, hfree, -⟩ := allocateV4_ok hc
    exact ⟨c, hmem, hfree⟩
  · rintro ⟨c, hmem, hfree⟩
    cases h : a.allocateV4.1 with
    | ok c => exact ⟨c, rfl⟩
    | error e => exact absurd hfree ((allocateV4_error h).1 c hmem)

/-- The IPv6 address of a node is one of the prefix, without a zone. -/
theorem allocateV6For_ok {nodeID : ℕ} {addr : Addr} (h : a.allocateV6For nodeID = .ok addr) :
    addr.is6 = true ∧ addr.zone = "" ∧ a.v6.contains addr = true := by
  rw [allocateV6For] at h
  dsimp only at h
  split_ifs at h with h0 hmem
  obtain rfl := Except.ok.inj h
  exact ⟨rfl, rfl, hmem⟩

/-- A prefix of at most 64 bits leaves room for every 64-bit id, which is added to it. -/
theorem allocateV6For_eq (hbits : a.v6.bits ≤ 64) {nodeID : ℕ} (h0 : nodeID ≠ 0)
    (hid : nodeID < 2 ^ 64) : a.v6.addr.toNat + nodeID < 2 ^ 128 ∧ a.allocateV6For nodeID =
      .ok (.v6 (BitVec.ofNat 128 (a.v6.addr.toNat + nodeID)) "") := by
  obtain ⟨b, z, hb⟩ : ∃ b z, a.v6.addr = .v6 b z := by
    have := a.v6_is6
    cases hv : a.v6.addr with
    | v4 b => rw [hv] at this; exact absurd this (by simp [Addr.is6])
    | v6 b z => exact ⟨b, z, rfl⟩
  have hhost : a.v6.hostBits = 128 - a.v6.bits := by rw [Prefix.hostBits, hb, Addr.bitLen_v6]
  have h64 : 2 ^ 64 ∣ 2 ^ a.v6.hostBits := pow_dvd_pow 2 (by omega)
  -- the bytes of the id fall into the low half, which the prefix leaves clear
  have hlog : Nat.log2 nodeID < 64 := (Nat.log2_lt h0).mpr hid
  have hn : 2 ^ (8 * (Nat.log2 nodeID / 8 + 1)) ∣ a.v6.addr.toNat :=
    ((pow_dvd_pow 2 (by omega)).trans h64).trans a.v6_masked
  have hroom : a.v6.addr.toNat + 2 ^ a.v6.hostBits ≤ 2 ^ 128 := by
    have hlt : a.v6.addr.toNat < 2 ^ 128 := by rw [hb]; exact b.isLt
    have hdvd : 2 ^ a.v6.hostBits ∣ 2 ^ 128 - a.v6.addr.toNat :=
      Nat.dvd_sub (pow_dvd_pow 2 (by omega)) a.v6_masked
    have := Nat.le_of_dvd (by omega) hdvd
    omega
  have hid' : nodeID < 2 ^ a.v6.hostBits :=
    lt_of_lt_of_le hid (Nat.le_of_dvd (Nat.two_pow_pos _) h64)
  refine ⟨by omega, ?_⟩
  rw [allocateV6For, if_neg h0]
  dsimp only
  rw [Nat.div_mul_cancel hn, if_pos]
  rw [Prefix.contains_iff_of_masked a.v6_masked, Addr.toNat_v6, BitVec.toNat_ofNat,
    Nat.mod_eq_of_lt (by omega), hb]
  rw [hb] at hroom
  refine ⟨rfl, rfl, ?_, ?_⟩ <;> omega

/-- Then different ids have different addresses. -/
theorem allocateV6For_inj {b : Allocator} (hv6 : a.v6 = b.v6) (hbits : a.v6.bits ≤ 64) {i j : ℕ}
    (hi : i < 2 ^ 64) (hj : j < 2 ^ 64) {addr : Addr} (ha : a.allocateV6For i = .ok addr)
    (hb : b.allocateV6For j = .ok addr) : i = j := by
  have hne : ∀ {c : Allocator} {k : ℕ}, c.allocateV6For k = .ok addr → k ≠ 0 := by
    rintro c k hk rfl
    rw [allocateV6For, if_pos rfl] at hk
    cases hk
  obtain ⟨hlti, hai⟩ := allocateV6For_eq hbits (hne ha) hi
  obtain ⟨hltj, hbj⟩ := allocateV6For_eq (a := b) (hv6 ▸ hbits) (hne hb) hj
  rw [← hv6] at hltj hbj
  have heq := Except.ok.inj ((hai.symm.trans ha).trans (hb.symm.trans hbj))
  rw [Addr.v6.injEq] at heq
  have hnat := congrArg BitVec.toNat heq.1
  rw [BitVec.toNat_ofNat, BitVec.toNat_ofNat, Nat.mod_eq_of_lt hlti, Nat.mod_eq_of_lt hltj] at hnat
  omega

end Allocator

end Ipam

end OverMesh
