import OverMesh.Internal.Runs
import OverMesh.Ipam

/-!
# Allocation over whole sequences of calls

The loop of `AllocateV4` has no bound: it goes around the host addresses until it has found a free
one or is back where it began. `Loops` is that loop as it is written. It has a result for every
allocator, and only one.

`AllocateV6For` has no loop. It copies the bytes of the id over the last bytes of the prefix and
then asks whether the address is still one of the prefix. The question cannot be answered that way
when the bytes of the prefix that were overwritten are those of the id.

## Main definitions

* `Loops` — the loop of `AllocateV4`
* `Host` — an address of the prefix other than the first and the last
* `Call`, `Call.step` — the calls that change an allocator
* `Apart` — two ids have different addresses, or none if they are too large
* `Clear` — the prefix does not repeat the high bits of the id

## Main results

* `loops_iff` — **the loop ends**, with what `scan` returns
* `allocateV4_exact` — **IPv4 allocation is exact** after any sequence of calls
* `apart_iff` — **when IPv6 addresses tell ids apart**
-/

namespace OverMesh

namespace Ipam

open Netip Runs

/-! ### The loop ends -/

/-- The loop of `AllocateV4` from candidate `c`: it returns an address, or none, with the next
candidate. -/
inductive Loops (v4 : Prefix) (used : Finset Addr) (start : Addr) : Addr → Option Addr × Addr → Prop
  | found {c : Addr} (hfree : Free v4 used c) : Loops v4 used start c (some c, advance v4 c)
  | back {c : Addr} (hfree : ¬ Free v4 used c) (hback : advance v4 c = start) :
      Loops v4 used start c (none, start)
  | turn {c : Addr} {r : Option Addr × Addr} (hfree : ¬ Free v4 used c)
      (hback : advance v4 c ≠ start) (h : Loops v4 used start (advance v4 c) r) :
      Loops v4 used start c r

section Loops

variable {v4 : Prefix} {used : Finset Addr} {start c : Addr} {r r' : Option Addr × Addr}

theorem Loops.unique (h : Loops v4 used start c r) (h' : Loops v4 used start c r') : r = r' := by
  induction h with
  | found hfree =>
    cases h' with
    | found => rfl
    | back hnot | turn hnot => exact absurd hfree hnot
  | back hfree hback =>
    cases h' with
    | found hyes => exact absurd hyes hfree
    | back => rfl
    | turn _ hnot => exact absurd hback hnot
  | turn hfree hback _ ih =>
    cases h' with
    | found hyes => exact absurd hyes hfree
    | back _ hyes => exact absurd hyes hback
    | turn _ _ h' => exact ih h'

/-- A bounded run is one of the loop, unless the bound ends it away from the start. -/
theorem loops_scan (fuel : ℕ) (hstart : c ≠ start ∨ 0 < fuel) :
    Loops v4 used start c (scan v4 used start fuel c) ∨
      (scan v4 used start fuel c).1 = none ∧ (scan v4 used start fuel c).2 ≠ start := by
  induction fuel generalizing c with
  | zero => exact .inr ⟨rfl, hstart.resolve_right (lt_irrefl 0)⟩
  | succ fuel ih =>
    rw [scan]
    by_cases hfree : c ∉ used ∧ isReservedV4 v4 c = false
    · rw [if_pos hfree]
      exact .inl (.found hfree)
    · rw [if_neg hfree]
      by_cases hback : advance v4 c = start
      · rw [if_pos hback, hback]
        exact .inl (.back hfree hback)
      · rw [if_neg hback]
        exact (ih (.inl hback)).imp_left (.turn hfree hback)

end Loops

/-! ### Host addresses -/

/-- An address of the prefix other than the first and the last. -/
def Host (v4 : Prefix) (c : Addr) : Prop :=
  v4.contains c = true ∧ (∃ x, v4.contains x = true ∧ x.toNat < c.toNat) ∧
    ∃ x, v4.contains x = true ∧ c.toNat < x.toNat

theorem host_masked {v4 : Prefix} {c : Addr} : Host v4.masked c ↔ Host v4 c := by
  simp only [Host, Prefix.contains_masked]

theorem Pool.host_iff {v4 : Prefix} (h : Pool v4) {c : Addr} :
    Host v4 c ↔ v4.contains c = true ∧ isReservedV4 v4 c = false := by
  rw [Host, and_congr_right_iff]
  intro hc
  have hmem := h.contains_iff.mp hc
  have hfour := h.four_le
  rw [← Bool.not_eq_true, h.isReservedV4_iff hc, not_or]
  constructor
  · rintro ⟨⟨x, hx, hlow⟩, y, hy, hhigh⟩
    have hx := h.contains_iff.mp hx
    have hy := h.contains_iff.mp hy
    omega
  · rintro ⟨hfirst, hlast⟩
    -- The first address lies below and the last one above.
    refine ⟨⟨v4.addr, v4.contains_addr, by omega⟩,
      hostAt v4 (2 ^ v4.hostBits - 2), h.contains_hostAt _, ?_⟩
    rw [h.toNat_hostAt, Nat.mod_eq_of_lt (by omega)]
    omega

namespace Allocator

variable {a : Allocator}

theorem loops_scanned (a : Allocator) : Loops a.v4 a.used a.next a.next a.scanned := by
  refine (loops_scan (2 ^ a.v4.hostBits) (.inr (Nat.two_pow_pos _))).resolve_right ?_
  rintro ⟨hnone, hne⟩
  rcases a.pool.scan_host a.used a.next_mem a.next_ne with ⟨c, n, hscan, -⟩ | ⟨-, hscan⟩
  · rw [hscan] at hnone
    cases hnone
  · rw [hscan] at hne
    exact hne rfl

/-- **The loop of `AllocateV4` ends**, with the result that `AllocateV4` returns. -/
theorem loops_iff {r : Option Addr × Addr} : Loops a.v4 a.used a.next a.next r ↔ r = a.scanned := by
  constructor
  · exact fun h => h.unique a.loops_scanned
  · rintro rfl
    exact a.loops_scanned

theorem free_iff {c : Addr} :
    a.v4.contains c = true ∧ Free a.v4 a.used c ↔ Host a.v4 c ∧ c ∉ a.used := by
  rw [a.pool.host_iff, Free]
  tauto

end Allocator

/-! ### Sequences of calls -/

/-- The calls that change an allocator. `none` is the zero `netip.Addr`, which is never a
candidate. -/
inductive Call where
  | markUsed (addrs : List (Option Addr))
  | release (addr : Option Addr)
  | allocateV4

/-- One call. -/
def Call.step (a : Allocator) : Call → Allocator
  | .markUsed addrs => a.markUsed (addrs.filterMap fun addr => addr)
  | .release none => a
  | .release (some addr) => a.release addr
  | .allocateV4 => a.allocateV4.2

theorem v4_step (a : Allocator) (call : Call) : (call.step a).v4 = a.v4 := by
  rcases call with addrs | ⟨_ | addr⟩ | _ <;> rfl

theorem v4_run (a : Allocator) (calls : List Call) : (run Call.step a calls).v4 = a.v4 :=
  run_induction (P := fun b : Allocator => b.v4 = a.v4) rfl
    (fun b call h => (v4_step b call).trans h) calls

theorem v4_new {v4? v6? : Option Prefix} {a : Allocator} (h : new v4? v6? = .ok a) :
    a.v4 = (v4?.getD defaultIPv4Prefix).masked ∧ a.v6 = (v6?.getD defaultIPv6Prefix).masked := by
  rw [new] at h
  dsimp only at h
  split_ifs at h
  obtain rfl := Except.ok.inj h
  exact ⟨rfl, rfl⟩

/-- **IPv4 allocation is exact.** After any sequence of calls, `AllocateV4` comes to an end; it
succeeds if and only if some host address of the prefix is not in use, and then it returns such an
address and marks it and nothing else; if it fails, nothing is marked. -/
theorem allocateV4_exact {v4? v6? : Option Prefix} {a₀ : Allocator} (h : new v4? v6? = .ok a₀)
    (calls : List Call) :
    let v4 := v4?.getD defaultIPv4Prefix
    let a := run Call.step a₀ calls
    (∀ r, Loops a.v4 a.used a.next a.next r ↔ r = a.scanned) ∧
    ((∃ c, a.allocateV4.1 = .ok c) ↔ ∃ c, Host v4 c ∧ c ∉ a.used) ∧
    (∀ c, a.allocateV4.1 = .ok c →
      Host v4 c ∧ c ∉ a.used ∧ a.allocateV4.2.used = insert c a.used) ∧
    ∀ e, a.allocateV4.1 = .error e → a.allocateV4.2.used = a.used := by
  intro v4 a
  have hhost : ∀ c, Host a.v4 c ↔ Host v4 c := by
    intro c
    rw [v4_run, (v4_new h).1, host_masked]
  refine ⟨fun r => Allocator.loops_iff, ?_, ?_, ?_⟩
  · rw [Allocator.allocateV4_isOk_iff]
    refine exists_congr fun c => ?_
    rw [Allocator.free_iff, hhost]
  · intro c hc
    obtain ⟨hmem, hfree, hused⟩ := Allocator.allocateV4_ok hc
    obtain ⟨hc, hunused⟩ := Allocator.free_iff.mp ⟨hmem, hfree⟩
    exact ⟨(hhost c).mp hc, hunused, hused⟩
  · intro e he
    rw [(Allocator.allocateV4_error he).2]

/-- `255.255.255.252/30`, where the search has to wrap at the end of the address space. -/
def samplePrefix30 : Prefix := ⟨.v4 0xfffffffd#32, 30, by decide, rfl⟩

theorem isSome_new_samplePrefix30 : (new (some samplePrefix30) none).toOption.isSome = true := rfl

/-- An allocator for two addresses. -/
def sampleAllocator : Allocator :=
  (new (some samplePrefix30) none).toOption.get isSome_new_samplePrefix30

/-- Two addresses are allocated, and then none is left. -/
theorem allocateV4_exact_sample :
    new (some samplePrefix30) none = .ok sampleAllocator ∧
      (∃ c, (run Call.step sampleAllocator [.allocateV4]).allocateV4.1 = .ok c) ∧
      ¬ ∃ c, Host samplePrefix30 c ∧
        c ∉ (run Call.step sampleAllocator
          [.allocateV4, .markUsed [none], .allocateV4]).used := by
  have hnew : new (some samplePrefix30) none = .ok sampleAllocator := rfl
  have hexact := fun calls => (allocateV4_exact hnew calls).2.1
  refine ⟨hnew, (hexact _).mpr ⟨.v4 0xfffffffe#32, ?_, by decide +kernel⟩, ?_⟩
  · exact ⟨by decide +kernel, ⟨.v4 0xfffffffd#32, by decide +kernel, by decide +kernel⟩,
      .v4 0xffffffff#32, by decide +kernel, by decide +kernel⟩
  · refine fun hleft => absurd ((hexact _).mpr hleft) ?_
    rintro ⟨c, hc⟩
    have hfull : (run Call.step sampleAllocator
        [.allocateV4, .markUsed [none], .allocateV4]).allocateV4.1.toOption = none := by
      decide +kernel
    rw [hc] at hfull
    cases hfull

/-! ### IPv6 -/

/-- The number of bits in the bytes of an id. -/
def idBits (nodeID : ℕ) : ℕ := 8 * (Nat.log2 nodeID / 8 + 1)

/-- The id fits in the host bits, or the bits of the prefix that its bytes take the place of are not
those of the id. -/
def Clear (v6 : Prefix) (nodeID : ℕ) : Prop :=
  nodeID < 2 ^ v6.hostBits ∨
    nodeID / 2 ^ v6.hostBits ≠ v6.addr.toNat % 2 ^ idBits nodeID / 2 ^ v6.hostBits

instance (v6 : Prefix) (nodeID : ℕ) : Decidable (Clear v6 nodeID) :=
  inferInstanceAs (Decidable (_ ∨ _))

/-- **The addresses of two ids are different addresses of the prefix**, and an id that does not fit
in the host bits has none. -/
structure Apart (v6 : Prefix) (a : Allocator) (i j : ℕ) : Prop where
  distinct : ∀ x y, a.allocateV6For i = .ok x → a.allocateV6For j = .ok y → x ≠ y
  inside : ∀ k, k = i ∨ k = j → ∀ x, a.allocateV6For k = .ok x → v6.contains x = true
  rejected : ∀ k, k = i ∨ k = j → 2 ^ v6.hostBits ≤ k → ¬ ∃ x, a.allocateV6For k = .ok x

theorem lt_two_pow_idBits {id : ℕ} (h0 : id ≠ 0) : id < 2 ^ idBits id :=
  (Nat.log2_lt h0).mp (by rw [idBits]; omega)

theorem idBits_le {id : ℕ} (h0 : id ≠ 0) (hid : id < 2 ^ 64) : idBits id ≤ 64 := by
  have hlog : Nat.log2 id < 64 := (Nat.log2_lt h0).mpr hid
  rw [idBits]
  omega

/-- Powers of two are comparable, so what one of them divides is what is left over by the other. -/
theorem div_overwrite {base id host width : ℕ} (hbase : 2 ^ host ∣ base) (hid : id < 2 ^ width) :
    (base / 2 ^ width * 2 ^ width + id) / 2 ^ host = base / 2 ^ host ↔
      id / 2 ^ host = base % 2 ^ width / 2 ^ host := by
  rcases Nat.le_total width host with hle | hle
  · -- The id fits, and takes the place of zero bits.
    have hlt : id < 2 ^ host := lt_of_lt_of_le hid (Nat.pow_le_pow_right (by decide) hle)
    have hdvd : 2 ^ width ∣ base := (pow_dvd_pow 2 hle).trans hbase
    obtain ⟨m, rfl⟩ := hbase
    rw [Nat.div_mul_cancel hdvd, Nat.mod_eq_zero_of_dvd hdvd, Nat.zero_div,
      Nat.mul_add_div (Nat.two_pow_pos _), Nat.mul_div_cancel_left _ (Nat.two_pow_pos _)]
    simp [Nat.div_eq_of_lt hlt]
  · have hhigh : 2 ^ host ∣ base / 2 ^ width * 2 ^ width :=
      (pow_dvd_pow 2 hle).trans (Nat.dvd_mul_left _ _)
    have hsplit : base / 2 ^ host =
        base / 2 ^ width * 2 ^ width / 2 ^ host + base % 2 ^ width / 2 ^ host := by
      rw [← Nat.add_div_of_dvd_right hhigh, Nat.div_add_mod']
    rw [Nat.add_div_of_dvd_right hhigh, hsplit, Nat.add_left_cancel_iff]

/-- What is left over by one power of two below another one that divides is nothing. -/
theorem mod_two_pow_eq_zero {base host width : ℕ} (hbase : 2 ^ host ∣ base)
    (hlt : base % 2 ^ width / 2 ^ host = 0) : base % 2 ^ width = 0 := by
  rcases Nat.le_total width host with hle | hle
  · exact Nat.mod_eq_zero_of_dvd ((pow_dvd_pow 2 hle).trans hbase)
  · have hdvd : 2 ^ host ∣ base % 2 ^ width := (Nat.dvd_mod_iff (pow_dvd_pow 2 hle)).mpr hbase
    exact Nat.eq_zero_of_dvd_of_lt hdvd
      ((Nat.div_eq_zero_iff_lt (Nat.two_pow_pos _)).mp hlt)

namespace Allocator

variable {a : Allocator} {id : ℕ}

theorem exists_v6 (a : Allocator) : ∃ b z, a.v6.addr = .v6 b z := by
  have h6 := a.v6_is6
  cases hv : a.v6.addr with
  | v4 b =>
    rw [hv] at h6
    cases h6
  | v6 b z => exact ⟨b, z, rfl⟩

/-- The bytes that are copied stay within the address. -/
theorem overwritten_lt (a : Allocator) (h0 : id ≠ 0) (hid : id < 2 ^ 64) :
    a.v6.addr.toNat / 2 ^ idBits id * 2 ^ idBits id + id < 2 ^ 128 := by
  have hlt : a.v6.addr.toNat < 2 ^ 128 := by
    obtain ⟨b, z, hb⟩ := a.exists_v6
    rw [hb]
    exact b.isLt
  have hbits := idBits_le h0 hid
  have hpow : (2 : ℕ) ^ 128 = 2 ^ (128 - idBits id) * 2 ^ idBits id := by
    rw [← pow_add]
    congr 1
    omega
  have hdiv : a.v6.addr.toNat / 2 ^ idBits id < 2 ^ (128 - idBits id) := by
    rw [Nat.div_lt_iff_lt_mul (Nat.two_pow_pos _), ← hpow]
    exact hlt
  calc a.v6.addr.toNat / 2 ^ idBits id * 2 ^ idBits id + id
      < a.v6.addr.toNat / 2 ^ idBits id * 2 ^ idBits id + 2 ^ idBits id :=
        Nat.add_lt_add_left (lt_two_pow_idBits h0) _
    _ = (a.v6.addr.toNat / 2 ^ idBits id + 1) * 2 ^ idBits id := by rw [Nat.succ_mul]
    _ ≤ 2 ^ (128 - idBits id) * 2 ^ idBits id := Nat.mul_le_mul_right _ hdiv
    _ = 2 ^ 128 := hpow.symm

/-- **The test for overflow** compares the high bits of the id with the bits they took the place
of. -/
theorem allocateV6For_eq_ok_iff (h0 : id ≠ 0) (hid : id < 2 ^ 64) {x : Addr} :
    a.allocateV6For id = .ok x ↔
      id / 2 ^ a.v6.hostBits = a.v6.addr.toNat % 2 ^ idBits id / 2 ^ a.v6.hostBits ∧
      x.is4 = false ∧ x.zone = "" ∧
      x.toNat = a.v6.addr.toNat / 2 ^ idBits id * 2 ^ idBits id + id := by
  set addr := Addr.v6 (BitVec.ofNat 128
    (a.v6.addr.toNat / 2 ^ idBits id * 2 ^ idBits id + id)) "" with haddr
  have hnat : addr.toNat = a.v6.addr.toNat / 2 ^ idBits id * 2 ^ idBits id + id := by
    rw [haddr, Addr.toNat_v6, BitVec.toNat_ofNat, Nat.mod_eq_of_lt (a.overwritten_lt h0 hid)]
  have hcontains : a.v6.contains addr = true ↔
      id / 2 ^ a.v6.hostBits = a.v6.addr.toNat % 2 ^ idBits id / 2 ^ a.v6.hostBits := by
    obtain ⟨b, z, hb⟩ := a.exists_v6
    rw [Prefix.contains_iff, hnat, div_overwrite a.v6_masked (lt_two_pow_idBits h0)]
    simp [haddr, hb]
  have heq : x = addr ↔ x.is4 = false ∧ x.zone = "" ∧
      x.toNat = a.v6.addr.toNat / 2 ^ idBits id * 2 ^ idBits id + id := by
    rw [← hnat]
    constructor
    · rintro rfl
      exact ⟨rfl, rfl, rfl⟩
    · rintro ⟨h4, hz, hn⟩
      exact Addr.ext_toNat h4 hz hn
  have hdef : a.allocateV6For id =
      if a.v6.contains addr then .ok addr else .error (.overflows id a.v6) := by
    rw [allocateV6For, if_neg h0]
    rfl
  rw [hdef, ← hcontains, ← heq]
  split_ifs with hmem
  · simp [hmem, eq_comm]
  · simp [hmem]

theorem exists_allocateV6For_iff (h0 : id ≠ 0) (hid : id < 2 ^ 64) :
    (∃ x, a.allocateV6For id = .ok x) ↔
      id / 2 ^ a.v6.hostBits = a.v6.addr.toNat % 2 ^ idBits id / 2 ^ a.v6.hostBits := by
  constructor
  · rintro ⟨x, hx⟩
    exact ((allocateV6For_eq_ok_iff h0 hid).mp hx).1
  · intro h
    refine ⟨.v6 (BitVec.ofNat 128 (a.v6.addr.toNat / 2 ^ idBits id * 2 ^ idBits id + id)) "",
      (allocateV6For_eq_ok_iff h0 hid).mpr ⟨h, rfl, rfl, ?_⟩⟩
    rw [Addr.toNat_v6, BitVec.toNat_ofNat, Nat.mod_eq_of_lt (a.overwritten_lt h0 hid)]

/-- An id that is clear of the prefix is added to it. -/
theorem toNat_allocateV6For (h0 : id ≠ 0) (hid : id < 2 ^ 64) (hclear : Clear a.v6 id) {x : Addr}
    (hx : a.allocateV6For id = .ok x) : x.toNat = a.v6.addr.toNat + id := by
  obtain ⟨hhigh, -, -, hnat⟩ := (allocateV6For_eq_ok_iff h0 hid).mp hx
  have hfits : id < 2 ^ a.v6.hostBits := hclear.resolve_right fun hne => hne hhigh
  rw [Nat.div_eq_of_lt hfits] at hhigh
  have hzero := mod_two_pow_eq_zero a.v6_masked hhigh.symm
  rw [hnat, Nat.div_mul_cancel (Nat.dvd_of_mod_eq_zero hzero)]

end Allocator

/-- **When the IPv6 addresses of two ids are apart**: exactly when both are clear of the prefix. -/
theorem apart_iff {v4? v6? : Option Prefix} {a : Allocator} (h : new v4? v6? = .ok a) {i j : ℕ}
    (hij : i ≠ j) (hi0 : i ≠ 0) (hj0 : j ≠ 0) (hi : i < 2 ^ 64) (hj : j < 2 ^ 64) :
    Apart (v6?.getD defaultIPv6Prefix) a i j ↔ Clear a.v6 i ∧ Clear a.v6 j := by
  have hv6 := (v4_new h).2
  have hhost : (v6?.getD defaultIPv6Prefix).hostBits = a.v6.hostBits := by
    rw [hv6, Prefix.hostBits_masked]
  -- An id is clear if and only if it fits or has no address.
  have hclear : ∀ k, k ≠ 0 → k < 2 ^ 64 →
      (Clear a.v6 k ↔ (2 ^ a.v6.hostBits ≤ k → ¬ ∃ x, a.allocateV6For k = .ok x)) := by
    intro k hk0 hk
    rw [Clear, Allocator.exists_allocateV6For_iff hk0 hk, ← Nat.not_lt]
    tauto
  constructor
  · intro hapart
    rw [hclear i hi0 hi, hclear j hj0 hj, ← hhost]
    exact ⟨hapart.rejected i (.inl rfl), hapart.rejected j (.inr rfl)⟩
  · rintro ⟨hci, hcj⟩
    refine ⟨?_, ?_, ?_⟩
    · rintro x _ hx hy rfl
      have hxi := Allocator.toNat_allocateV6For hi0 hi hci hx
      have hxj := Allocator.toNat_allocateV6For hj0 hj hcj hy
      omega
    · intro k _ x hx
      rw [← Prefix.contains_masked, ← hv6]
      exact (Allocator.allocateV6For_ok hx).2.2
    · rw [hhost]
      rintro k (rfl | rfl)
      · exact (hclear k hi0 hi).mp hci
      · exact (hclear k hj0 hj).mp hcj

/-- `fd00::1:0/112`. -/
def samplePrefix112 : Prefix := ⟨.v6 0xfd000000000000000000000000010000#128 "", 112, by decide, rfl⟩

theorem isSome_new_samplePrefix112 : (new none (some samplePrefix112)).toOption.isSome = true := rfl

/-- An allocator whose prefix reaches into the bytes of the ids. -/
def sampleAllocator6 : Allocator :=
  (new none (some samplePrefix112)).toOption.get isSome_new_samplePrefix112

theorem new_samplePrefix112 : new none (some samplePrefix112) = .ok sampleAllocator6 := rfl

/-- Ids that fit are apart. -/
theorem apart_five_six : Apart samplePrefix112 sampleAllocator6 5 6 :=
  (apart_iff new_samplePrefix112 (by decide) (by decide) (by decide) (by decide) (by decide)).mpr
    (by decide +kernel)

/-- **Two nodes, one address.** The bytes `01 00 05` of the second id take the place of the bytes
`01 00 00` of the prefix. -/
theorem five_collides :
    ∃ x, sampleAllocator6.allocateV6For 5 = .ok x ∧ sampleAllocator6.allocateV6For 0x10005 = .ok x ∧
      ¬ 0x10005 < 2 ^ samplePrefix112.hostBits := by
  exact ⟨.v6 0xfd000000000000000000000000010005#128 "", by decide +kernel⟩

end Ipam

end OverMesh
