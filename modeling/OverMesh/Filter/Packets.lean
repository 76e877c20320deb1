import OverMesh.Filter.Basic

/-!
# Reading the bytes of a packet

`parse` reads a packet at fixed offsets. Three questions about that are settled here.

The first is whether it reads outside the packet. `parseBytes` is `parse` with Go's checks on
indices and slices, where an access out of range ends in a panic, and it never does.

The second is what becomes of the later fragments of an IPv4 packet. They have no ports and are
judged as port 0, but `parse` looks for the ports first and drops what is too short for them.

The third is what becomes of IPv6 extension headers. A packet may carry any number of them before
the header with the ports, and `parse` looks at the first one only: it takes its number for the
protocol, and no port. Rules that name a protocol or ports then pass such a packet by.

## Main definitions

* `parseBytes` — `parse` with checked accesses
* `CompleteHeader` — the bytes hold all that `parse` reads
* `Fragment4` — a later fragment of an IPv4 packet
* `CarriesExt6` — an IPv6 packet whose ports come after extension headers
* `Filter.unspecific` — what the rules say about a source if they name no protocol and no port

## Main results

* `parseBytes_eq` — **no access is out of range**
* `allowsPacket_of_incomplete` — bytes without a complete header are dropped
* `allowsPacket_fragment_iff` — **when a later fragment is judged by its source and protocol**
* `allowsPacket_ext_iff` — **when a packet with extension headers is judged like one without**
-/

namespace OverMesh

open Netip

namespace Filter

variable {pkt : List UInt8}

/-! ### Checked accesses -/

/-- `pkt[i]`. Out of range there is a panic. -/
def index (pkt : List UInt8) (i : ℕ) : Option UInt8 := pkt[i]?

/-- `pkt[lo:hi]`. -/
def slice (pkt : List UInt8) (lo hi : ℕ) : Option (List UInt8) :=
  if lo ≤ hi ∧ hi ≤ pkt.length then some ((pkt.drop lo).take (hi - lo)) else none

/-- `binary.BigEndian.Uint16(b)`, which reads `b[1]` and `b[0]`. -/
def bigEndianUint16 (b : List UInt8) : Option UInt16 :=
  (index b 1).bind fun lo => (index b 0).map fun hi =>
    (hi.toUInt16 <<< (8 : UInt16)) ||| lo.toUInt16

/-- The value of the bytes of an address. -/
def addrValue (b : List UInt8) : ℕ := b.foldl (fun acc b => acc * 256 + b.toNat) 0

/-- The IPv4 case of `parse`, with a panic as `none` and a refused packet as `some none`. -/
def parseBytes4 (pkt : List UInt8) (b0 : UInt8) : Option (Option (Addr × UInt8 × UInt16)) :=
  if pkt.length < 20 then some none
  else if (b0 &&& 0x0f).toNat * 4 < 20 ∨ pkt.length < (b0 &&& 0x0f).toNat * 4 then some none
  else
    let ihl := (b0 &&& 0x0f).toNat * 4
    (index pkt 9).bind fun proto =>
    (slice pkt 12 16).bind fun a =>
    if hasPorts proto ∧ pkt.length < ihl + 4 then some none
    else
      (if hasPorts proto then (slice pkt (ihl + 2) (ihl + 4)).bind bigEndianUint16
        else some 0).bind fun dstPort =>
      ((slice pkt 6 8).bind bigEndianUint16).bind fun frag =>
      some (some (.v4 (BitVec.ofNat 32 (addrValue a)), proto,
        if frag &&& 0x1fff ≠ 0 then 0 else dstPort))

/-- The IPv6 case of `parse`. -/
def parseBytes6 (pkt : List UInt8) : Option (Option (Addr × UInt8 × UInt16)) :=
  if pkt.length < 40 then some none
  else
    (index pkt 6).bind fun proto =>
    (slice pkt 8 24).bind fun a =>
    if hasPorts proto ∧ pkt.length < 44 then some none
    else
      (if hasPorts proto then (slice pkt 42 44).bind bigEndianUint16
        else some 0).bind fun dstPort =>
      some (some (.v6 (BitVec.ofNat 128 (addrValue a)) "", proto, dstPort))

/-- `parse` with checked accesses. -/
def parseBytes (pkt : List UInt8) : Option (Option (Addr × UInt8 × UInt16)) :=
  if pkt.length < 1 then some none
  else (index pkt 0).bind fun b0 =>
    if b0 >>> 4 = 4 then parseBytes4 pkt b0
    else if b0 >>> 4 = 6 then parseBytes6 pkt
    else some none

theorem index_eq {i : ℕ} (h : i < pkt.length) : index pkt i = some (byteAt pkt i) := by
  rw [index, byteAt, List.getD_eq_getElem?_getD, List.getElem?_eq_getElem h, Option.getD_some]

theorem slice_eq (lo len : ℕ) (h : lo + len ≤ pkt.length) :
    slice pkt lo (lo + len) = some ((pkt.drop lo).take len) := by
  rw [slice, if_pos ⟨Nat.le_add_right _ _, h⟩, Nat.add_sub_cancel_left]

theorem byteAt_slice {lo len i : ℕ} (h : i < len) :
    byteAt ((pkt.drop lo).take len) i = byteAt pkt (lo + i) := by
  simp only [byteAt, List.getD_eq_getElem?_getD, List.getElem?_take_of_lt h, List.getElem?_drop]

/-- The two bytes at an offset. -/
theorem bigEndianUint16_slice {i : ℕ} (h : i + 2 ≤ pkt.length) :
    (slice pkt i (i + 2)).bind bigEndianUint16 = some (uint16At pkt i) := by
  have hlen : ((pkt.drop i).take 2).length = 2 := by
    rw [List.length_take, List.length_drop]
    omega
  rw [slice_eq i 2 h, Option.bind_some, bigEndianUint16, index_eq (by omega), index_eq (by omega),
    byteAt_slice (by omega), byteAt_slice (by omega)]
  rfl

/-- The port of a packet whose protocol has ports. -/
theorem port_eq {proto : UInt8} {i : ℕ} (h : hasPorts proto = true → i + 2 ≤ pkt.length) :
    (if hasPorts proto then (slice pkt i (i + 2)).bind bigEndianUint16 else some 0) =
      some (if hasPorts proto then uint16At pkt i else 0) := by
  by_cases hp : hasPorts proto = true
  · rw [if_pos hp, if_pos hp, bigEndianUint16_slice (h hp)]
  · rw [if_neg hp, if_neg hp]

theorem parseBytes4_eq (pkt : List UInt8) : parseBytes4 pkt (byteAt pkt 0) = some (parse4 pkt) := by
  rw [parseBytes4, parse4]
  change (if _ then _ else if headerLen pkt < 20 ∨ pkt.length < headerLen pkt then _ else _) = _
  by_cases h20 : pkt.length < 20
  · rw [if_pos h20, if_pos h20]
  by_cases hihl : headerLen pkt < 20 ∨ pkt.length < headerLen pkt
  · rw [if_neg h20, if_neg h20, if_pos hihl, if_pos hihl]
  rw [if_neg h20, if_neg h20, if_neg hihl, if_neg hihl, index_eq (by omega), Option.bind_some,
    slice_eq 12 4 (by omega), Option.bind_some]
  by_cases hshort : hasPorts (byteAt pkt 9) = true ∧ pkt.length < headerLen pkt + 4
  · exact (if_pos hshort).trans (congrArg some (if_pos hshort).symm)
  have hport : hasPorts (byteAt pkt 9) = true → headerLen pkt + 2 + 2 ≤ pkt.length := fun hp => by
    by_contra hlt
    exact hshort ⟨hp, by omega⟩
  refine (if_neg hshort).trans ?_
  change Option.bind (if _ then (slice pkt (headerLen pkt + 2) (headerLen pkt + 2 + 2)).bind _
    else _) _ = _
  rw [port_eq hport, Option.bind_some, bigEndianUint16_slice (by omega), Option.bind_some,
    if_neg hshort]
  rfl

theorem parseBytes6_eq (pkt : List UInt8) : parseBytes6 pkt = some (parse6 pkt) := by
  rw [parseBytes6, parse6]
  by_cases h40 : pkt.length < 40
  · rw [if_pos h40, if_pos h40]
  rw [if_neg h40, if_neg h40, index_eq (by omega), Option.bind_some, slice_eq 8 16 (by omega),
    Option.bind_some]
  by_cases hshort : hasPorts (byteAt pkt 6) = true ∧ pkt.length < 44
  · rw [if_pos hshort, if_pos hshort]
  have hport : hasPorts (byteAt pkt 6) = true → 42 + 2 ≤ pkt.length := fun hp => by
    by_contra hlt
    exact hshort ⟨hp, by omega⟩
  rw [if_neg hshort, if_neg hshort, port_eq hport, Option.bind_some]
  rfl

/-- **No access of `parse` is out of range.** -/
theorem parseBytes_eq (pkt : List UInt8) : parseBytes pkt = some (parse pkt) := by
  rw [parseBytes, parse]
  by_cases hnil : pkt.length < 1
  · rw [if_pos hnil, if_pos hnil]
  rw [if_neg hnil, if_neg hnil, index_eq (by omega), Option.bind_some]
  split_ifs
  · exact parseBytes4_eq pkt
  · exact parseBytes6_eq pkt
  · rfl

/-! ### Incomplete packets -/

/-- The bytes begin with a whole IPv4 or IPv6 header and, for a protocol with ports, hold the
ports. -/
def CompleteHeader (pkt : List UInt8) : Prop :=
  byteAt pkt 0 >>> 4 = 4 ∧ 20 ≤ headerLen pkt ∧ headerLen pkt ≤ pkt.length ∧
      (hasPorts (byteAt pkt 9) = true → headerLen pkt + 4 ≤ pkt.length) ∨
    byteAt pkt 0 >>> 4 = 6 ∧ 40 ≤ pkt.length ∧
      (hasPorts (byteAt pkt 6) = true → 44 ≤ pkt.length)

theorem parse4_of_incomplete (h : ¬ (20 ≤ headerLen pkt ∧ headerLen pkt ≤ pkt.length ∧
    (hasPorts (byteAt pkt 9) = true → headerLen pkt + 4 ≤ pkt.length))) : parse4 pkt = none := by
  rw [parse4]
  by_cases h20 : pkt.length < 20
  · rw [if_pos h20]
  by_cases hihl : headerLen pkt < 20 ∨ pkt.length < headerLen pkt
  · rw [if_neg h20, if_pos hihl]
  rw [if_neg h20, if_neg hihl, if_pos]
  by_contra hports
  refine h ⟨by omega, by omega, fun hp => ?_⟩
  by_contra hlt
  exact hports ⟨hp, by omega⟩

theorem parse6_of_incomplete (h : ¬ (40 ≤ pkt.length ∧
    (hasPorts (byteAt pkt 6) = true → 44 ≤ pkt.length))) : parse6 pkt = none := by
  rw [parse6]
  by_cases h40 : pkt.length < 40
  · rw [if_pos h40]
  rw [if_neg h40, if_pos]
  by_contra hports
  refine h ⟨by omega, fun hp => ?_⟩
  by_contra hlt
  exact hports ⟨hp, by omega⟩

/-- **Bytes without a complete header are dropped.** -/
theorem allowsPacket_of_incomplete {f : Filter} (hf : f.enabled = true)
    (h : ¬ CompleteHeader pkt) : allowsPacket (some f) pkt = false := by
  rw [CompleteHeader, not_or] at h
  have hparse : parse pkt = none := by
    rw [parse]
    split_ifs with hnil h4 h6
    · rfl
    · exact parse4_of_incomplete fun hc => h.1 ⟨h4, hc⟩
    · exact parse6_of_incomplete fun hc => h.2 ⟨h6, hc⟩
    · rfl
  simp [allowsPacket, hf, hparse]

/-! ### Later fragments -/

/-- An IPv4 packet with a valid header and a fragment offset, with any number of bytes after the
header. -/
structure Fragment4 (pkt : List UInt8) (src : BitVec 32) (proto : UInt8) : Prop where
  version : byteAt pkt 0 >>> 4 = 4
  header : 20 ≤ headerLen pkt
  length : headerLen pkt ≤ pkt.length
  offset : uint16At pkt 6 &&& 0x1fff ≠ 0
  protocol : byteAt pkt 9 = proto
  source : numberAt pkt 12 4 = src.toNat

/-- There is room for the ports of a protocol that has them, or the fragment is refused anyway. -/
def Roomy (f : Filter) (pkt : List UInt8) (src : BitVec 32) (proto : UInt8) : Prop :=
  (hasPorts proto = true → headerLen pkt + 4 ≤ pkt.length) ∨ f.allows (.v4 src) proto 0 = false

theorem parse_fragment4 {src : BitVec 32} {proto : UInt8} (h : Fragment4 pkt src proto) :
    parse pkt = if hasPorts proto ∧ pkt.length < headerLen pkt + 4 then none
      else some (.v4 src, proto, 0) := by
  have hlen := h.length
  have hhdr := h.header
  rw [parse, if_neg (by omega), if_pos h.version, parse4, if_neg (by omega), if_neg (by omega),
    h.source, BitVec.ofNat_toNat, BitVec.setWidth_eq, if_pos h.offset, h.protocol]

theorem allowsPacket_fragment {f : Filter} (hf : f.enabled = true) {src : BitVec 32} {proto : UInt8}
    (h : Fragment4 pkt src proto) : allowsPacket (some f) pkt =
      if hasPorts proto ∧ pkt.length < headerLen pkt + 4 then false
      else f.allows (.v4 src) proto 0 := by
  rw [allowsPacket, parse_fragment4 h, hf, Bool.not_true, if_neg Bool.false_ne_true]
  split_ifs <;> rfl

/-- **When a later fragment is judged by its source and protocol only**: if there are four bytes
where the ports would be, or the protocol has no ports, or the fragment is refused anyway. Two such
fragments get the same verdict. -/
theorem allowsPacket_fragment_iff {f : Filter} (hf : f.enabled = true) {src : BitVec 32}
    {proto : UInt8} (h : Fragment4 pkt src proto) :
    (allowsPacket (some f) pkt = f.allows (.v4 src) proto 0 ↔ Roomy f pkt src proto) ∧
      ∀ pkt', Fragment4 pkt' src proto → Roomy f pkt src proto → Roomy f pkt' src proto →
        allowsPacket (some f) pkt = allowsPacket (some f) pkt' := by
  have hiff : ∀ pkt', Fragment4 pkt' src proto →
      (allowsPacket (some f) pkt' = f.allows (.v4 src) proto 0 ↔ Roomy f pkt' src proto) := by
    intro pkt' h'
    rw [allowsPacket_fragment hf h', Roomy]
    split_ifs with hshort
    · have htight : ¬ (hasPorts proto = true → headerLen pkt' + 4 ≤ pkt'.length) := fun hroom =>
        absurd (hroom hshort.1) (Nat.not_le.mpr hshort.2)
      rw [or_iff_right htight, eq_comm]
    · exact iff_of_true rfl (.inl fun hports => Nat.not_lt.mp fun hlt => hshort ⟨hports, hlt⟩)
  refine ⟨hiff pkt h, ?_⟩
  intro pkt' h' hroom hroom'
  rw [(hiff pkt h).mpr hroom, (hiff pkt' h').mpr hroom']

/-- A later fragment of a datagram from `10.0.0.2`. -/
def sampleFragment (payload : List UInt8) : List UInt8 :=
  [0x45, 0, 0, 21, 0, 1, 0, 185, 64, 17, 0, 0, 10, 0, 0, 2, 10, 0, 0, 1] ++ payload

theorem fragment4_sampleFragment (payload : List UInt8) :
    Fragment4 (sampleFragment payload) 0x0a000002#32 protoUDP where
  version := by
    change (0x45 : UInt8) >>> 4 = 4
    decide
  header := by
    change 20 ≤ (0x45 &&& 0x0f : UInt8).toNat * 4
    decide
  length := by
    change (0x45 &&& 0x0f : UInt8).toNat * 4 ≤ (sampleFragment payload).length
    rw [sampleFragment, List.length_append]
    exact Nat.le_add_right 20 _
  offset := by
    change ((0 : UInt8).toUInt16 <<< 8 ||| (185 : UInt8).toUInt16) &&& 0x1fff ≠ 0
    decide
  protocol := rfl
  source := rfl

/-- Fragments with eight bytes are let in. -/
theorem allowsPacket_fragment_eight :
    allowsPacket (some ⟨true, [⟨true, [], "udp", []⟩]⟩) (sampleFragment (List.replicate 8 0)) =
      Filter.allows ⟨true, [⟨true, [], "udp", []⟩]⟩ (.v4 0x0a000002#32) protoUDP 0 :=
  (allowsPacket_fragment_iff rfl (fragment4_sampleFragment _)).1.mpr (.inl fun _ => by decide)

/-- **A last fragment of one byte is dropped** although its source and protocol are allowed. -/
theorem last_fragment_dropped :
    Fragment4 (sampleFragment [0]) 0x0a000002#32 protoUDP ∧
      Filter.allows ⟨true, [⟨true, [], "udp", []⟩]⟩ (.v4 0x0a000002#32) protoUDP 0 = true ∧
      allowsPacket (some ⟨true, [⟨true, [], "udp", []⟩]⟩) (sampleFragment [0]) = false :=
  ⟨fragment4_sampleFragment _, by decide +kernel, by decide +kernel⟩

/-! ### Extension headers -/

/-- Hop-by-hop options, routing and destination options: the next header, the length in units of
eight bytes not counting the first, and the options. -/
def isOptions (nextHeader : UInt8) : Bool := nextHeader = 0 ∨ nextHeader = 43 ∨ nextHeader = 60

/-- The fragment header. -/
def protoFragment : UInt8 := 44

/-- Following the chain of headers from offset `off`, where a header of kind `nextHeader` stands,
leads to the header of the protocol `proto` at offset `stop`. -/
inductive Chain (pkt : List UInt8) (proto : UInt8) (stop : ℕ) : UInt8 → ℕ → Prop
  | upper : Chain pkt proto stop proto stop
  | options {nextHeader : UInt8} {off : ℕ} (hkind : isOptions nextHeader = true)
    (hnext : Chain pkt proto stop (byteAt pkt off)
      (off + ((byteAt pkt (off + 1)).toNat + 1) * 8)) : Chain pkt proto stop nextHeader off
  /-- The first fragment has the offset 0. -/
  | firstFragment {off : ℕ} (hoffset : uint16At pkt (off + 2) >>> 3 = 0)
    (hnext : Chain pkt proto stop (byteAt pkt off) (off + 8)) :
    Chain pkt proto stop protoFragment off

/-- An IPv6 packet of a protocol with ports, after any chain of extension headers. -/
structure CarriesExt6 (pkt : List UInt8) (src : BitVec 128) (proto : UInt8) (dstPort : UInt16) :
    Prop where
  version : byteAt pkt 0 >>> 4 = 6
  source : numberAt pkt 8 16 = src.toNat
  ports : hasPorts proto = true
  upper : ∃ stop, Chain pkt proto stop (byteAt pkt 6) 40 ∧ stop + 4 ≤ pkt.length ∧
    uint16At pkt (stop + 2) = dstPort

/-- The verdict of the rules that name no protocol and no port. -/
def unspecific (f : Filter) (src : Addr) : Bool :=
  FirstMatch.eval (fun r : Rule => r.proto = "" ∧ r.ports = [] ∧ r.matchesSrc src) (·.allow) false
    f.rules

section Chain

variable {proto nextHeader : UInt8} {stop off : ℕ}

theorem Chain.le (h : Chain pkt proto stop nextHeader off) : off ≤ stop := by
  induction h with
  | upper => exact le_refl _
  | options _ _ ih => omega
  | firstFragment _ _ ih => omega

/-- The kinds of headers that a chain goes through. -/
def isExtension (nextHeader : UInt8) : Bool := isOptions nextHeader || nextHeader == protoFragment

theorem Chain.extended (h : Chain pkt proto stop nextHeader off) (hne : nextHeader ≠ proto) :
    isExtension nextHeader = true := by
  cases h with
  | upper => exact absurd rfl hne
  | options hkind _ => rw [isExtension, hkind, Bool.true_or]
  | firstFragment _ _ => rfl

/-- None of them is a protocol that rules know. -/
theorem ne_of_isExtension (h : isExtension nextHeader = true) :
    nextHeader ≠ protoTCP ∧ nextHeader ≠ protoUDP ∧ nextHeader ≠ protoICMP4 ∧
      nextHeader ≠ protoICMP6 := by
  rw [isExtension, Bool.or_eq_true, isOptions, decide_eq_true_iff, beq_iff_eq] at h
  rcases h with (rfl | rfl | rfl) | rfl <;> decide

theorem hasPorts_of_isExtension (h : isExtension nextHeader = true) :
    hasPorts nextHeader = false := by
  obtain ⟨htcp, hudp, -⟩ := ne_of_isExtension h
  rw [hasPorts, beq_false_of_ne htcp, beq_false_of_ne hudp]
  rfl

/-- A chain that begins with the protocol is over. -/
theorem Chain.stop_eq (h : Chain pkt proto stop proto off) (hports : hasPorts proto = true) :
    stop = off := by
  have hnot : isExtension proto ≠ true := fun hext => by
    rw [hasPorts_of_isExtension hext] at hports
    cases hports
  cases h with
  | upper => rfl
  | options hkind _ => exact absurd (by rw [isExtension, hkind, Bool.true_or]) hnot
  | firstFragment _ _ => exact absurd rfl hnot

/-- An extension header is matched by the rules that name no protocol and no port. -/
theorem allows_extension (f : Filter) (src : Addr) (port : UInt16)
    (h : isExtension nextHeader = true) : f.allows src nextHeader port = f.unspecific src := by
  obtain ⟨htcp, hudp, hicmp4, hicmp6⟩ := ne_of_isExtension h
  have hrule : ∀ r : Rule, (r.matchesProto nextHeader && r.matchesSrc src &&
      r.matchesPort nextHeader port) =
        decide (r.proto = "" ∧ r.ports = [] ∧ r.matchesSrc src = true) := by
    intro r
    have hproto : r.matchesProto nextHeader = decide (r.proto = "") := by
      rw [Rule.matchesProto]
      split_ifs with hany
      · exact (decide_eq_true hany).symm
      · rw [decide_eq_false hany, beq_false_of_ne htcp]
      · rw [decide_eq_false hany, beq_false_of_ne hudp]
      · rw [decide_eq_false hany, beq_false_of_ne hicmp4, beq_false_of_ne hicmp6]
        rfl
      · exact (decide_eq_false hany).symm
    have hport : r.matchesPort nextHeader port = decide (r.ports = []) := by
      rw [Rule.matchesPort, beq_false_of_ne htcp, beq_false_of_ne hudp, Bool.or_self,
        Bool.false_and, Bool.or_false, Bool.eq_iff_iff, List.isEmpty_iff, decide_eq_true_iff]
    rw [hproto, hport, Bool.eq_iff_iff]
    simp only [Bool.and_eq_true, decide_eq_true_iff]
    tauto
  rw [allows, unspecific]
  exact congrArg (fun hit => FirstMatch.eval hit (·.allow) false f.rules) (funext hrule)

end Chain

/-- **When extension headers make no difference.** A packet whose ports come after a chain of
extension headers is judged like one without the chain exactly if there is no chain, or the rules
that name a protocol or a port do not matter to the verdict. -/
theorem allowsPacket_ext_iff {f : Filter} (hf : f.enabled = true) {pkt' : List UInt8}
    {src : BitVec 128} {proto : UInt8} {dstPort : UInt16}
    (hpkt : CarriesExt6 pkt src proto dstPort) (hplain : Layout6 pkt' src proto dstPort) :
    allowsPacket (some f) pkt = allowsPacket (some f) pkt' ↔
      byteAt pkt 6 = proto ∨
        f.allows (.v6 src "") proto dstPort = f.unspecific (.v6 src "") := by
  obtain ⟨stop, hchain, hlen, hport⟩ := hpkt.upper
  have hstop := hchain.le
  have hplain' : allowsPacket (some f) pkt' = f.allows (.v6 src "") proto dstPort := by
    simp [allowsPacket, hf, parse_layout6 hplain, hpkt.ports]
  rw [hplain']
  by_cases hnext : byteAt pkt 6 = proto
  · rw [hnext] at hchain
    obtain rfl := hchain.stop_eq hpkt.ports
    have hlayout : Layout6 pkt src proto dstPort :=
      ⟨hpkt.version, by omega, hnext, hpkt.source, fun _ => ⟨by omega, hport⟩⟩
    simp [allowsPacket, hf, parse_layout6 hlayout, hpkt.ports, hnext]
  · have hext := hchain.extended hnext
    have hlayout : Layout6 pkt src (byteAt pkt 6) 0 := by
      refine ⟨hpkt.version, by omega, rfl, hpkt.source, fun hp => ?_⟩
      rw [hasPorts_of_isExtension hext] at hp
      cases hp
    have hverdict : allowsPacket (some f) pkt = f.unspecific (.v6 src "") := by
      simp [allowsPacket, hf, parse_layout6 hlayout, allows_extension f _ _ hext]
    rw [hverdict]
    constructor
    · intro h
      exact .inr h.symm
    · rintro (h | h)
      · exact absurd h hnext
      · exact h.symm

/-! ### Sample packets -/

/-- An IPv6 packet from `fd00::1` with the next header `next` and the payload `payload`. -/
def samplePacket6 (next : UInt8) (payload : List UInt8) : List UInt8 :=
  [0x60, 0, 0, 0, 0, 12, next, 64] ++ 0xfd :: List.replicate 14 0 ++ [1] ++ List.replicate 16 0 ++
    payload

/-- A segment for tcp port 22. -/
def sampleSegment : List UInt8 := [0, 99, 0, 22]

/-- The segment after hop-by-hop options. -/
def sampleExtended : List UInt8 := samplePacket6 0 ([6, 0, 1, 4, 0, 0, 0, 0] ++ sampleSegment)

theorem carriesExt6_sampleExtended :
    CarriesExt6 sampleExtended 0xfd000000000000000000000000000001#128 protoTCP 22 where
  version := by decide
  source := by decide +kernel
  ports := by decide
  upper := ⟨48, .options (by decide) .upper, by decide, by decide⟩

theorem layout6_samplePacket6 :
    Layout6 (samplePacket6 protoTCP sampleSegment) 0xfd000000000000000000000000000001#128
      protoTCP 22 := by
  constructor <;> decide +kernel

/-- With a rule that allows everything the headers make no difference. -/
theorem allowsPacket_ext_sample :
    CarriesExt6 sampleExtended 0xfd000000000000000000000000000001#128 protoTCP 22 ∧
      (allowsPacket (some ⟨true, [⟨true, [], "", []⟩]⟩) sampleExtended =
          allowsPacket (some ⟨true, [⟨true, [], "", []⟩]⟩)
            (samplePacket6 protoTCP sampleSegment) ↔
        byteAt sampleExtended 6 = protoTCP ∨
          Filter.allows ⟨true, [⟨true, [], "", []⟩]⟩
              (.v6 0xfd000000000000000000000000000001#128 "") protoTCP 22 =
            Filter.unspecific ⟨true, [⟨true, [], "", []⟩]⟩
              (.v6 0xfd000000000000000000000000000001#128 "")) :=
  ⟨carriesExt6_sampleExtended,
    allowsPacket_ext_iff rfl carriesExt6_sampleExtended layout6_samplePacket6⟩

/-- **A port rule that is evaded.** Port 22 is closed and everything else is open. The segment for
port 22 is dropped, and after hop-by-hop options it is let in. -/
theorem extension_evades :
    CarriesExt6 sampleExtended 0xfd000000000000000000000000000001#128 protoTCP 22 ∧
      Layout6 (samplePacket6 protoTCP sampleSegment) 0xfd000000000000000000000000000001#128
        protoTCP 22 ∧
      allowsPacket (some ⟨true, [⟨false, [], "tcp", [⟨22, 22⟩]⟩, ⟨true, [], "", []⟩]⟩)
        (samplePacket6 protoTCP sampleSegment) = false ∧
      allowsPacket (some ⟨true, [⟨false, [], "tcp", [⟨22, 22⟩]⟩, ⟨true, [], "", []⟩]⟩)
        sampleExtended = true :=
  ⟨carriesExt6_sampleExtended, layout6_samplePacket6, by decide +kernel, by decide +kernel⟩

end Filter

end OverMesh
