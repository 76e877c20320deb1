import OverMesh.Internal.FirstMatch
import OverMesh.Internal.NetipText
import OverMesh.Proto

/-!
# The packet filter

`internal/filter`: the compiled rules a node applies to inbound packets by source address,
protocol and destination port. `Filter.fromProto` reads them out of a netmap, `Filter.allows`
evaluates them, and `Filter.allowsPacket` does so for the bytes of a packet.

`Layout4` and `Layout6` say what it means for bytes to be a packet with given fields. `Carries4` and
`Carries6` do so for packets with ports, and look at the source port as well, which the filter never
reads.

## Main results

* `allowsPacket_carries4`, `allowsPacket_carries6` — what decides about a packet is its source,
  its protocol and its destination port
-/

namespace OverMesh

open Netip

/-- `PortRange`, inclusive. -/
structure PortRange where
  first : UInt16
  last : UInt16
  deriving DecidableEq

/-- `Rule`. No source means any source, no port means all ports. -/
structure Rule where
  allow : Bool
  srcs : List Prefix
  proto : String
  ports : List PortRange
  deriving DecidableEq

/-- `Filter`. A nil pointer is `none : Option Filter`. -/
structure Filter where
  enabled : Bool
  rules : List Rule
  deriving DecidableEq

def protoICMP4 : UInt8 := 1
def protoTCP : UInt8 := 6
def protoUDP : UInt8 := 17
def protoICMP6 : UInt8 := 58

namespace Rule

/-- `matchesSrc`. -/
def matchesSrc (r : Rule) (src : Addr) : Bool := r.srcs.isEmpty || r.srcs.any (·.contains src)

/-- `matchesProto`. -/
def matchesProto (r : Rule) (proto : UInt8) : Bool :=
  if r.proto = "" then true
  else if r.proto = "tcp" then proto == protoTCP
  else if r.proto = "udp" then proto == protoUDP
  else if r.proto = "icmp" then proto == protoICMP4 || proto == protoICMP6
  else false

/-- `matchesPort`. A rule with ports never matches a protocol without ports. -/
def matchesPort (r : Rule) (proto : UInt8) (port : UInt16) : Bool :=
  r.ports.isEmpty || (proto == protoTCP || proto == protoUDP) &&
    r.ports.any fun pr => pr.first ≤ port ∧ port ≤ pr.last

/-- The rule of one message. Sources that do not parse are left out, port numbers are cut to 16
bits. -/
def fromProto (pr : Proto.FilterRule) : Rule where
  allow := pr.allow
  srcs := pr.srcCidrs.filterMap parsePrefix
  proto := pr.protocol
  ports := pr.dstPorts.map fun p => ⟨p.first.toUInt16, p.last.toUInt16⟩

end Rule

namespace Filter

/-- `FromProto`. -/
def fromProto (rules : List Proto.FilterRule) (enabled : Bool) : Filter :=
  ⟨enabled, rules.map Rule.fromProto⟩

/-- `allows`: the first match wins, no match is a denial. -/
def allows (f : Filter) (src : Addr) (proto : UInt8) (dstPort : UInt16) : Bool :=
  FirstMatch.eval
    (fun r : Rule => r.matchesProto proto && r.matchesSrc src && r.matchesPort proto dstPort)
    (·.allow) false f.rules

/-- `Check`, the dry run of the web interface. -/
def check (f : Option Filter) (src : Addr) (protoName : String) (port : UInt16) : Bool :=
  match f with
  | none => true
  | some f =>
    if !f.enabled then true
    else if protoName = "tcp" then f.allows src protoTCP port
    else if protoName = "udp" then f.allows src protoUDP port
    else if protoName = "icmp" then f.allows src (if src.is6 then protoICMP6 else protoICMP4) port
    else false

/-! ### Packets -/

/-- Byte `i` of a packet. -/
def byteAt (pkt : List UInt8) (i : ℕ) : UInt8 := pkt.getD i 0

/-- `binary.BigEndian.Uint16` at offset `i`. -/
def uint16At (pkt : List UInt8) (i : ℕ) : UInt16 :=
  (byteAt pkt i).toUInt16 <<< 8 ||| (byteAt pkt (i + 1)).toUInt16

/-- `len` bytes from offset `i` on, as a number. -/
def numberAt (pkt : List UInt8) (i len : ℕ) : ℕ :=
  ((pkt.drop i).take len).foldl (fun acc b => acc * 256 + b.toNat) 0

/-- The protocols whose packets have ports. -/
def hasPorts (proto : UInt8) : Bool := proto == protoTCP || proto == protoUDP

/-- The length of an IPv4 header. -/
def headerLen (pkt : List UInt8) : ℕ := (byteAt pkt 0 &&& 0x0f).toNat * 4

/-- The IPv4 case of `parse`. -/
def parse4 (pkt : List UInt8) : Option (Addr × UInt8 × UInt16) :=
  if pkt.length < 20 then none
  else if headerLen pkt < 20 ∨ pkt.length < headerLen pkt then none
  else if hasPorts (byteAt pkt 9) ∧ pkt.length < headerLen pkt + 4 then none
  else some (.v4 (BitVec.ofNat 32 (numberAt pkt 12 4)), byteAt pkt 9,
    -- Fragments past the first carry no ports and are matched as port 0.
    if uint16At pkt 6 &&& 0x1fff ≠ 0 then 0
    else if hasPorts (byteAt pkt 9) then uint16At pkt (headerLen pkt + 2) else 0)

/-- The IPv6 case of `parse`. Extension headers count as the protocol. -/
def parse6 (pkt : List UInt8) : Option (Addr × UInt8 × UInt16) :=
  if pkt.length < 40 then none
  else if hasPorts (byteAt pkt 6) ∧ pkt.length < 44 then none
  else some (.v6 (BitVec.ofNat 128 (numberAt pkt 8 16)) "", byteAt pkt 6,
    if hasPorts (byteAt pkt 6) then uint16At pkt 42 else 0)

/-- `parse`: source, protocol and destination port of a packet. -/
def parse (pkt : List UInt8) : Option (Addr × UInt8 × UInt16) :=
  if pkt.length < 1 then none
  else if byteAt pkt 0 >>> 4 = 4 then parse4 pkt
  else if byteAt pkt 0 >>> 4 = 6 then parse6 pkt
  else none

/-- `AllowsPacket`. A packet that does not parse is dropped when filtering is on. -/
def allowsPacket (f : Option Filter) (pkt : List UInt8) : Bool :=
  match f with
  | none => true
  | some f =>
    if !f.enabled then true
    else match parse pkt with
      | none => false
      | some (src, proto, dstPort) => f.allows src proto dstPort

/-- An unfragmented IPv4 packet with any options and any payload. Only protocols with ports have a
destination port. -/
structure Layout4 (pkt : List UInt8) (src : BitVec 32) (proto : UInt8) (dstPort : UInt16) :
    Prop where
  version : byteAt pkt 0 >>> 4 = 4
  header : 20 ≤ headerLen pkt
  length : headerLen pkt ≤ pkt.length
  unfragmented : uint16At pkt 6 &&& 0x1fff = 0
  protocol : byteAt pkt 9 = proto
  source : numberAt pkt 12 4 = src.toNat
  ports : hasPorts proto = true →
    headerLen pkt + 4 ≤ pkt.length ∧ uint16At pkt (headerLen pkt + 2) = dstPort

/-- An IPv6 packet without extension headers and with any payload. -/
structure Layout6 (pkt : List UInt8) (src : BitVec 128) (proto : UInt8) (dstPort : UInt16) :
    Prop where
  version : byteAt pkt 0 >>> 4 = 6
  length : 40 ≤ pkt.length
  protocol : byteAt pkt 6 = proto
  source : numberAt pkt 8 16 = src.toNat
  ports : hasPorts proto = true → 44 ≤ pkt.length ∧ uint16At pkt 42 = dstPort

/-- An unfragmented IPv4 packet of a protocol with ports, with its source port. -/
structure Carries4 (pkt : List UInt8) (src : BitVec 32) (proto : UInt8)
    (srcPort dstPort : UInt16) : Prop extends Layout4 pkt src proto dstPort where
  sourcePort : uint16At pkt (headerLen pkt) = srcPort
  ported : hasPorts proto = true

/-- An IPv6 packet of a protocol with ports, without extension headers. -/
structure Carries6 (pkt : List UInt8) (src : BitVec 128) (proto : UInt8)
    (srcPort dstPort : UInt16) : Prop extends Layout6 pkt src proto dstPort where
  sourcePort : uint16At pkt 40 = srcPort
  ported : hasPorts proto = true

variable {pkt : List UInt8} {proto : UInt8} {srcPort dstPort : UInt16}

theorem parse_layout4 {src : BitVec 32} (h : Layout4 pkt src proto dstPort) :
    parse pkt = some (.v4 src, proto, if hasPorts proto then dstPort else 0) := by
  have hlen := h.length
  have hhdr := h.header
  have hports := h.ports
  rw [← h.protocol] at hports
  rw [parse, if_neg (by omega), if_pos h.version, parse4, if_neg (by omega), if_neg (by omega),
    if_neg (fun hc => absurd (hports hc.1).1 (by omega)), h.source, BitVec.ofNat_toNat,
    BitVec.setWidth_eq, h.unfragmented, if_neg (not_not_intro rfl), ← h.protocol]
  by_cases hp : hasPorts (byteAt pkt 9) = true
  · rw [if_pos hp, if_pos hp, (hports hp).2]
  · rw [if_neg hp, if_neg hp]

theorem parse_layout6 {src : BitVec 128} (h : Layout6 pkt src proto dstPort) :
    parse pkt = some (.v6 src "", proto, if hasPorts proto then dstPort else 0) := by
  have hlen := h.length
  have hports := h.ports
  rw [← h.protocol] at hports
  rw [parse, if_neg (by omega), if_neg (by rw [h.version]; decide), if_pos h.version, parse6,
    if_neg (by omega), if_neg (fun hc => absurd (hports hc.1).1 (by omega)), h.source,
    BitVec.ofNat_toNat, BitVec.setWidth_eq, ← h.protocol]
  by_cases hp : hasPorts (byteAt pkt 6) = true
  · rw [if_pos hp, if_pos hp, (hports hp).2]
  · rw [if_neg hp, if_neg hp]

/-- **What the filter sees of an IPv4 packet**: source, protocol and destination port. -/
theorem allowsPacket_carries4 {src : BitVec 32} (f : Filter)
    (h : Carries4 pkt src proto srcPort dstPort) :
    allowsPacket (some f) pkt = (!f.enabled || f.allows (.v4 src) proto dstPort) := by
  rw [allowsPacket, parse_layout4 h.toLayout4, if_pos h.ported]
  cases f.enabled <;> rfl

/-- **What the filter sees of an IPv6 packet**: source, protocol and destination port. -/
theorem allowsPacket_carries6 {src : BitVec 128} (f : Filter)
    (h : Carries6 pkt src proto srcPort dstPort) :
    allowsPacket (some f) pkt = (!f.enabled || f.allows (.v6 src "") proto dstPort) := by
  rw [allowsPacket, parse_layout6 h.toLayout6, if_pos h.ported]
  cases f.enabled <;> rfl

end Filter

end OverMesh
