import OverMesh.Filter.Basic

/-!
# Rules off the wire

A rule comes to a node as a message: prefixes as text, a protocol as text, and ports as 32-bit
numbers. `FromProto` makes a rule of it that is never refused. It leaves out the sources it cannot
read, although no source means any source, and cuts port numbers to 16 bits.

`Literal` is what the message says when it is read as it stands, and the question is when the rule
stays within that.

## Main definitions

* `Rule.applies` — the test of `allows`
* `Proto.FilterRule.Literal` — the message read as it stands
* `Proto.FilterRule.Silent` — the rule applies to nothing
* `Proto.FilterRule.Undistorted` — some source is readable if there are any, and a range that is
  moved by the cut covers no new port

## Main results

* `Rule.applies_literal_iff` — **when decoding does not widen a rule**
-/

namespace OverMesh

open Netip

/-- The test that `allows` makes of a rule. -/
def Rule.applies (r : Rule) (src : Addr) (proto : UInt8) (port : UInt16) : Bool :=
  r.matchesProto proto && r.matchesSrc src && r.matchesPort proto port

namespace Proto

/-- The port lies in the range. -/
def PortRange.Holds (r : PortRange) (port : UInt16) : Prop :=
  r.first.toNat ≤ port.toNat ∧ port.toNat ≤ r.last.toNat

/-- The port lies in the range whose ends are cut to 16 bits. -/
def PortRange.HoldsCut (r : PortRange) (port : UInt16) : Prop :=
  r.first.toUInt16 ≤ port ∧ port ≤ r.last.toUInt16

namespace FilterRule

/-- The protocols that a message names. -/
def Names (protocol : String) (proto : UInt8) : Prop :=
  protocol = "" ∨ protocol = "tcp" ∧ proto = protoTCP ∨ protocol = "udp" ∧ proto = protoUDP ∨
    protocol = "icmp" ∧ (proto = protoICMP4 ∨ proto = protoICMP6)

/-- **The message, read literally.** -/
structure Literal (pr : FilterRule) (src : Addr) (proto : UInt8) (port : UInt16) : Prop where
  source : pr.srcCidrs = [] ∨ ∃ c ∈ pr.srcCidrs, ∃ p, parsePrefix c = some p ∧ p.contains src = true
  protocol : Names pr.protocol proto
  ports : pr.dstPorts = [] ∨ ∃ r ∈ pr.dstPorts, r.Holds port

/-- Nothing has the protocol of the rule, or nothing of that protocol has one of its ports. -/
def Silent (pr : FilterRule) : Prop :=
  pr.protocol ∉ ["", "tcp", "udp", "icmp"] ∨
    pr.dstPorts ≠ [] ∧ (pr.protocol = "icmp" ∨ ∀ r ∈ pr.dstPorts, ∀ port, ¬ r.HoldsCut port)

/-- Some source is readable if there are any, and the ports of a range that begins beyond 16 bits
are, after the cut, ports of the message. -/
structure Undistorted (pr : FilterRule) : Prop where
  sources : pr.srcCidrs = [] ∨ ∃ c ∈ pr.srcCidrs, ∃ p, parsePrefix c = some p
  ports : ∀ r ∈ pr.dstPorts, 2 ^ 16 ≤ r.first.toNat → ∀ port, r.HoldsCut port →
    ∃ r' ∈ pr.dstPorts, r'.Holds port

end FilterRule

/-- Only a range that begins beyond 16 bits can be moved by the cut. -/
theorem PortRange.HoldsCut.holds {r : PortRange} {port : UInt16} (h : r.HoldsCut port)
    (hfirst : r.first.toNat < 2 ^ 16) : r.Holds port := by
  obtain ⟨hlo, hhi⟩ := h
  rw [UInt16.le_iff_toNat_le, UInt32.toNat_toUInt16] at hlo hhi
  rw [Nat.mod_eq_of_lt hfirst] at hlo
  exact ⟨hlo, hhi.trans (Nat.mod_le _ _)⟩

end Proto

namespace Rule

open Proto Proto.FilterRule

variable {pr : Proto.FilterRule} {src : Addr} {proto : UInt8} {port : UInt16}

theorem matchesProto_iff {r : Rule} : r.matchesProto proto = true ↔ Names r.proto proto := by
  rw [matchesProto, Names]
  split_ifs with hany htcp hudp hicmp
  · simp [hany]
  · simp [htcp]
  · simp [hudp]
  · simp [hicmp]
  · simp [hany, htcp, hudp, hicmp]

theorem matchesSrc_fromProto_iff : (fromProto pr).matchesSrc src = true ↔
    (∀ c ∈ pr.srcCidrs, parsePrefix c = none) ∨
      ∃ c ∈ pr.srcCidrs, ∃ p, parsePrefix c = some p ∧ p.contains src = true := by
  rw [matchesSrc, fromProto, Bool.or_eq_true, List.isEmpty_iff, List.filterMap_eq_nil_iff,
    List.any_eq_true]
  simp only [List.mem_filterMap]
  refine or_congr_right ⟨?_, ?_⟩
  · rintro ⟨p, ⟨c, hc, hp⟩, hmem⟩
    exact ⟨c, hc, p, hp, hmem⟩
  · rintro ⟨c, hc, p, hp, hmem⟩
    exact ⟨p, ⟨c, hc, hp⟩, hmem⟩

theorem matchesPort_fromProto_iff : (fromProto pr).matchesPort proto port = true ↔
    pr.dstPorts = [] ∨
      (proto = protoTCP ∨ proto = protoUDP) ∧ ∃ r ∈ pr.dstPorts, r.HoldsCut port := by
  simp [matchesPort, fromProto, PortRange.HoldsCut]

theorem applies_fromProto_iff : (fromProto pr).applies src proto port = true ↔
    Names pr.protocol proto ∧ (fromProto pr).matchesSrc src = true ∧
      (fromProto pr).matchesPort proto port = true := by
  rw [applies, Bool.and_eq_true, Bool.and_eq_true, matchesProto_iff, and_assoc]
  exact Iff.rfl

/-- Every rule has a source that it applies to. -/
theorem exists_matchesSrc (pr : Proto.FilterRule) :
    ∃ src, (fromProto pr).matchesSrc src = true := by
  by_cases h : ∃ c ∈ pr.srcCidrs, ∃ p, parsePrefix c = some p
  · obtain ⟨c, hc, p, hp⟩ := h
    exact ⟨p.addr, matchesSrc_fromProto_iff.mpr (.inr ⟨c, hc, p, hp, p.contains_addr⟩)⟩
  · refine ⟨.v4 0, matchesSrc_fromProto_iff.mpr (.inl ?_)⟩
    intro c hc
    rw [Option.eq_none_iff_forall_ne_some]
    exact fun p hp => h ⟨c, hc, p, hp⟩

/-- A rule with ports that is not silent applies to a protocol with ports. -/
theorem exists_names_ports (h : ¬ Silent pr) (hports : pr.dstPorts ≠ []) :
    ∃ proto, Names pr.protocol proto ∧ (proto = protoTCP ∨ proto = protoUDP) := by
  rw [Silent, not_or, not_and, not_or, not_not] at h
  have hicmp := (h.2 hports).1
  have hname := h.1
  simp only [List.mem_cons, List.not_mem_nil, or_false] at hname
  rcases hname with hany | htcp | hudp | hname
  · exact ⟨protoTCP, .inl hany, .inl rfl⟩
  · exact ⟨protoTCP, .inr (.inl ⟨htcp, rfl⟩), .inl rfl⟩
  · exact ⟨protoUDP, .inr (.inr (.inl ⟨hudp, rfl⟩)), .inr rfl⟩
  · exact absurd hname hicmp

theorem exists_names (h : pr.protocol ∈ ["", "tcp", "udp", "icmp"]) :
    ∃ proto, Names pr.protocol proto := by
  simp only [List.mem_cons, List.not_mem_nil, or_false] at h
  rcases h with hany | htcp | hudp | hicmp
  · exact ⟨protoTCP, .inl hany⟩
  · exact ⟨protoTCP, .inr (.inl ⟨htcp, rfl⟩)⟩
  · exact ⟨protoUDP, .inr (.inr (.inl ⟨hudp, rfl⟩))⟩
  · exact ⟨protoICMP4, .inr (.inr (.inr ⟨hicmp, .inl rfl⟩))⟩

/-- A rule that is not silent applies to some port of some protocol. -/
theorem exists_matchesPort (h : ¬ Silent pr) :
    ∃ proto port, Names pr.protocol proto ∧ (fromProto pr).matchesPort proto port = true := by
  by_cases hports : pr.dstPorts = []
  · rw [Silent, not_or, not_not] at h
    obtain ⟨proto, hproto⟩ := exists_names h.1
    exact ⟨proto, 0, hproto, matchesPort_fromProto_iff.mpr (.inl hports)⟩
  · obtain ⟨proto, hproto, hhas⟩ := exists_names_ports h hports
    rw [Silent, not_or, not_and, not_or] at h
    have hcut := (h.2 hports).2
    simp only [not_forall, not_not] at hcut
    obtain ⟨r, hr, port, hport⟩ := hcut
    exact ⟨proto, port, hproto, matchesPort_fromProto_iff.mpr (.inr ⟨hhas, r, hr, hport⟩)⟩

theorem not_applies_of_silent (h : Silent pr) : (fromProto pr).applies src proto port = false := by
  rw [← Bool.not_eq_true, applies_fromProto_iff, matchesPort_fromProto_iff]
  rintro ⟨hname, -, hport⟩
  rcases h with hunknown | ⟨hports, hmute⟩
  · simp only [List.mem_cons, List.not_mem_nil, or_false, not_or] at hunknown
    rw [Names] at hname
    tauto
  · obtain ⟨hhas, r, hr, hcut⟩ := hport.resolve_left hports
    rcases hmute with hicmp | hempty
    · rw [hicmp] at hname
      simp only [Names] at hname
      rcases hhas with rfl | rfl <;> revert hname <;> decide
    · exact hempty r hr port hcut

theorem Undistorted.literal (h : Undistorted pr)
    (happlies : (fromProto pr).applies src proto port = true) : Literal pr src proto port := by
  obtain ⟨hname, hsrc, hport⟩ := applies_fromProto_iff.mp happlies
  refine ⟨?_, hname, ?_⟩
  · rcases matchesSrc_fromProto_iff.mp hsrc with hnone | hsome
    · refine .inl (h.sources.resolve_right ?_)
      rintro ⟨c, hc, p, hp⟩
      rw [hnone c hc] at hp
      cases hp
    · exact .inr hsome
  · rcases matchesPort_fromProto_iff.mp hport with hnil | ⟨-, r, hr, hcut⟩
    · exact .inl hnil
    · rcases Nat.lt_or_ge r.first.toNat (2 ^ 16) with hlt | hge
      · exact .inr ⟨r, hr, hcut.holds hlt⟩
      · exact .inr (h.ports r hr hge port hcut)

/-- **When decoding does not widen a rule**: if the rule applies to nothing at all, or some of its
sources can be read and the cut of its ports makes no new ones. -/
theorem applies_literal_iff (pr : Proto.FilterRule) :
    (∀ src proto port, (fromProto pr).applies src proto port = true → Literal pr src proto port) ↔
      Silent pr ∨ Undistorted pr := by
  constructor
  · intro h
    refine or_iff_not_imp_left.mpr fun hloud => ⟨?_, ?_⟩
    · obtain ⟨src, hsrc⟩ := exists_matchesSrc pr
      obtain ⟨proto, port, hname, hport⟩ := exists_matchesPort hloud
      refine (h src proto port (applies_fromProto_iff.mpr ⟨hname, hsrc, hport⟩)).source.imp_right ?_
      rintro ⟨c, hc, p, hp, -⟩
      exact ⟨c, hc, p, hp⟩
    · intro r hr _ port hcut
      have hports : pr.dstPorts ≠ [] := List.ne_nil_of_mem hr
      obtain ⟨src, hsrc⟩ := exists_matchesSrc pr
      obtain ⟨proto, hname, hhas⟩ := exists_names_ports hloud hports
      have hport := matchesPort_fromProto_iff.mpr (.inr ⟨hhas, r, hr, hcut⟩)
      exact (h src proto port
        (applies_fromProto_iff.mpr ⟨hname, hsrc, hport⟩)).ports.resolve_left hports
  · rintro (hsilent | hsame) src proto port happlies
    · rw [not_applies_of_silent hsilent] at happlies
      cases happlies
    · exact Undistorted.literal hsame happlies

/-- **Two rules that are widened.** A source that cannot be read becomes any source, and the port
65558 becomes port 22. -/
theorem decoding_widens :
    (fromProto ⟨true, ["10.0.0.0/33"], "", []⟩).applies (.v4 0x08080808) protoTCP 22 = true ∧
      ¬ Literal ⟨true, ["10.0.0.0/33"], "", []⟩ (.v4 0x08080808) protoTCP 22 ∧
      (fromProto ⟨true, [], "tcp", [⟨65558, 65558⟩]⟩).applies (.v4 0x08080808) protoTCP 22 = true ∧
      ¬ Literal ⟨true, [], "tcp", [⟨65558, 65558⟩]⟩ (.v4 0x08080808) protoTCP 22 := by
  refine ⟨by decide +kernel, ?_, by decide +kernel, ?_⟩
  · intro h
    obtain ⟨c, hc, p, hp, -⟩ := h.source.resolve_left (List.cons_ne_nil _ _)
    obtain rfl := List.mem_singleton.mp hc
    have hnone : parsePrefix "10.0.0.0/33" = none := by decide +kernel
    rw [hnone] at hp
    cases hp
  · intro h
    obtain ⟨r, hr, hport⟩ := h.ports.resolve_left (List.cons_ne_nil _ _)
    obtain rfl := List.mem_singleton.mp hr
    revert hport
    rw [PortRange.Holds]
    decide

end Rule

end OverMesh
