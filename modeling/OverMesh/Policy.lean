import OverMesh.Coord.AclCompile

/-!
# What access rules mean

The reference reading of an access rule list, in terms of devices instead of addresses, and the
proof that compiling the list for one receiver, sending the result as text and evaluating it there
decides the same.

The comment on `store.ACLRule` is the source of `Policy.allows`: rules are read top-down, the first
match wins, no rules allow everything, and with rules present no match is a denial.

## Main definitions

* `Policy.allows` — the reference policy
* `Accepted` — what saving a rule list checks about each rule
* `DistinctOverlay` — no two nodes share an overlay address

## Main result

* `filterForNode_eq_policy` — the filter of a node decides as the reference policy does
-/

namespace OverMesh

open Netip

namespace Policy

/-- The protocols a rule can name. -/
inductive Protocol where
  | tcp
  | udp
  | icmp
  deriving DecidableEq

/-- The name of a protocol in a rule. -/
def Protocol.name : Protocol → String
  | .tcp => "tcp"
  | .udp => "udp"
  | .icmp => "icmp"

/-- The protocol numbers of a protocol in a packet. -/
def Protocol.numbers : Protocol → List UInt8
  | .tcp => [protoTCP]
  | .udp => [protoUDP]
  | .icmp => [protoICMP4, protoICMP6]

/-- The port is in the range `spec` describes. -/
def portIn (spec : String) (port : UInt16) : Bool :=
  match parsePortSpec spec with
  | .ok pr => pr.first.toNat ≤ port.toNat ∧ port.toNat ≤ pr.last.toNat
  | .error _ => false

/-- The rule is about traffic from `src` to `dst`. -/
def applies (src dst : ℤ) (p : Protocol) (port : UInt16) (r : ACLRule) : Bool :=
  (r.dstIDs = [] ∨ dst ∈ r.dstIDs) ∧ (r.srcIDs = [] ∨ src ∈ r.srcIDs) ∧
    (r.protocol = "" ∨ r.protocol = p.name) ∧
    (r.ports = [] ∨ ∃ spec ∈ r.ports, portIn spec port = true)

/-- **The reference policy.** -/
def allows (rules : List ACLRule) (src dst : ℤ) (p : Protocol) (port : UInt16) : Bool :=
  if rules = [] then true
  else match rules.find? (applies src dst p port) with
    | some r => r.action = "allow"
    | none => false

end Policy

/-- What saving a rule list checks about each rule. -/
structure Accepted (r : ACLRule) : Prop where
  portSpecs : ∀ spec ∈ r.ports, ∃ pr, parsePortSpec spec = .ok pr
  portsProtocol : r.ports ≠ [] → r.protocol = "tcp" ∨ r.protocol = "udp"
  action : r.action = "allow" ∨ r.action = "deny"
  protocol : r.protocol ∈ ["", "tcp", "udp", "icmp"]

/-- No two nodes share an overlay address. -/
def DistinctOverlay (nodes : List Node) : Prop :=
  ∀ n ∈ nodes, ∀ m ∈ nodes, ∀ a ∈ n.overlayIPs, a ∈ m.overlayIPs → n = m

instance (nodes : List Node) : Decidable (DistinctOverlay nodes) :=
  inferInstanceAs (Decidable (∀ n ∈ nodes, _))

/-! ### Protocol, port and source of one rule -/

section Rule

variable {r : ACLRule} {p : Policy.Protocol} {num : UInt8} {port : UInt16} {rule : Rule}

theorem matchesProto_iff (hr : rule.proto ∈ ["", "tcp", "udp", "icmp"]) (hnum : num ∈ p.numbers) :
    rule.matchesProto num = true ↔ rule.proto = "" ∨ rule.proto = p.name := by
  simp only [List.mem_cons, List.not_mem_nil, or_false] at hr
  rw [Rule.matchesProto]
  -- Each of the four names against each of the three protocols and its numbers.
  rcases hr with hr | hr | hr | hr <;> rw [hr] <;> cases p <;>
    simp only [Policy.Protocol.numbers, List.mem_cons, List.not_mem_nil, or_false] at hnum <;>
    first | (subst hnum; decide) | (rcases hnum with rfl | rfl <;> decide)

theorem hasPorts_of_name (hp : p.name = "tcp" ∨ p.name = "udp") (hnum : num ∈ p.numbers) :
    (num == protoTCP || num == protoUDP) = true := by
  cases p with
  | tcp =>
    obtain rfl := List.mem_singleton.mp hnum
    rfl
  | udp =>
    obtain rfl := List.mem_singleton.mp hnum
    rfl
  | icmp => rcases hp with hp | hp <;> exact absurd hp (by decide)

/-- A parsed range covers the same ports after it was cut to 16 bits. -/
theorem portIn_eq {spec : String} {pr : Proto.PortRange} (h : parsePortSpec spec = .ok pr) :
    Policy.portIn spec port =
      decide (pr.first.toUInt16 ≤ port ∧ port ≤ pr.last.toUInt16) := by
  obtain ⟨hf, hl⟩ := parsePortSpec_lt h
  rw [Policy.portIn, h]
  simp only [UInt16.le_iff_toNat_le, UInt32.toNat_toUInt16, Nat.mod_eq_of_lt hf,
    Nat.mod_eq_of_lt hl]

/-- The ports of the compiled rule. -/
theorem any_ports_iff (hr : Accepted r) :
    ((r.ports.filterMap fun spec => (parsePortSpec spec).toOption).map fun q : Proto.PortRange =>
        (⟨q.first.toUInt16, q.last.toUInt16⟩ : PortRange)).any
          (fun q => q.first ≤ port ∧ port ≤ q.last) = true ↔
      ∃ spec ∈ r.ports, Policy.portIn spec port = true := by
  simp only [List.any_eq_true, List.mem_map, List.mem_filterMap]
  constructor
  · rintro ⟨_, ⟨pr, ⟨spec, hspec, hpr⟩, rfl⟩, hport⟩
    obtain ⟨pr', hpr'⟩ := hr.portSpecs spec hspec
    obtain rfl : pr' = pr := by simpa [hpr', Except.toOption] using hpr
    exact ⟨spec, hspec, by rw [portIn_eq hpr']; exact hport⟩
  · rintro ⟨spec, hspec, hport⟩
    obtain ⟨pr, hpr⟩ := hr.portSpecs spec hspec
    rw [portIn_eq hpr] at hport
    exact ⟨_, ⟨pr, ⟨spec, hspec, by rw [hpr]; rfl⟩, rfl⟩, hport⟩

theorem ports_eq_nil_iff (hr : Accepted r) :
    (r.ports.filterMap fun spec => (parsePortSpec spec).toOption) = [] ↔ r.ports = [] := by
  rw [List.filterMap_eq_nil_iff, List.eq_nil_iff_forall_not_mem]
  refine ⟨?_, fun h spec hspec => absurd hspec (h spec)⟩
  intro h spec hspec
  obtain ⟨pr, hpr⟩ := hr.portSpecs spec hspec
  have := h spec hspec
  rw [hpr] at this
  cases this

end Rule

section Compile

variable {nodes : List Node} {src dst : Node} {a : Addr} {r : ACLRule} {fr : Proto.FilterRule}
  {p : Policy.Protocol} {num : UInt8} {port : UInt16}

theorem find?_id_eq_some (hids : nodes.Pairwise fun n m => n.id < m.id) {n : Node}
    (hn : n ∈ nodes) : nodes.find? (·.id = n.id) = some n := by
  rw [List.find?_eq_some_iff_append]
  obtain ⟨xs, ys, rfl⟩ := List.append_of_mem hn
  refine ⟨by simp, xs, ys, rfl, ?_⟩
  intro m hm
  have := (List.pairwise_append.mp hids).2.2 m hm n List.mem_cons_self
  simpa using this.ne

/-- The facts about the nodes of a network that the compiler rests on. -/
structure Addressing (nodes : List Node) : Prop where
  ids : nodes.Pairwise fun n m => n.id < m.id
  addressed : ∀ n ∈ nodes, n.Addressed
  distinct : DistinctOverlay nodes

/-- An address of `src` is among the sources of a rule exactly when `src` is. -/
theorem exists_contains_srcCidrs_iff (hn : Addressing nodes) (hsrc : src ∈ nodes)
    (ha : a ∈ src.overlayIPs) (ids : List ℤ) :
    (∃ q ∈ (srcCidrs nodes ids).filterMap parsePrefix, q.contains a = true) ↔ src.id ∈ ids := by
  rw [exists_contains_srcCidrs hn.addressed]
  constructor
  · rintro ⟨id, hid, n, hf, han⟩
    -- Addresses are distinct, so the node found under that id is `src`.
    obtain rfl := hn.distinct n (List.mem_of_find?_eq_some hf) src hsrc a han ha
    obtain rfl : n.id = id := by simpa using List.find?_some hf
    exact hid
  · intro hid
    exact ⟨src.id, hid, src, find?_id_eq_some hn.ids hsrc, ha⟩

theorem srcCidrs_ne_nil (hn : Addressing nodes) (hsrc : src ∈ nodes) {ids : List ℤ}
    (hid : src.id ∈ ids) : srcCidrs nodes ids ≠ [] := fun hnil => by
  have hmem : src.ipv4 ∈ src.overlayIPs := List.mem_cons_self
  obtain ⟨q, hq, -⟩ := (exists_contains_srcCidrs_iff hn hsrc hmem ids).mpr hid
  rw [hnil] at hq
  cases hq

/-- A rule the compiler skips is not about traffic from `src` to `dst`. -/
theorem applies_of_compileRule_eq_none (hn : Addressing nodes) (hsrc : src ∈ nodes)
    (h : compileRule nodes dst r = none) : Policy.applies src.id dst.id p port r = false := by
  rw [compileRule] at h
  split_ifs at h with hdst hgone
  · have hdst : r.dstIDs ≠ [] ∧ dst.id ∉ r.dstIDs := by simpa [idListMatches] using hdst
    simp [Policy.applies, hdst]
  · have hsrc' : src.id ∉ r.srcIDs := fun hid => srcCidrs_ne_nil hn hsrc hid hgone.2
    simp [Policy.applies, hgone.1, hsrc']

/-- The source test of a compiled rule. The rule was not skipped, so its list of sources is empty
only if it was empty in the rule. -/
theorem matchesSrc_filterRule (hn : Addressing nodes) (hsrc : src ∈ nodes)
    (ha : a ∈ src.overlayIPs) (hkept : ¬ (r.srcIDs ≠ [] ∧ srcCidrs nodes r.srcIDs = [])) :
    (Rule.fromProto (filterRule nodes r)).matchesSrc a = true ↔
      r.srcIDs = [] ∨ src.id ∈ r.srcIDs := by
  rw [Rule.matchesSrc, Bool.or_eq_true, List.isEmpty_iff, List.any_eq_true]
  refine or_congr ?_ (exists_contains_srcCidrs_iff hn hsrc ha r.srcIDs)
  refine (filterMap_srcCidrs_eq_nil_iff hn.addressed).trans ⟨?_, ?_⟩
  · intro hnil
    by_contra hne
    exact hkept ⟨hne, hnil⟩
  · intro hnil
    rw [hnil]
    rfl

/-- The port test of a compiled rule, on packets of its protocol. -/
theorem matchesPort_filterRule (hr : Accepted r) (hnum : num ∈ p.numbers)
    (hproto : r.protocol = "" ∨ r.protocol = p.name) :
    (Rule.fromProto (filterRule nodes r)).matchesPort num port = true ↔
      r.ports = [] ∨ ∃ spec ∈ r.ports, Policy.portIn spec port = true := by
  rw [Rule.matchesPort, Bool.or_eq_true, List.isEmpty_iff, Bool.and_eq_true]
  by_cases hnil : r.ports = []
  · simp [Rule.fromProto, filterRule, hnil]
  · -- A rule with ports names its protocol, so the packet has ports as well.
    have hname : p.name = "tcp" ∨ p.name = "udp" := by
      have htransport := hr.portsProtocol hnil
      rcases hproto with hproto | hproto
      · rw [hproto] at htransport
        exact absurd htransport (by decide)
      · exact hproto ▸ htransport
    refine or_congr (List.map_eq_nil_iff.trans (ports_eq_nil_iff hr)) ?_
    rw [and_iff_right (hasPorts_of_name hname hnum)]
    exact any_ports_iff hr

/-- A compiled rule hits the packets the rule is about. -/
theorem matches_of_compileRule_eq_some (hn : Addressing nodes) (hsrc : src ∈ nodes)
    (ha : a ∈ src.overlayIPs) (hr : Accepted r) (hnum : num ∈ p.numbers)
    (h : compileRule nodes dst r = some fr) : fr = filterRule nodes r ∧
      ((Rule.fromProto fr).matchesProto num && (Rule.fromProto fr).matchesSrc a &&
        (Rule.fromProto fr).matchesPort num port) = Policy.applies src.id dst.id p port r := by
  rw [compileRule] at h
  split_ifs at h with hdst hgone
  obtain rfl := Option.some.inj h
  have hdst : r.dstIDs = [] ∨ dst.id ∈ r.dstIDs := by
    simpa [idListMatches, List.isEmpty_iff, or_iff_not_imp_left] using hdst
  have hproto : (Rule.fromProto (filterRule nodes r)).matchesProto num = true ↔
      r.protocol = "" ∨ r.protocol = p.name :=
    matchesProto_iff hr.protocol hnum
  refine ⟨rfl, ?_⟩
  rw [Bool.eq_iff_iff, Bool.and_eq_true, Bool.and_eq_true, hproto,
    matchesSrc_filterRule hn hsrc ha hgone, Policy.applies, decide_eq_true_iff]
  constructor
  · rintro ⟨⟨hp, hs⟩, hport⟩
    exact ⟨hdst, hs, hp, (matchesPort_filterRule hr hnum hp).mp hport⟩
  · rintro ⟨-, hs, hp, hport⟩
    exact ⟨⟨hp, hs⟩, (matchesPort_filterRule hr hnum hp).mpr hport⟩

end Compile

/-! ### The whole list -/

theorem Policy.allows_eq_eval (rules : List ACLRule) (src dst : ℤ) (p : Policy.Protocol)
    (port : UInt16) (hne : rules ≠ []) : Policy.allows rules src dst p port =
      FirstMatch.eval (Policy.applies src dst p port) (fun r => decide (r.action = "allow")) false
        rules := by
  rw [Policy.allows, if_neg hne, FirstMatch.eval_eq_find?]
  cases rules.find? (Policy.applies src dst p port) <;> rfl

variable {st : Store} {src dst : Node} {a : Addr} {p : Policy.Protocol} {num : UInt8}

/-- **The filter of a node decides as the reference policy does**, on every address of a sender. -/
theorem filterForNode_eq_policy (hn : Addressing (st.nodesInNetwork dst.networkID))
    (hsrc : src ∈ st.nodesInNetwork dst.networkID) (ha : a ∈ src.overlayIPs)
    (hacc : ∀ r ∈ st.acl dst.networkID, Accepted r) (hnum : num ∈ p.numbers) (port : UInt16) :
    (!(filterForNode st dst).enabled || (filterForNode st dst).allows a num port) =
      Policy.allows (st.acl dst.networkID) src.id dst.id p port := by
  rw [filterForNode, compileFilterForNode]
  by_cases hnil : st.acl dst.networkID = []
  · simp [hnil, Filter.fromProto, Policy.allows]
  · rw [if_neg (by simpa using hnil), Policy.allows_eq_eval _ _ _ _ _ hnil]
    simp only [Filter.fromProto, Filter.allows, Bool.not_true, Bool.false_or, List.map_filterMap]
    refine FirstMatch.eval_filterMap ?_ ?_
    · intro r hr h
      exact applies_of_compileRule_eq_none hn hsrc (Option.map_eq_none_iff.mp h)
    · intro r hr rule h
      obtain ⟨fr, hfr, rfl⟩ := Option.map_eq_some_iff.mp h
      obtain ⟨rfl, hmatch⟩ := matches_of_compileRule_eq_some hn hsrc ha (hacc r hr) hnum hfr
      exact ⟨hmatch, rfl⟩

end OverMesh
