import OverMesh.Store.Acl
import OverMesh.Filter.Basic

/-!
# Compiling access rules

`internal/coord/aclcompile.go`: the ordered rules of a network, rendered into the inbound filter of
one receiving node. Each stage writes "any" as the empty list, so a list that becomes empty on the
way would turn a narrow rule into one that matches everything. The compiler drops a rule whose
sources are all gone for that reason, and `ParsePortSpec` is also what rules are checked with when
they are saved.
-/

namespace OverMesh

open Netip GoText

/-- Why a port specification is refused. The text is that of the trimmed specification. -/
inductive PortSpecError where
  | badPort (spec : String)
  | badPortRange (spec : String)
  deriving DecidableEq

/-- The text of an error. `quote` is the `%q` verb. -/
def PortSpecError.message (quote : String → String) : PortSpecError → String
  | .badPort spec => s!"bad port {quote spec}"
  | .badPortRange spec => s!"bad port range {quote spec}"

/-- `ParsePortSpec`: `443` or `8000-9000`. -/
def parsePortSpec (text : String) : Except PortSpecError Proto.PortRange :=
  let spec := trimSpace text.toList
  match parseUint 16 (trimSpace (cut '-' spec).1) with
  | none => .error (.badPort (String.ofList spec))
  | some f =>
    if f = 0 then .error (.badPort (String.ofList spec))
    else match (cut '-' spec).2 with
      | none => .ok ⟨UInt32.ofNat f, UInt32.ofNat f⟩
      | some last => match parseUint 16 (trimSpace last) with
        | none => .error (.badPortRange (String.ofList spec))
        | some l =>
          if l < f then .error (.badPortRange (String.ofList spec))
          else .ok ⟨UInt32.ofNat f, UInt32.ofNat l⟩

/-- Port numbers that were read fit in 16 bits. -/
theorem parsePortSpec_lt {text : String} {pr : Proto.PortRange} (h : parsePortSpec text = .ok pr) :
    pr.first.toNat < 2 ^ 16 ∧ pr.last.toNat < 2 ^ 16 := by
  have hof : ∀ n < 2 ^ 16, (UInt32.ofNat n).toNat < 2 ^ 16 := fun n hn => by
    rw [UInt32.toNat_ofNat']
    omega
  unfold parsePortSpec at h
  dsimp only at h
  split at h
  · cases h
  · next f hf =>
    have hf := hof f (parseUint_lt hf)
    split_ifs at h
    split at h
    · obtain rfl := Except.ok.inj h
      exact ⟨hf, hf⟩
    · split at h
      · cases h
      · next l hl =>
        split_ifs at h
        obtain rfl := Except.ok.inj h
        exact ⟨hf, hof l (parseUint_lt hl)⟩

/-- `idListMatches`: the empty list stands for any device. -/
def idListMatches (ids : List ℤ) (id : ℤ) : Bool := ids.isEmpty || ids.contains id

/-- The overlay addresses of a node. -/
def Node.overlayIPs (n : Node) : List Addr := [n.ipv4, n.ipv6]

/-- How registration addresses a node: an IPv4 address, and an IPv6 address for which the IPv4
address stands in until the row id is known. -/
def Node.Addressed (n : Node) : Prop :=
  n.ipv4.is4 = true ∧ (n.ipv6 = n.ipv4 ∨ n.ipv6.is6 = true ∧ n.ipv6.zone = "")

instance (n : Node) : Decidable n.Addressed := inferInstanceAs (Decidable (_ ∧ _))

/-- The addresses of a node as prefixes of full length. -/
def overlayCIDRs (n : Node) : List String := [n.ipv4.string ++ "/32", n.ipv6.string ++ "/128"]

/-- The source prefixes of a rule. Deleted devices are left out. -/
def srcCidrs (nodes : List Node) (ids : List ℤ) : List String :=
  ids.flatMap fun id => match nodes.find? (·.id = id) with
    | none => []
    | some src => overlayCIDRs src

/-- The compiled form of a rule. Port specifications that do not parse are left out. -/
def filterRule (nodes : List Node) (r : ACLRule) : Proto.FilterRule where
  allow := r.action = "allow"
  srcCidrs := srcCidrs nodes r.srcIDs
  protocol := r.protocol
  dstPorts := r.ports.filterMap fun spec => (parsePortSpec spec).toOption

/-- One turn of the compiler's loop, `none` where the rule is skipped. -/
def compileRule (nodes : List Node) (dst : Node) (r : ACLRule) : Option Proto.FilterRule :=
  if !idListMatches r.dstIDs dst.id then none
  -- The sources are all gone: the rule can never match.
  else if r.srcIDs ≠ [] ∧ srcCidrs nodes r.srcIDs = [] then none
  else some (filterRule nodes r)

/-- `CompileFilterForNode`: the rules for `dst`, and whether filtering is on. -/
def compileFilterForNode (st : Store) (dst : Node) : List Proto.FilterRule × Bool :=
  if (st.acl dst.networkID).isEmpty then ([], false)
  else ((st.acl dst.networkID).filterMap
    (compileRule (st.nodesInNetwork dst.networkID) dst), true)

/-- The filter a node builds from its netmap. -/
def filterForNode (st : Store) (dst : Node) : Filter :=
  Filter.fromProto (compileFilterForNode st dst).1 (compileFilterForNode st dst).2

/-! ### The sources of a compiled rule -/

section Sources

variable {nodes : List Node} {ids : List ℤ} {n : Node} {a : Addr}

/-- The prefixes of a node are read back as its addresses. An IPv4 address standing in for the
IPv6 address is refused as a `/128`, and its `/32` is there already. -/
theorem exists_contains_overlayCIDRs (h : n.Addressed) :
    (∃ p ∈ (overlayCIDRs n).filterMap parsePrefix, p.contains a = true) ↔ a ∈ n.overlayIPs := by
  obtain ⟨h4, h6⟩ := h
  rw [overlayCIDRs, Node.overlayIPs]
  cases hv4 : n.ipv4 with
  | v6 x z => simp [hv4] at h4
  | v4 x =>
    rw [hv4] at h6
    rcases h6 with h6 | ⟨h6, hz⟩
    · rw [h6]
      simpa [parsePrefix_v4_32, parsePrefix_v4_128] using Prefix.contains_single rfl
    · cases hv6 : n.ipv6 with
      | v4 y => simp [hv6, Addr.is6] at h6
      | v6 y z =>
        obtain rfl : z = "" := by simpa [hv6] using hz
        simpa [parsePrefix_v4_32, parsePrefix_v6_128] using
          or_congr (Prefix.contains_single rfl) (Prefix.contains_single rfl)

/-- The prefixes of a node are never all refused. -/
theorem filterMap_overlayCIDRs_ne_nil (h : n.Addressed) :
    (overlayCIDRs n).filterMap parsePrefix ≠ [] := fun hnil => by
  have hmem : n.ipv4 ∈ n.overlayIPs := List.mem_cons_self
  obtain ⟨p, hp, -⟩ := (exists_contains_overlayCIDRs h).mpr hmem
  rw [hnil] at hp
  cases hp

theorem mem_filterMap_srcCidrs {p : Prefix} :
    p ∈ (srcCidrs nodes ids).filterMap parsePrefix ↔ ∃ id ∈ ids, ∃ n,
      nodes.find? (·.id = id) = some n ∧ p ∈ (overlayCIDRs n).filterMap parsePrefix := by
  simp only [srcCidrs, List.mem_filterMap, List.mem_flatMap]
  constructor
  · rintro ⟨text, ⟨id, hid, htext⟩, hp⟩
    cases hf : nodes.find? (·.id = id) with
    | none => simp [hf] at htext
    | some n => exact ⟨id, hid, n, hf, text, by simpa [hf] using htext, hp⟩
  · rintro ⟨id, hid, n, hf, text, htext, hp⟩
    exact ⟨text, ⟨id, hid, by simpa [hf] using htext⟩, hp⟩

/-- The parsed sources of a rule cover the addresses of its live devices. -/
theorem exists_contains_srcCidrs (hnodes : ∀ n ∈ nodes, n.Addressed) :
    (∃ p ∈ (srcCidrs nodes ids).filterMap parsePrefix, p.contains a = true) ↔
      ∃ id ∈ ids, ∃ n, nodes.find? (·.id = id) = some n ∧ a ∈ n.overlayIPs := by
  constructor
  · rintro ⟨p, hp, hc⟩
    obtain ⟨id, hid, n, hf, hp⟩ := mem_filterMap_srcCidrs.mp hp
    have hn := hnodes n (List.mem_of_find?_eq_some hf)
    exact ⟨id, hid, n, hf, (exists_contains_overlayCIDRs hn).mp ⟨p, hp, hc⟩⟩
  · rintro ⟨id, hid, n, hf, ha⟩
    have hn := hnodes n (List.mem_of_find?_eq_some hf)
    obtain ⟨p, hp, hc⟩ := (exists_contains_overlayCIDRs hn).mpr ha
    exact ⟨p, mem_filterMap_srcCidrs.mpr ⟨id, hid, n, hf, hp⟩, hc⟩

/-- Parsing does not empty a list of sources, so it does not turn a rule into one for any source. -/
theorem filterMap_srcCidrs_eq_nil_iff (hnodes : ∀ n ∈ nodes, n.Addressed) :
    (srcCidrs nodes ids).filterMap parsePrefix = [] ↔ srcCidrs nodes ids = [] := by
  refine ⟨?_, fun h => by rw [h]; rfl⟩
  intro h
  rw [List.eq_nil_iff_forall_not_mem]
  intro text htext
  obtain ⟨id, hid, htext⟩ := List.mem_flatMap.mp htext
  cases hf : nodes.find? (·.id = id) with
  | none => simp [hf] at htext
  | some n =>
    obtain ⟨p, hp⟩ := List.exists_mem_of_ne_nil _
      (filterMap_overlayCIDRs_ne_nil (hnodes n (List.mem_of_find?_eq_some hf)))
    have hmem := mem_filterMap_srcCidrs.mpr ⟨id, hid, n, hf, hp⟩
    rw [h] at hmem
    cases hmem

end Sources

end OverMesh
