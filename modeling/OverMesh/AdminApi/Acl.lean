import OverMesh.Coord.Register
import OverMesh.Filter.Tun
import OverMesh.Policy

/-!
# Saving access rules

The handler behind `PUT /api/acl`. It checks the port specifications, lets the store check the rest
and replace the rules, and has the coordinator push the recompiled filters.

## Main results

* `accepted_of_handleSetACL` — what an accepted list satisfies
* `savedFilter_eq_policy` — from a saved list to the decision of the receiving node, through the
  database, the compiler, the text on the wire and the evaluation
* `reply_passes_iff` — a reply is judged by the rules like any other packet: having sent the packet
  it answers makes no difference
-/

namespace OverMesh

open Netip Coordinator

namespace AdminApi

/-- Why a rule list is refused, always with status 400. -/
inductive ACLError where
  | portSpec (e : PortSpecError)
  | portsNeedProtocol
  | store (e : SetACLError)
  deriving DecidableEq

/-- The text of an error. `quote` is the `%q` verb. -/
def ACLError.message (quote : String → String) : ACLError → String
  | .portSpec e => e.message quote
  | .portsNeedProtocol => "ports require protocol tcp or udp"
  | .store e => e.message quote

/-- The error of `ParsePortSpec`, if any. -/
def portSpecError (spec : String) : Option PortSpecError :=
  match parsePortSpec spec with
  | .error e => some e
  | .ok _ => none

/-- The checks the handler makes on one rule: all its port specifications first. -/
def checkPorts (rule : ACLRule) : Option ACLError :=
  match rule.ports.findSome? portSpecError with
  | some e => some (.portSpec e)
  | none =>
    if rule.ports ≠ [] ∧ rule.protocol ≠ "tcp" ∧ rule.protocol ≠ "udp" then some .portsNeedProtocol
    else none

/-- `handleSetACL` for the network `nw` of the interface. -/
def handleSetACL (c : Coordinator) (nw : ℤ) (rules : List ACLRule) :
    Except ACLError Unit × Coordinator :=
  match rules.findSome? checkPorts with
  | some e => (.error e, c)
  | none =>
    match c.st.setACL nw rules with
    | .error e => (.error (.store e), c)
    | .ok st => (.ok (), ({ c with st := st }).aclChanged nw)

variable {c : Coordinator} {nw : ℤ} {rules : List ACLRule}

/-- An accepted save has run `SetACL` on a list whose ports were checked. -/
theorem handleSetACL_ok (h : (handleSetACL c nw rules).1 = .ok ()) :
    rules.findSome? checkPorts = none ∧
      c.st.setACL nw rules = .ok (handleSetACL c nw rules).2.st := by
  rw [handleSetACL] at h ⊢
  split at h
  · cases h
  · next hports =>
    simp only [hports]
    split at h
    · cases h
    · next st hst => exact ⟨trivial, by simp [hst, aclChanged]⟩

/-- **An accepted list** has only rules that pass every check. -/
theorem accepted_of_handleSetACL (h : (handleSetACL c nw rules).1 = .ok ()) {r : ACLRule}
    (hr : r ∈ rules) : Accepted r := by
  obtain ⟨hports, hset⟩ := handleSetACL_ok h
  obtain ⟨haction, hproto⟩ := Store.checkRule_of_setACL hset hr
  have hcheck := List.findSome?_eq_none_iff.mp hports r hr
  rw [checkPorts] at hcheck
  split at hcheck
  · cases hcheck
  · next hspecs =>
    split_ifs at hcheck with hneed
    refine ⟨?_, ?_, haction, hproto⟩
    · intro spec hspec
      have hspec := List.findSome?_eq_none_iff.mp hspecs spec hspec
      rw [portSpecError] at hspec
      split at hspec
      · cases hspec
      · next pr hpr => exact ⟨pr, hpr⟩
    · intro hne
      by_contra hother
      exact hneed ⟨hne, not_or.mp hother⟩

/-- The checks do not look at row ids. -/
theorem accepted_of_sameBody {rules' : List ACLRule}
    (h : List.Forall₂ ACLRule.SameBody rules rules') (hacc : ∀ r ∈ rules, Accepted r) :
    ∀ r ∈ rules', Accepted r := by
  induction h with
  | nil => exact hacc
  | cons hb _ ih =>
    rw [List.forall_mem_cons] at hacc ⊢
    obtain ⟨hr, hrest⟩ := hacc
    refine ⟨?_, ih hrest⟩
    rw [hb]
    exact ⟨hr.portSpecs, hr.portsProtocol, hr.action, hr.protocol⟩

/-- The policy does not look at row ids. -/
theorem policy_allows_of_sameBody {rules' : List ACLRule}
    (h : List.Forall₂ ACLRule.SameBody rules rules') (src dst : ℤ) (p : Policy.Protocol)
    (port : UInt16) : Policy.allows rules' src dst p port = Policy.allows rules src dst p port := by
  cases h with
  | nil => rfl
  | cons hr hrest =>
    rw [Policy.allows_eq_eval _ _ _ _ _ (List.cons_ne_nil _ _),
      Policy.allows_eq_eval _ _ _ _ _ (List.cons_ne_nil _ _)]
    refine FirstMatch.eval_eq_of_forall₂ ((List.Forall₂.cons hr hrest).imp ?_)
    intro r r' hb
    rw [hb]
    exact ⟨rfl, rfl⟩

section Saved

variable {st : Store} (hsave : (handleSetACL c nw rules).1 = .ok ())
  (hst : st.aclRules = (handleSetACL c nw rules).2.st.aclRules)
include hsave hst

/-- As long as nobody saves another list, the rules in the database are those of the request. -/
theorem sameBody_acl : List.Forall₂ ACLRule.SameBody rules (st.acl nw) := by
  have hread := Store.acl_setACL (handleSetACL_ok hsave).2
  rwa [show st.acl nw = (handleSetACL c nw rules).2.st.acl nw by rw [Store.acl, hst]; rfl]

theorem accepted_acl : ∀ r ∈ st.acl nw, Accepted r :=
  accepted_of_sameBody (sameBody_acl hsave hst) fun _ hr => accepted_of_handleSetACL hsave hr

/-- **From a saved list to a decision.** Whatever nodes have come and gone since the list was saved,
the filter of a node of the network decides about every address of every other node as the saved
list says. -/
theorem savedFilter_eq_policy (haddr : ∀ n ∈ st.nodesInNetwork nw, n.Addressed)
    (hdistinct : DistinctOverlay (st.nodesInNetwork nw)) {src dst : Node}
    (hsrc : src ∈ st.nodesInNetwork nw) (hdst : dst ∈ st.nodesInNetwork nw) {a : Addr}
    (ha : a ∈ src.overlayIPs) {p : Policy.Protocol} {num : UInt8} (hnum : num ∈ p.numbers)
    (port : UInt16) :
    (!(filterForNode st dst).enabled || (filterForNode st dst).allows a num port) =
      Policy.allows rules src.id dst.id p port := by
  have hbody := sameBody_acl hsave hst
  have hacc := accepted_acl hsave hst
  obtain rfl : dst.networkID = nw := (Store.mem_nodesInNetwork.mp hdst).2
  have hn : Addressing (st.nodesInNetwork dst.networkID) :=
    ⟨st.nodes.ascending.filter _, haddr, hdistinct⟩
  rw [filterForNode_eq_policy hn hsrc ha hacc hnum port, policy_allows_of_sameBody hbody]

end Saved

/-- Machine 1 may reach port 22 of machine 2; nothing else is allowed. -/
def sampleRules : List ACLRule := [⟨0, "allow", [1], [2], "tcp", ["22"]⟩]

/-- The store of the sample mesh with these rules saved. -/
def sampleSaved : Store := (handleSetACL sampleMesh 1 sampleRules).2.st

/-- In the sample mesh the filter of machine 2 lets machine 1 in on port 22. -/
theorem savedFilter_sample :
    (handleSetACL sampleMesh 1 sampleRules).1 = .ok () ∧
      (!(filterForNode sampleSaved (sampleNode 2 "host-2")).enabled ||
        (filterForNode sampleSaved (sampleNode 2 "host-2")).allows
          (sampleNode 1 "host").ipv4 protoTCP 22) =
        Policy.allows sampleRules (sampleNode 1 "host").id
          (sampleNode 2 "host-2").id .tcp 22 :=
  have hsave : (handleSetACL sampleMesh 1 sampleRules).1 = .ok () := by decide +kernel
  ⟨hsave, savedFilter_eq_policy hsave rfl (by decide +kernel) (by decide +kernel)
    (by decide +kernel) (by decide +kernel) List.mem_cons_self List.mem_cons_self 22⟩

/-! ### Replies -/

/-- The packet comes from an address of `n`, with the given protocol and ports. -/
def FromNode (pkt : List UInt8) (n : Node) (num : UInt8) (srcPort dstPort : UInt16) : Prop :=
  (∃ a, n.ipv4 = .v4 a ∧ Filter.Carries4 pkt a num srcPort dstPort) ∨
    ∃ a, n.ipv6 = .v6 a "" ∧ Filter.Carries6 pkt a num srcPort dstPort

/-- **Replies.** Node `b` answers node `a` from port `srcPort` to port `dstPort`. Whatever has gone
through the device of `a` before, in particular the packet that is answered, the reply gets through
exactly when the rules allow traffic from `b` to that port of `a`. -/
theorem reply_passes_iff (hsave : (handleSetACL c nw rules).1 = .ok ()) {st : Store}
    (hst : st.aclRules = (handleSetACL c nw rules).2.st.aclRules)
    (haddr : ∀ n ∈ st.nodesInNetwork nw, n.Addressed)
    (hdistinct : DistinctOverlay (st.nodesInNetwork nw)) {a b : Node}
    (ha : a ∈ st.nodesInNetwork nw) (hb : b ∈ st.nodesInNetwork nw) {p : Policy.Protocol}
    {num : UInt8} (hnum : num ∈ p.numbers) {srcPort dstPort : UInt16} {pkt : List UInt8}
    (hpkt : FromNode pkt b num srcPort dstPort) (ops : List FilterTUN.Traffic) :
    (Runs.run FilterTUN.step ⟨some (filterForNode st a)⟩ ops).Passes pkt ↔
      Policy.allows rules b.id a.id p dstPort = true := by
  have hbody := sameBody_acl hsave hst
  have hacc := accepted_acl hsave hst
  obtain rfl : a.networkID = nw := (Store.mem_nodesInNetwork.mp ha).2
  have hn : Addressing (st.nodesInNetwork a.networkID) :=
    ⟨st.nodes.ascending.filter _, haddr, hdistinct⟩
  have hdecide : ∀ addr ∈ b.overlayIPs,
      (!(filterForNode st a).enabled || (filterForNode st a).allows addr num dstPort) =
        Policy.allows rules b.id a.id p dstPort := fun addr haddr => by
    rw [filterForNode_eq_policy hn hb haddr hacc hnum dstPort, policy_allows_of_sameBody hbody]
  rw [FilterTUN.run_eq, FilterTUN.passes_iff]
  rcases hpkt with ⟨x, hx, hpkt⟩ | ⟨x, hx, hpkt⟩
  · rw [Filter.allowsPacket_carries4 _ hpkt, ← hx, hdecide _ (by simp [Node.overlayIPs])]
  · rw [Filter.allowsPacket_carries6 _ hpkt, ← hx, hdecide _ (by simp [Node.overlayIPs])]

/-- An IPv4 packet without options from `10.0.0.src` to `10.0.0.dst`, tcp. -/
def samplePacket (src dst srcPort dstPort : UInt8) : List UInt8 :=
  [0x45, 0, 0, 24, 0, 0, 0, 0, 64, 6, 0, 0, 10, 0, 0, src, 10, 0, 0, dst, 0, srcPort, 0, dstPort]

theorem fromNode_samplePacket :
    FromNode (samplePacket 2 1 22 99) (sampleNode 2 "host-2") protoTCP 22 99 := by
  refine .inl ⟨_, rfl, ⟨?_, by decide +kernel, by decide +kernel⟩⟩
  constructor <;> decide +kernel

/-- The reply in the sample mesh is judged by the rules. -/
theorem reply_passes_sample :
    FromNode (samplePacket 2 1 22 99) (sampleNode 2 "host-2") protoTCP 22 99 ∧
      ((Runs.run FilterTUN.step ⟨some (filterForNode sampleSaved (sampleNode 1 "host"))⟩
          [.read [samplePacket 1 2 99 22]]).Passes (samplePacket 2 1 22 99) ↔
        Policy.allows sampleRules (sampleNode 2 "host-2").id
          (sampleNode 1 "host").id .tcp 99 = true) :=
  ⟨fromNode_samplePacket, reply_passes_iff (c := sampleMesh) (by decide +kernel) rfl
    (by decide +kernel) (by decide +kernel) (by decide +kernel) (by decide +kernel)
    List.mem_cons_self fromNode_samplePacket _⟩

/-- **An allowed connection that gets no answer.** Machine 2 lets machine 1 in on port 22. Machine 1
sends a packet there, and drops the reply. -/
theorem reply_dropped :
    (handleSetACL sampleMesh 1 sampleRules).1 = .ok () ∧
      FromNode (samplePacket 2 1 22 99) (sampleNode 2 "host-2") protoTCP 22 99 ∧
      Filter.allowsPacket (some (filterForNode sampleSaved (sampleNode 2 "host-2")))
        (samplePacket 1 2 99 22) = true ∧
      ¬ (Runs.run FilterTUN.step
          ⟨some (filterForNode sampleSaved (sampleNode 1 "host"))⟩
          [.read [samplePacket 1 2 99 22]]).Passes (samplePacket 2 1 22 99) := by
  refine ⟨by decide +kernel, fromNode_samplePacket, by decide +kernel, ?_⟩
  intro h
  rw [FilterTUN.run_eq, FilterTUN.passes_iff] at h
  exact absurd h (by decide +kernel)

end AdminApi

end OverMesh
