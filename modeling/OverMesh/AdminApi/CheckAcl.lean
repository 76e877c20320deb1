import OverMesh.AdminApi.Acl
import OverMesh.Coord.Overlay
import OverMesh.Filter.Packets

/-!
# The dry run of the access rules

`POST /api/acl/check` answers whether a device can reach a port of another one. It compiles the
filter of the destination and asks it about the IPv4 address of the source, by the name of the
protocol. Packets are judged by their bytes, and may come from the IPv6 address.

The two agree because the compiler puts both addresses of a device into a rule or none of them, and
because no two devices share an address. The latter is what makes this a statement about runs of the
server.

## Main results

* `allows_eq_of_overlay` — a compiled filter does not tell the addresses of a device apart
* `checkACL_eq_allowsPacket` — **the dry run answers what the filter does with the packets**
-/

namespace OverMesh

open Netip

namespace AdminApi

/-- Why the dry run is refused, always with status 404. -/
inductive CheckACLError where
  | unknownSource
  | unknownDestination
  deriving DecidableEq

/-- The text of an error. -/
def CheckACLError.message : CheckACLError → String
  | .unknownSource => "unknown source device"
  | .unknownDestination => "unknown destination device"

/-- `handleCheckACL`, on a decoded request. -/
def handleCheckACL (st : Store) (srcID dstID : ℤ) (protocol : String) (port : UInt16) :
    Except CheckACLError Bool :=
  match st.nodeByID srcID with
  | none => .error .unknownSource
  | some src =>
    match st.nodeByID dstID with
    | none => .error .unknownDestination
    | some dst =>
      let f := Filter.fromProto (compileFilterForNode st dst).1 (compileFilterForNode st dst).2
      .ok (Filter.check (some f) src.ipv4 protocol port)

end AdminApi

/-- The number of a protocol over IPv4. -/
def Policy.Protocol.number4 : Policy.Protocol → UInt8
  | .tcp => protoTCP
  | .udp => protoUDP
  | .icmp => protoICMP4

/-- The number of a protocol over IPv6. -/
def Policy.Protocol.number6 : Policy.Protocol → UInt8
  | .tcp => protoTCP
  | .udp => protoUDP
  | .icmp => protoICMP6

namespace AdminApi

/-- The packet is one of protocol `p` from an overlay address of `n`, to port `port` if the protocol
has ports. -/
def SentBy (pkt : List UInt8) (n : Node) (p : Policy.Protocol) (port : UInt16) : Prop :=
  (∃ a, n.ipv4 = .v4 a ∧ Filter.Layout4 pkt a p.number4 port) ∨
    ∃ a, n.ipv6 = .v6 a "" ∧ Filter.Layout6 pkt a p.number6 port

/-! ### What a compiled filter cannot tell apart -/

section Rules

variable {r : Rule}

/-- The rules do not tell the two numbers of a protocol apart. -/
theorem matchesProto_number (p : Policy.Protocol) :
    r.matchesProto p.number6 = r.matchesProto p.number4 := by
  cases p with
  | tcp => rfl
  | udp => rfl
  | icmp =>
    rw [Rule.matchesProto, Rule.matchesProto]
    split_ifs <;> rfl

theorem matchesPort_number (p : Policy.Protocol) (port : UInt16) :
    r.matchesPort p.number6 port = r.matchesPort p.number4 port := by
  cases p <;> rfl

/-- The port of a protocol without ports does not matter. -/
theorem matchesPort_ite (num : UInt8) (port : UInt16) :
    r.matchesPort num (if Filter.hasPorts num then port else 0) = r.matchesPort num port := by
  by_cases hp : Filter.hasPorts num = true
  · rw [if_pos hp]
  · have hnone : (num == protoTCP || num == protoUDP) = false := Bool.eq_false_of_not_eq_true hp
    rw [Rule.matchesPort, Rule.matchesPort, hnone, Bool.false_and, Bool.false_and]

end Rules

section Filter

variable {st : Store} {src dst : Node} {a b : Addr} {num num' : UInt8} {port port' : UInt16}

/-- Where the rules of a compiled filter come from. -/
theorem exists_rule_of_mem_filterForNode {rule : Rule} (h : rule ∈ (filterForNode st dst).rules) :
    ∃ r : ACLRule, rule = Rule.fromProto (filterRule (st.nodesInNetwork dst.networkID) r) ∧
      ¬ (r.srcIDs ≠ [] ∧ srcCidrs (st.nodesInNetwork dst.networkID) r.srcIDs = []) := by
  rw [filterForNode, Filter.fromProto, compileFilterForNode] at h
  split_ifs at h with hnil
  · cases h
  · obtain ⟨fr, hfr, rfl⟩ := List.mem_map.mp h
    obtain ⟨r, -, hr⟩ := List.mem_filterMap.mp hfr
    rw [compileRule] at hr
    split_ifs at hr with hdst hgone
    exact ⟨r, by rw [Option.some.inj hr], hgone⟩

/-- **A compiled filter does not tell the addresses of a device apart.** -/
theorem allows_eq_of_overlay (hn : Addressing (st.nodesInNetwork dst.networkID))
    (hsrc : src ∈ st.nodesInNetwork dst.networkID) (ha : a ∈ src.overlayIPs)
    (hb : b ∈ src.overlayIPs) (hproto : ∀ r : Rule, r.matchesProto num' = r.matchesProto num)
    (hport : ∀ r : Rule, r.matchesPort num' port' = r.matchesPort num port) :
    (filterForNode st dst).allows b num' port' = (filterForNode st dst).allows a num port := by
  refine FirstMatch.eval_eq_of_forall₂ (List.forall₂_same.mpr fun rule hrule => ⟨?_, rfl⟩)
  obtain ⟨r, rfl, hkept⟩ := exists_rule_of_mem_filterForNode hrule
  rw [hproto, hport]
  congr 2
  rw [Bool.eq_iff_iff, matchesSrc_filterRule hn hsrc ha hkept,
    matchesSrc_filterRule hn hsrc hb hkept]

end Filter

theorem check_name (f : Filter) (p : Policy.Protocol) (port : UInt16) {a : Addr}
    (h : a.is4 = true) :
    Filter.check (some f) a p.name port = (!f.enabled || f.allows a p.number4 port) := by
  have h6 : a.is6 = false := by
    cases a with
    | v4 _ => rfl
    | v6 _ _ => cases h
  cases hf : f.enabled <;> cases p <;>
    simp [Filter.check, hf, Policy.Protocol.name, Policy.Protocol.number4, h6]

theorem handleCheckACL_eq {st : Store} {src dst : Node} (hsrc : src ∈ st.nodes.rows)
    (hdst : dst ∈ st.nodes.rows) (protocol : String) (port : UInt16) :
    handleCheckACL st src.id dst.id protocol port =
      .ok (Filter.check (some (filterForNode st dst)) src.ipv4 protocol port) := by
  have hs : st.nodeByID src.id = some src := Store.nodeByID_eq_some_iff.mpr ⟨hsrc, rfl⟩
  have hd : st.nodeByID dst.id = some dst := Store.nodeByID_eq_some_iff.mpr ⟨hdst, rfl⟩
  rw [handleCheckACL, hs]
  simp only [hd]
  rfl

/-- What the filter of `dst` does with a packet of `src` is what it says about the IPv4 address. -/
theorem allowsPacket_of_sentBy {st : Store} {src dst : Node}
    (hn : Addressing (st.nodesInNetwork dst.networkID))
    (hsrc : src ∈ st.nodesInNetwork dst.networkID) {p : Policy.Protocol} {port : UInt16}
    {pkt : List UInt8} (hpkt : SentBy pkt src p port) :
    Filter.allowsPacket (some (filterForNode st dst)) pkt =
      (!(filterForNode st dst).enabled ||
        (filterForNode st dst).allows src.ipv4 p.number4 port) := by
  have h4 : src.ipv4 ∈ src.overlayIPs := by simp [Node.overlayIPs]
  have h6 : src.ipv6 ∈ src.overlayIPs := by simp [Node.overlayIPs]
  rw [Filter.allowsPacket]
  cases (filterForNode st dst).enabled with
  | false => rfl
  | true =>
    rcases hpkt with ⟨x, hx, hpkt⟩ | ⟨x, hx, hpkt⟩
    · rw [Filter.parse_layout4 hpkt, ← hx]
      exact allows_eq_of_overlay hn hsrc h4 h4 (fun _ => rfl) fun _ => matchesPort_ite _ _
    · rw [Filter.parse_layout6 hpkt, ← hx]
      refine allows_eq_of_overlay hn hsrc h4 h6 (fun _ => matchesProto_number p) fun _ => ?_
      rw [matchesPort_ite, matchesPort_number]

/-- **The dry run tells the truth about packets.** In every state of the server, for every two
devices, protocol and port, it answers what the filter of the destination does with every packet
from either address of the source. Bytes that are no packet are dropped by every filter that is on,
and reading them never leaves them. -/
theorem checkACL_eq_allowsPacket (stunServers relays : List String) (dnsBase : String)
    (ops : List Op) (hmain : ∀ op ∈ ops, op.ByMain) {st : Store}
    (hst : st = (Runs.run System.step (System.start .empty stunServers relays dnsBase) ops).c.st)
    (hids : ∀ n ∈ st.nodes.rows, n.id < 2 ^ 63) :
    (∀ src ∈ st.nodes.rows, ∀ dst ∈ st.nodes.rows, ∀ p port pkt, SentBy pkt src p port →
      handleCheckACL st src.id dst.id p.name port =
        .ok (Filter.allowsPacket (some (filterForNode st dst)) pkt)) ∧
      (∀ (f : Filter) (pkt : List UInt8), f.enabled = true → ¬ Filter.CompleteHeader pkt →
        Filter.allowsPacket (some f) pkt = false) ∧
      ∀ pkt, Filter.parseBytes pkt = some (Filter.parse pkt) := by
  refine ⟨?_, fun f pkt hf => Filter.allowsPacket_of_incomplete hf, Filter.parseBytes_eq⟩
  intro src hsrc dst hdst p port pkt hpkt
  have hn := addressing_run stunServers relays dnsBase hmain hst hids dst.networkID
  have hnw : src ∈ st.nodesInNetwork dst.networkID := by
    have hone := overlayInv_run stunServers relays dnsBase hmain
    rw [hst] at hsrc hdst
    rw [hst]
    exact Store.mem_nodesInNetwork.mpr ⟨hsrc, hone.networkID_eq hsrc hdst⟩
  rw [handleCheckACL_eq hsrc hdst, check_name _ _ _ (hn.addressed src hnw).1,
    allowsPacket_of_sentBy hn hnw hpkt]

/-- Two machines enrol with a key of user 1, and the rules let the first one reach port 22 of the
second one. -/
def sampleOps : List Op :=
  [.ensureNetwork "default" Ipam.defaultIPv4Prefix Ipam.defaultIPv6Prefix,
    .newSetupKey 0 [1] 1 true none 1, .register 0 (Coordinator.sampleRequest 1 "sk-01"),
    .register 0 (Coordinator.sampleRequest 2 "sk-01"), .setACL 1 sampleRules, .aclChanged 1]

/-- The database after these steps. -/
def sampleChecked : Store :=
  (Runs.run System.step (System.start .empty [] [] "mesh") sampleOps).c.st

/-- The row of machine `b` there. -/
def sampleDevice (b : UInt8) (hostname : String) : Node :=
  { Coordinator.sampleNode b hostname with
    ipv4 := .v4 (0x64600000#32 + BitVec.ofNat 32 b.toNat)
    ipv6 := .v6 (0xfdab3f19000000000000000000000000#128 + BitVec.ofNat 128 b.toNat) ""
    ownerUserID := 1 }

/-- An IPv6 packet of machine 1 for tcp port 22, and an IPv4 packet with options. -/
def samplePackets : List (List UInt8) :=
  [[0x60, 0, 0, 0, 0, 4, 6, 64] ++ [0xfd, 0xab, 0x3f, 0x19] ++ List.replicate 11 0 ++ [1] ++
      List.replicate 16 0 ++ [0, 99, 0, 22],
    [0x46, 0, 0, 28, 0, 0, 0, 0, 64, 6, 0, 0, 100, 96, 0, 1, 100, 96, 0, 2, 1, 1, 1, 1, 0, 99, 0,
      22]]

theorem sentBy_samplePackets :
    ∀ pkt ∈ samplePackets, SentBy pkt (sampleDevice 1 "host") .tcp 22 := by
  intro pkt hpkt
  rw [samplePackets, List.mem_cons, List.mem_singleton] at hpkt
  rcases hpkt with rfl | rfl
  · exact .inr ⟨_, rfl, by constructor <;> decide +kernel⟩
  · exact .inl ⟨_, rfl, by constructor <;> decide +kernel⟩

/-- The dry run says that machine 1 reaches port 22 of machine 2, and its packets get through. -/
theorem checkACL_sample :
    samplePackets.Forall fun pkt => SentBy pkt (sampleDevice 1 "host") .tcp 22 ∧
      handleCheckACL sampleChecked (sampleDevice 1 "host").id (sampleDevice 2 "host-2").id
          "tcp" 22 =
        .ok (Filter.allowsPacket (some (filterForNode sampleChecked (sampleDevice 2 "host-2")))
          pkt) := by
  refine List.forall_iff_forall_mem.mpr fun pkt hpkt => ⟨sentBy_samplePackets pkt hpkt, ?_⟩
  exact (checkACL_eq_allowsPacket [] [] "mesh" sampleOps (by decide +kernel) rfl
    (by decide +kernel)).1 _ (by decide +kernel) _ (by decide +kernel) .tcp 22 pkt
    (sentBy_samplePackets pkt hpkt)

end AdminApi

end OverMesh
