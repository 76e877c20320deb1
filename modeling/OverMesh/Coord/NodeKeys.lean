import OverMesh.Coord.Delivery
import OverMesh.Coord.Rows

/-!
# Node keys

A node's WireGuard key is the one its machine presented when it last registered. The database does
not require these keys to be distinct, and `Register` does not look at the keys of the other nodes:
two machines that present one key both get it, and every third node of the network is sent two
peers with the same public key.

The keys stay distinct as long as no machine presents a key that another node of its network holds,
and then so are the keys in every netmap that was ever sent.

## Main definitions

* `registersIn`, `FreshNodeKey` — the condition on a registration
* `NodeKeyInv` — the invariant

## Main results

* `sent_step` — where the netmaps in the channels come from
* `nodup_peers` — distinct keys in the database are distinct keys in a netmap
* `nodeKeys_distinct` — **the invariant holds in every run in which each registration is fresh**
-/

namespace OverMesh

open Key Channel Runs Coordinator

/-! ### The netmaps that were sent -/

/-- The netmap went into some channel. -/
def Sent (c : Coordinator) (nm : Proto.NetMap) : Prop := ∃ ch, nm ∈ (c.chans.get ch).accepted

/-- The netmap was built on the database `st`. -/
def BuiltOn (st : Store) (nm : Proto.NetMap) : Prop :=
  ∃ (c : Coordinator) (n : Node), c.st = st ∧ c.buildNetMapLocked n = some nm

/-- The netmap was built on the database `st` for one of its nodes. -/
def BuiltFor (st : Store) (nm : Proto.NetMap) : Prop :=
  ∃ (c : Coordinator) (n : Node), c.st = st ∧ (∃ m ∈ st.nodes.rows, m.stable = n.stable) ∧
    c.buildNetMapLocked n = some nm

theorem BuiltFor.builtOn {st : Store} {nm : Proto.NetMap} (h : BuiltFor st nm) : BuiltOn st nm := by
  obtain ⟨c, n, hst, -, hnm⟩ := h
  exact ⟨c, n, hst, hnm⟩

section Sent

variable {c : Coordinator} {nm : Proto.NetMap}

theorem sent_foldl_pushNetMap {ns : List Node} (hns : ∀ n ∈ ns, n ∈ c.st.nodes.rows)
    (h : Sent (ns.foldl pushNetMap c) nm) : Sent c nm ∨ BuiltFor c.st nm := by
  induction ns generalizing c with
  | nil => exact .inl h
  | cons n ns ih =>
    rw [List.forall_mem_cons] at hns
    rw [List.foldl_cons] at h
    have hst : (c.pushNetMap n).st = c.st := by
      obtain ⟨_, _, heq⟩ := c.pushNetMap_eq n
      rw [heq]
    rcases ih (by rw [hst]; exact hns.2) h with ⟨ch, hch⟩ | hbuilt
    · rw [pushNetMap] at hch
      split at hch
      · next ch' nm' hch' hnm' =>
        by_cases he : ch = ch'
        · rw [he, Heap.get_modify_self] at hch
          rcases Chan.mem_accepted_trySend hch with hold | rfl
          · exact .inl ⟨ch', hold⟩
          · exact .inr ⟨c, n, rfl, ⟨n, hns.1, rfl⟩, hnm'⟩
        · rw [Heap.get_modify_of_ne he] at hch
          exact .inl ⟨ch, hch⟩
      · exact .inl ⟨ch, hch⟩
    · rw [hst] at hbuilt
      exact .inr hbuilt

theorem sent_notify {w : ℤ} (h : Sent (c.notifyNetworkLocked w) nm) :
    Sent c nm ∨ BuiltFor c.st nm :=
  sent_foldl_pushNetMap (c := { c with seq := Function.update c.seq w (c.seq w + 1) })
    (fun _ hn => (Store.mem_nodesInNetwork.mp hn).1) h

/-- The step of a call that ends with a notification. -/
theorem sent_of_notify {c₀ : Coordinator} {w : ℤ} (hchans : ∀ nm, Sent c nm → Sent c₀ nm)
    (h : Sent (c.notifyNetworkLocked w) nm) :
    Sent c₀ nm ∨ BuiltFor (c.notifyNetworkLocked w).st nm := by
  rw [st_notifyNetworkLocked]
  exact (sent_notify h).imp_left (hchans nm)

theorem sent_register {now : ℤ} {req : RegisterRequest} (h : Sent (c.register now req).2 nm) :
    Sent c nm ∨ BuiltFor (c.register now req).2.st nm := by
  have hspec := register_spec c now req
  generalize c.register now req = res at hspec h ⊢
  cases hspec with
  | rejected _ => exact .inl h
  | returning _ hn =>
    obtain ⟨st, name, nw, -, -, -, -, -, -, -, heq⟩ :=
      reRegister_spec req _ (Store.nodeByMachineKey_eq_some_iff.mp hn).1
    rw [heq] at h ⊢
    exact sent_of_notify (fun _ => id) h
  | enrolling _ _ _ _ _ hres =>
    cases hres with
    | refused _ => exact .inl h
    | exhausted _ _ => exact .inl h
    | halfBuilt _ _ _ _ => exact .inl h
    | enrolled _ _ _ _ _ _ _ _ _ => exact sent_of_notify (fun _ => id) h

/-- A new channel holds the map it was primed with. -/
theorem sent_subscribe {now : ℤ} {mkey : MachinePublic} (h : Sent (c.subscribe now mkey).2 nm) :
    Sent c nm ∨ BuiltFor (c.subscribe now mkey).2.st nm := by
  rw [subscribe] at h ⊢
  split at h
  · exact .inl h
  · next n hn =>
    simp only [st_notifyNetworkLocked]
    rcases sent_notify h with ⟨ch, hch⟩ | hbuilt
    · by_cases he : ch = c.chans.next
      · rw [he, (StreamInv.get_openStream_self now).2, Option.mem_toList] at hch
        -- The row of the node has a new time.
        have hrow : { n with lastSeen := unixSeconds now } ∈
            (c.openStream now n).st.nodes.rows := by
          change _ ∈ (c.st.touchNode n.id now).nodes.rows
          rw [Store.touchNode, Store.rows_nodes_updateNode]
          exact List.mem_map.mpr ⟨n, (Store.nodeByMachineKey_eq_some_iff.mp hn).1, if_pos rfl⟩
        exact .inr ⟨_, n, rfl, ⟨_, hrow, rfl⟩, hch⟩
      · rw [openStream] at hch
        dsimp only at hch
        rw [Heap.get_alloc_of_ne (by simpa using he), accepted_closeOld] at hch
        exact .inl ⟨ch, hch⟩
    · exact .inr hbuilt

/-- **Where netmaps come from.** Whatever is in the channels after a step was there before, or was
built on the database the step leaves behind. -/
theorem sent_step {s : System} {op : Op} (h : Sent (s.step op).c nm) :
    Sent s.c nm ∨ BuiltFor (s.step op).c.st nm := by
  cases op with
  | register now req => exact sent_register h
  | subscribe now mkey => exact sent_subscribe h
  | updateEndpoints mkey endpoints =>
    rw [System.step] at h ⊢
    rcases s.c.updateEndpoints_cases mkey endpoints with heq | ⟨n, -, heq⟩
    · rw [heq] at h
      exact .inl h
    · rw [heq] at h ⊢
      exact sent_of_notify (fun _ => id) h
  | unsubscribe now i =>
    simp only [System.step, unsubscribe] at h ⊢
    split at h
    · exact .inl h
    · split at h
      · next hcur =>
        simp only [hcur, if_true]
        exact sent_of_notify (fun _ => id) h
      · exact .inl h
  | recv ch =>
    obtain ⟨ch', hch'⟩ := h
    refine .inl ⟨ch', ?_⟩
    simp only [System.step] at hch'
    by_cases he : ch' = ch
    · rwa [he, Heap.get_modify_self, Chan.accepted_recv, ← he] at hch'
    · rwa [Heap.get_modify_of_ne he] at hch'
  | deleteNode id =>
    simp only [System.step] at h ⊢
    rcases deleteNode_spec s.c id with
      ⟨-, heq⟩ | ⟨n, st, nw, ipams, -, -, -, -, heq⟩
    · rw [heq] at h
      exact .inl h
    · rw [heq] at h ⊢
      refine sent_of_notify ?_ h
      rintro nm' ⟨ch, hch⟩
      rw [accepted_closeOld] at hch
      exact ⟨ch, hch⟩
  | setRouteApproved nodeID route approved =>
    rw [System.step] at h ⊢
    rcases s.c.setRouteApproved_cases nodeID route approved with heq | ⟨n, norm, st, -, -, heq⟩
    · rw [heq] at h
      exact .inl h
    · rw [heq] at h ⊢
      exact sent_of_notify (fun _ => id) h
  | setACL nw rules =>
    simp only [System.step] at h
    split at h <;> exact .inl h
  | aclChanged nw => exact sent_of_notify (fun _ => id) h
  | signalSubscribe mkey =>
    rw [Sent, (signalsOnly_signalSubscribe s mkey).chans] at h
    exact .inl h
  | signalUnsubscribe i =>
    rw [Sent, (signalsOnly_signalUnsubscribe s i).chans] at h
    exact .inl h
  | routeSignal i env =>
    rw [Sent, (signalsOnly_routeSignal s i env).chans] at h
    exact .inl h
  | recvSignal ch => exact .inl h
  | ensureNetwork name v4 v6 => exact .inl h
  | newSetupKey now raw nw reusable expiresAt owner => exact .inl h
  | revokeSetupKey id => exact .inl h
  | restart =>
    obtain ⟨ch, hch⟩ := h
    cases hch

end Sent

/-! ### Distinct keys in the database -/

/-- The stored keys are texts of keys, and no two nodes of a network have the same one. -/
structure KeysDistinct (st : Store) : Prop where
  text : ∀ n ∈ st.nodes.rows, ∃ k : NodePublic, n.nodeKey = k.string
  distinct : ∀ n ∈ st.nodes.rows, ∀ m ∈ st.nodes.rows, n.networkID = m.networkID →
    n.nodeKey = m.nodeKey → n.id = m.id

namespace KeysDistinct

variable {st st' : Store}

/-- Rows may go, and change in what is neither id, network nor key. -/
theorem of_rows (h : KeysDistinct st) (hrows : ∀ n' ∈ st'.nodes.rows, ∃ n ∈ st.nodes.rows,
    n.id = n'.id ∧ n.networkID = n'.networkID ∧ n.nodeKey = n'.nodeKey) : KeysDistinct st' where
  text n' hn' := by
    obtain ⟨n, hn, -, -, hkey⟩ := hrows n' hn'
    rw [← hkey]
    exact h.text n hn
  distinct n' hn' m' hm' hnw hkey := by
    obtain ⟨n, hn, hid, hnw₁, hkey₁⟩ := hrows n' hn'
    obtain ⟨m, hm, hid', hnw₂, hkey₂⟩ := hrows m' hm'
    rw [← hid, ← hid']
    exact h.distinct n hn m hm (hnw₁.trans (hnw.trans hnw₂.symm))
      (hkey₁.trans (hkey.trans hkey₂.symm))

/-- A row with a key that is new to its network. -/
theorem insert (h : KeysDistinct st) {n : Node} {k : NodePublic}
    (hrows : st'.nodes.rows = st.nodes.rows ++ [n]) (hk : n.nodeKey = k.string)
    (hfresh : ∀ m ∈ st.nodes.rows, m.networkID = n.networkID → m.nodeKey ≠ k.string) :
    KeysDistinct st' := by
  have hmem : ∀ m ∈ st'.nodes.rows, m ∈ st.nodes.rows ∨ m = n := by
    intro m hm
    rwa [hrows, List.mem_append, List.mem_singleton] at hm
  constructor
  · intro m hm
    rcases hmem m hm with hm | rfl
    · exact h.text m hm
    · exact ⟨k, hk⟩
  · intro m hm m' hm' hnw hkey
    rcases hmem m hm with hm | rfl <;> rcases hmem m' hm' with hm' | rfl
    · exact h.distinct m hm m' hm' hnw hkey
    · exact absurd (hkey.trans hk) (hfresh m hm hnw)
    · exact absurd (hkey.symm.trans hk) (hfresh m' hm' hnw.symm)
    · rfl

/-- A row that gets a key no other node of its network has. -/
theorem rekey (h : KeysDistinct st) {n : Node} {req : RegisterRequest} (hn : n ∈ st.nodes.rows)
    (hrows : st'.nodes.rows =
      st.nodes.rows.map fun m => if m.id = n.id then m.returned st req else m)
    (hfresh : ∀ m ∈ st.nodes.rows, m.networkID = n.networkID → m.id ≠ n.id →
      m.nodeKey ≠ req.nkey.string) : KeysDistinct st' := by
  -- a row of the new table has its old key, unless it is the row of the node
  have hrow : ∀ m' ∈ st'.nodes.rows, ∃ m ∈ st.nodes.rows, m.id = m'.id ∧
      m.networkID = m'.networkID ∧
      (m.id = n.id ∧ m'.nodeKey = req.nkey.string ∨ m.id ≠ n.id ∧ m'.nodeKey = m.nodeKey) := by
    intro m' hm'
    rw [hrows] at hm'
    obtain ⟨m, hm, rfl⟩ := List.mem_map.mp hm'
    refine ⟨m, hm, ?_⟩
    split_ifs with hid
    · exact ⟨Node.id_returned.symm, Node.networkID_returned.symm, .inl ⟨hid, Node.nodeKey_returned⟩⟩
    · exact ⟨rfl, rfl, .inr ⟨hid, rfl⟩⟩
  constructor
  · intro m' hm'
    obtain ⟨m, hm, -, -, ⟨-, hkey⟩ | ⟨-, hkey⟩⟩ := hrow m' hm'
    · exact ⟨req.nkey, hkey⟩
    · rw [hkey]
      exact h.text m hm
  · intro p' hp' q' hq' hnw hkey
    obtain ⟨p, hp, hpid, hpnw, hpkey⟩ := hrow p' hp'
    obtain ⟨q, hq, hqid, hqnw, hqkey⟩ := hrow q' hq'
    have hnw' : p.networkID = q.networkID := hpnw.trans (hnw.trans hqnw.symm)
    rw [← hpid, ← hqid]
    rcases hpkey with ⟨hpn, hpkey⟩ | ⟨hpn, hpkey⟩ <;> rcases hqkey with ⟨hqn, hqkey⟩ | ⟨hqn, hqkey⟩
    · exact hpn.trans hqn.symm
    · have hsame := st.nodes.eq_of_id_eq hp hn hpn
      refine absurd ?_ (hfresh q hq (hsame ▸ hnw'.symm) hqn)
      rw [← hqkey, ← hkey, hpkey]
    · have hsame := st.nodes.eq_of_id_eq hq hn hqn
      refine absurd ?_ (hfresh p hp (hsame ▸ hnw') hpn)
      rw [← hpkey, hkey, hqkey]
    · exact h.distinct p hp q hq hnw' (by rw [← hpkey, ← hqkey, hkey])

/-- **Distinct keys in the database are distinct keys in a netmap.** -/
theorem nodup_peers (h : KeysDistinct st) {nm : Proto.NetMap} (hnm : BuiltOn st nm) :
    (nm.peers.map (·.nodeKey)).Nodup := by
  obtain ⟨c, n, rfl, hnm⟩ := hnm
  rw [buildNetMapLocked] at hnm
  obtain ⟨nw, -, rfl⟩ := Option.map_eq_some_iff.mp hnm
  refine List.pairwise_map.mpr (List.pairwise_filterMap.mpr ?_)
  have hasc := (c.st.nodes.ascending.filter (·.networkID = n.networkID)).filter (·.id ≠ n.id)
  refine hasc.imp_of_mem fun {p q} hp hq hlt => ?_
  intro a ha b hb hkey
  obtain ⟨hp, hpnw⟩ := Store.mem_nodesInNetwork.mp (List.mem_of_mem_filter hp)
  obtain ⟨hq, hqnw⟩ := Store.mem_nodesInNetwork.mp (List.mem_of_mem_filter hq)
  obtain ⟨j, hj⟩ := h.text p hp
  obtain ⟨k, hk⟩ := h.text q hq
  simp only [peerEntry, hj, hk, NodePublic.unmarshalText_string, Option.map_some,
    Option.some.injEq] at ha hb
  subst ha hb
  have hjk : j = k := by
    cases j
    cases k
    exact congrArg NodePublic.mk (Subtype.ext hkey)
  exact absurd (h.distinct p hp q hq (hpnw.trans hqnw.symm) (by rw [hj, hk, hjk])) (ne_of_lt hlt)

end KeysDistinct

/-! ### Runs -/

/-- The network a registration is for: that of the machine's node or of the setup key. -/
def registersIn (c : Coordinator) (now : ℤ) (req : RegisterRequest) : Option ℤ :=
  match c.st.nodeByMachineKey req.mkey.string with
  | some n => some n.networkID
  | none => (c.st.readSetupKey now req.setupKey).toOption.map (·.networkID)

/-- A registration presents a node key that no other node of its network holds. -/
def FreshNodeKey (s : System) : Op → Prop
  | .register now req => ∀ n ∈ s.c.st.nodes.rows, registersIn s.c now req = some n.networkID →
      n.machineKey ≠ req.mkey.string → n.nodeKey ≠ req.nkey.string
  | _ => True

/-- The keys in the database are distinct, network by network, and so are those of the peers in
every netmap that was sent. -/
structure NodeKeyInv (c : Coordinator) : Prop where
  keys : KeysDistinct c.st
  sent : ∀ nm, Sent c nm → (nm.peers.map (·.nodeKey)).Nodup

/-- **One step**: rows go, or change in what is neither network nor key, or get a key that is new to
their network. -/
theorem KeysDistinct.step {s : System} {op : Op} (h : KeysDistinct s.c.st)
    (hop : FreshNodeKey s op) : KeysDistinct (s.step op).c.st := by
  have hrows := step_rows s op
  generalize hnew : (s.step op).c.st.nodes.rows = rows at hrows
  cases hrows with
  | quiet hstable =>
    refine h.of_rows fun n' hn' => ?_
    rw [hnew] at hn'
    obtain ⟨n, hn, he⟩ := exists_stable_eq hstable hn'
    exact ⟨n, hn, congrArg (·.id) he, congrArg (·.networkID) he, congrArg (·.nodeKey) he⟩
  | @returned now req n hn =>
    obtain ⟨hmem, hmk⟩ := Store.nodeByMachineKey_eq_some_iff.mp hn
    refine h.rekey hmem hnew fun m hm hnw hid => hop m hm ?_ fun hmk' => hid ?_
    · rw [registersIn, hn, hnw]
    · rw [s.c.st.nodes.eq_of_uniq_eq hm hmem (congrArg some hmk') (congrArg some hmk)]
  | @enrolled now ownerID req nw k a v4 v6 hmk hread hnw ha h4 h6 =>
    have hin : registersIn s.c now req = some nw.id := by
      rw [registersIn, hmk, hread, (AutoTable.byId_eq_some_iff.mp hnw).2]
      rfl
    refine h.insert hnew rfl fun m hm hnw' => hop m hm ?_ ?_
    · rw [hin]
      exact congrArg some hnw'.symm
    · exact Store.nodeByMachineKey_eq_none_iff.mp hmk m hm
  | deleted id =>
    refine h.of_rows fun n' hn' => ⟨n', ?_, rfl, rfl, rfl⟩
    rw [hnew] at hn'
    exact List.mem_of_mem_filter hn'

theorem nodeKeyInv_step (s : System) (op : Op) (h : NodeKeyInv s.c) (hop : FreshNodeKey s op) :
    NodeKeyInv (s.step op).c := by
  have hkeys : KeysDistinct (s.step op).c.st := h.keys.step hop
  refine ⟨hkeys, ?_⟩
  intro nm hnm
  rcases sent_step hnm with hold | hbuilt
  · exact h.sent nm hold
  · exact hkeys.nodup_peers hbuilt.builtOn

/-- **Distinct node keys.** In every run from an empty database in which each registration presents
a node key that no other node of its network holds, no two nodes of a network have the same node
key, and the peers in every netmap that was sent have distinct WireGuard keys. -/
theorem nodeKeys_distinct (stunServers relays : List String) (dnsBase : String) (ops : List Op)
    (hops : Along System.step FreshNodeKey
      (System.start .empty stunServers relays dnsBase) ops) :
    NodeKeyInv (run System.step (System.start .empty stunServers relays dnsBase) ops).c := by
  refine run_induction_along (P := fun s : System => NodeKeyInv s.c) ⟨⟨?_, ?_⟩, ?_⟩
    nodeKeyInv_step hops
  · intro n hn
    cases hn
  · intro n hn
    cases hn
  · rintro nm ⟨ch, hch⟩
    cases hch

/-- Three machines with the node keys `b₁`, `b₂` and `b₃` join a network `10.0.0.0/29`, and the
third one opens a stream. -/
def sampleJoins (b₁ b₂ b₃ : UInt8) : List Op :=
  let req (i b : UInt8) : RegisterRequest :=
    { sampleRequest i "sk-01" with nkey := ⟨sampleKey b⟩ }
  [.ensureNetwork "default" { samplePrefix4 with bits := 29, bits_le := by decide }
      samplePrefix6,
    .newSetupKey 0 [1] 1 true none 0, .register 0 (req 1 b₁), .register 0 (req 2 b₂),
    .register 0 (req 3 b₃), .subscribe 0 (req 3 b₃).mkey]

/-- The state after `sampleJoins`. -/
def sampleJoined (b₁ b₂ b₃ : UInt8) : Coordinator :=
  (run System.step (System.start .empty [] [] "mesh") (sampleJoins b₁ b₂ b₃)).c

/-- Three machines with three keys. -/
theorem nodeKeys_distinct_sample :
    Along System.step FreshNodeKey (System.start .empty [] [] "mesh") (sampleJoins 7 8 9) ∧
      NodeKeyInv (sampleJoined 7 8 9) :=
  have hfresh : Along System.step FreshNodeKey (System.start .empty [] [] "mesh")
      (sampleJoins 7 8 9) := by
    refine ⟨trivial, trivial, ?_, ?_, ?_, trivial, trivial⟩
    all_goals
      rw [FreshNodeKey]
      decide +kernel
  ⟨hfresh, nodeKeys_distinct _ _ _ _ hfresh⟩

/-- **One key, two nodes.** The second machine registers with the node key of the first. Both get
it, and the maps the third machine is sent have two peers with that key. -/
theorem nodeKeys_shared :
    (sampleJoined 7 7 9).st.nodes.rows.map (fun n => (n.id, n.networkID, n.nodeKey)) =
        [(1, 1, (⟨sampleKey 7⟩ : NodePublic).string),
          (2, 1, (⟨sampleKey 7⟩ : NodePublic).string),
          (3, 1, (⟨sampleKey 9⟩ : NodePublic).string)] ∧
      ((sampleJoined 7 7 9).chans.get 0).accepted.map (·.peers.map (·.nodeKey)) =
        List.replicate 2 (List.replicate 2 (sampleKey 7).val) := by
  decide +kernel

end OverMesh
