import OverMesh.Coord.Delivery
import OverMesh.Coord.Rows
import OverMesh.Coord.Streams

/-!
# What a node is told about others

A netmap has addresses, keys and endpoints, and a server has many networks. The maps are put into
the channels by number, in the middle of calls that change rows, replace streams and delete nodes.
Here every map in a channel is traced back: to the stream the channel was made for, and to the
database it was built from.

## Main definitions

* `Depicts` — a map of a node, as a database has it
* `Serves` — what a step other than a restart does to streams and channels

## Main results

* `serves_step`
* `netmaps_isolated` — **a node gets maps of its own network only**
-/

namespace OverMesh

open Channel Key Runs OverMesh.System

/-- The map shows a node of a database, and for the rest nodes of its network. -/
structure Depicts (st : Store) (n : Node) (nm : Proto.NetMap) : Prop where
  mem : n ∈ st.nodes.rows
  nodeID : nm.self.nodeID = n.id.toNat
  overlayIPs : nm.self.overlayIPs = overlayCIDRs n
  peers : ∀ peer ∈ nm.peers, ∃ m ∈ st.nodes.rows, m.id ≠ n.id ∧ m.networkID = n.networkID ∧
    peer.nodeID = m.id.toNat ∧
    (NodePublic.unmarshalText m.nodeKey).map (·.k.val) = some peer.nodeKey ∧
    peer.overlayIPs = overlayCIDRs m ∧ peer.endpoints = m.endpoints ∧
    peer.allowedRoutes = st.approvedNodeRoutes m.id

theorem Coordinator.depicts_buildNetMapLocked {c : Coordinator} {n : Node} {nm : Proto.NetMap}
    (hn : n ∈ c.st.nodes.rows) (h : c.buildNetMapLocked n = some nm) : Depicts c.st n nm := by
  obtain ⟨nw, -, rfl⟩ := Option.map_eq_some_iff.mp h
  refine ⟨hn, rfl, rfl, fun peer hpeer => ?_⟩
  obtain ⟨m, hm, hentry⟩ := List.mem_filterMap.mp hpeer
  obtain ⟨hm, hne⟩ := List.mem_filter.mp hm
  obtain ⟨hm, hnet⟩ := Store.mem_nodesInNetwork.mp hm
  obtain ⟨nkey, hkey, rfl⟩ := Option.map_eq_some_iff.mp hentry
  exact ⟨m, hm, by simpa using hne, hnet, rfl, by rw [hkey]; rfl, rfl, rfl, rfl⟩

/-! ### What is put into a channel -/

namespace Coordinator

variable {c : Coordinator} {ns : List Node} {n : Node} {ch : ℕ} {nm : Proto.NetMap}

theorem mem_accepted_pushNetMap (h : nm ∈ ((c.pushNetMap n).chans.get ch).accepted) :
    nm ∈ (c.chans.get ch).accepted ∨ c.subs n.id = some ch ∧ c.buildNetMapLocked n = some nm := by
  by_cases hch : c.subs n.id = some ch
  · cases hnm : c.buildNetMapLocked n with
    | none =>
      simp only [pushNetMap, hch, hnm] at h
      exact .inl h
    | some x =>
      rw [get_pushNetMap hch hnm] at h
      rcases Chan.mem_accepted_trySend h with hold | rfl
      · exact .inl hold
      · exact .inr ⟨hch, rfl⟩
  · rw [get_pushNetMap_of_ne hch] at h
    exact .inl h

theorem mem_accepted_foldl_pushNetMap (h : nm ∈ ((ns.foldl pushNetMap c).chans.get ch).accepted) :
    nm ∈ (c.chans.get ch).accepted ∨
      ∃ n ∈ ns, c.subs n.id = some ch ∧ c.buildNetMapLocked n = some nm := by
  induction ns generalizing c with
  | nil => exact .inl h
  | cons m ns ih =>
    rcases ih h with hold | ⟨n, hn, hch, hnm⟩
    · exact (mem_accepted_pushNetMap hold).imp_right fun hm => ⟨m, List.mem_cons_self, hm⟩
    · rw [subs_pushNetMap] at hch
      rw [buildNetMapLocked_pushNetMap] at hnm
      exact .inr ⟨n, List.mem_cons_of_mem _ hn, hch, hnm⟩

/-- What a notification puts into a channel is a map of the node that the channel is for. -/
theorem mem_accepted_notify {w : ℤ} (h : nm ∈ ((c.notifyNetworkLocked w).chans.get ch).accepted) :
    nm ∈ (c.chans.get ch).accepted ∨ ∃ n, c.subs n.id = some ch ∧ Depicts c.st n nm := by
  refine (mem_accepted_foldl_pushNetMap h).imp_right ?_
  rintro ⟨n, hn, hch, hnm⟩
  exact ⟨n, hch, depicts_buildNetMapLocked (c := { c with seq := Function.update c.seq w _ })
    (Store.mem_nodesInNetwork.mp hn).1 hnm⟩

/-- A registration changes the database, and notifies a network or not. -/
theorem register_frame (c : Coordinator) (now : ℤ) (req : RegisterRequest) :
    ∃ st ipams, (c.register now req).2 = { c with st := st, ipams := ipams } ∨
      ∃ w, (c.register now req).2 =
        ({ c with st := st, ipams := ipams } : Coordinator).notifyNetworkLocked w := by
  have hspec := register_spec c now req
  generalize c.register now req = res at hspec ⊢
  cases hspec with
  | rejected _ => exact ⟨c.st, c.ipams, .inl rfl⟩
  | @returning routes n _ hn =>
    obtain ⟨st, _, _, -, -, -, -, -, -, -, heq⟩ :=
      reRegister_spec req routes (Store.nodeByMachineKey_eq_some_iff.mp hn).1
    rw [heq]
    exact ⟨st, c.ipams, .inr ⟨_, rfl⟩⟩
  | enrolling _ _ _ _ _ henroll =>
    cases henroll with
    | refused _ => exact ⟨_, c.ipams, .inl rfl⟩
    | exhausted _ _ => exact ⟨_, _, .inl rfl⟩
    | halfBuilt _ _ _ _ => exact ⟨_, _, .inl rfl⟩
    | enrolled _ _ _ _ _ _ _ _ _ => exact ⟨_, _, .inr ⟨_, rfl⟩⟩

end Coordinator

/-! ### Steps -/

/-- What a step other than a restart does: a channel that a node gets is that of a new stream of the
node, and what is put into a channel is a map of the node that has it. -/
structure Serves (s : System) (c : Coordinator) (streams : List (Node × ℕ)) : Prop where
  kept : s.streams ⊆ streams
  subs : ∀ i ch, c.subs i = some ch → s.c.subs i = some ch ∨
    ∃ n, (n, ch) ∈ streams ∧ n.id = i ∧ n ∈ s.c.st.nodes.rows
  accepted : ∀ ch, ∀ nm ∈ (c.chans.get ch).accepted, nm ∈ (s.c.chans.get ch).accepted ∨
    ∃ n, c.subs n.id = some ch ∧ Depicts c.st n nm

namespace Serves

variable {s : System} {c : Coordinator} {streams : List (Node × ℕ)}

/-- The streams are left alone. -/
theorem of_same (hsubs : c.subs = s.c.subs) (hchans : c.chans = s.c.chans) :
    Serves s c s.streams := by
  refine ⟨List.Subset.refl _, fun i ch h => .inl (hsubs ▸ h), fun ch nm h => .inl ?_⟩
  rwa [hchans] at h

theorem notify (h : Serves s c streams) (w : ℤ) : Serves s (c.notifyNetworkLocked w) streams := by
  refine ⟨h.kept, fun i ch hi => h.subs i ch (by simpa using hi), fun ch nm hnm => ?_⟩
  simp only [Coordinator.subs_notifyNetworkLocked, Coordinator.st_notifyNetworkLocked]
  rcases Coordinator.mem_accepted_notify hnm with hold | hnew
  · exact h.accepted ch nm hold
  · exact .inr hnew

/-- A node loses its stream, whose channel is closed or left. -/
theorem drop {i : ℤ} (hsubs : c.subs = Function.update s.c.subs i none)
    (hchans : ∀ ch, (c.chans.get ch).accepted = (s.c.chans.get ch).accepted) :
    Serves s c s.streams := by
  refine ⟨List.Subset.refl _, fun j ch h => .inl ?_, fun ch nm h => .inl ?_⟩
  · rw [hsubs, Function.update_apply] at h
    split_ifs at h
    exact h
  · rwa [hchans] at h

/-- A new stream takes the place of the old one, and begins with a map. -/
theorem openStream (s : System) (now : ℤ) {n : Node} (hn : n ∈ s.c.st.nodes.rows) :
    Serves s (s.c.openStream now n) (s.streams ++ [(n, s.c.chans.next)]) where
  kept := List.subset_append_left _ _
  subs i ch h := by
    change Function.update s.c.subs n.id (some s.c.chans.next) i = some ch at h
    rw [Function.update_apply] at h
    split_ifs at h with hi
    · obtain rfl := Option.some.inj h
      exact .inr ⟨n, by simp, hi.symm, hn⟩
    · exact .inl h
  accepted ch nm h := by
    by_cases hch : ch = s.c.chans.next
    · subst hch
      rw [(StreamInv.get_openStream_self now).2, Option.mem_toList] at h
      -- the row has got a new time, which the map does not show
      refine .inr ⟨{ n with lastSeen := unixSeconds now }, Function.update_self _ _ _,
        Coordinator.depicts_buildNetMapLocked ?_ h⟩
      show _ ∈ (s.c.st.touchNode n.id now).nodes.rows
      rw [Store.touchNode, Store.rows_nodes_updateNode]
      exact List.mem_map.mpr ⟨n, hn, if_pos rfl⟩
    · left
      rw [Coordinator.openStream] at h
      dsimp only at h
      rwa [Heap.get_alloc_of_ne (by simpa using hch), Coordinator.accepted_closeOld] at h

end Serves

theorem SignalsOnly.serves {s s' : System} (h : SignalsOnly s s') : Serves s s'.c s'.streams := by
  obtain ⟨_, _, _, rfl⟩ := h
  exact .of_same rfl rfl

theorem serves_step (s : System) {op : Op} (hop : op ≠ .restart) :
    Serves s (s.step op).c (s.step op).streams := by
  cases op with
  | restart => exact absurd rfl hop
  | register now req =>
    obtain ⟨st, ipams, heq | ⟨w, heq⟩⟩ := s.c.register_frame now req
    · rw [step, heq]
      exact .of_same rfl rfl
    · rw [step, heq]
      refine .notify ?_ _
      exact .of_same rfl rfl
  | updateEndpoints mkey endpoints =>
    rcases s.c.updateEndpoints_cases mkey endpoints with heq | ⟨n, -, heq⟩
    · rw [step, heq]
      exact .of_same rfl rfl
    · rw [step, heq]
      refine .notify ?_ _
      exact .of_same rfl rfl
  | setRouteApproved nodeID route approved =>
    rcases s.c.setRouteApproved_cases nodeID route approved with heq | ⟨n, norm, st, -, -, heq⟩
    · rw [step, heq]
      exact .of_same rfl rfl
    · rw [step, heq]
      refine .notify ?_ _
      exact .of_same rfl rfl
  | subscribe now mkey =>
    rw [step, Coordinator.subscribe]
    cases hn : s.c.st.nodeByMachineKey mkey.string with
    | none =>
      simp only [Option.toList_none, List.append_nil]
      exact .of_same rfl rfl
    | some n =>
      exact (Serves.openStream s now (Store.nodeByMachineKey_eq_some_iff.mp hn).1).notify _
  | unsubscribe now i =>
    simp only [step]
    split
    · exact .of_same rfl rfl
    · rw [Coordinator.unsubscribe]
      split_ifs
      · refine .notify ?_ _
        exact .drop rfl fun _ => rfl
      · exact .of_same rfl rfl
  | deleteNode id =>
    rcases s.c.deleteNode_spec id with ⟨-, heq⟩ | ⟨n, st, nw, ipams, -, -, -, -, heq⟩
    · rw [step, heq]
      exact .of_same rfl rfl
    · rw [step, heq]
      refine .notify ?_ _
      exact .drop rfl fun _ => Coordinator.accepted_closeOld
  | recv ch =>
    refine ⟨List.Subset.refl _, fun i ch h => .inl h, fun ch' nm h => .inl ?_⟩
    by_cases hch : ch' = ch
    · rwa [hch, step, Heap.get_modify_self, Chan.accepted_recv, ← hch] at h
    · rwa [step, Heap.get_modify_of_ne hch] at h
  | setACL nw rules =>
    simp only [step]
    split <;> exact .of_same rfl rfl
  | aclChanged nw =>
    refine .notify ?_ nw
    exact .of_same rfl rfl
  | signalSubscribe mkey => exact (signalsOnly_signalSubscribe s mkey).serves
  | signalUnsubscribe i => exact (signalsOnly_signalUnsubscribe s i).serves
  | routeSignal i env => exact (signalsOnly_routeSignal s i env).serves
  | recvSignal ch => exact .of_same rfl rfl
  | ensureNetwork name v4 v6 => exact .of_same rfl rfl
  | newSetupKey now raw nw reusable expiresAt owner => exact .of_same rfl rfl
  | revokeSetupKey id => exact .of_same rfl rfl

/-! ### Runs -/

/-- A row that is there after a step was there before, for the same machine and network, or has a
new id. -/
theorem RowChange.owner {c : Coordinator} {op : Op} {rows : List Node} (h : RowChange c op rows)
    {m' : Node} (hm' : m' ∈ rows) : c.st.nodes.seq < m'.id ∨
      ∃ m ∈ c.st.nodes.rows, m.id = m'.id ∧ m.machineKey = m'.machineKey ∧
        m.networkID = m'.networkID := by
  cases h with
  | quiet hstable =>
    obtain ⟨m, hm, heq⟩ := exists_stable_eq hstable hm'
    simp only [Node.stable, Node.mk.injEq] at heq
    exact .inr ⟨m, hm, heq.1, heq.2.2.2.1, heq.2.1⟩
  | returned now req hn =>
    obtain ⟨m, hm, rfl⟩ := List.mem_map.mp hm'
    refine .inr ⟨m, hm, ?_⟩
    split_ifs <;> simp
  | enrolled now ownerID req hmk hread hnw ha h4 h6 =>
    rcases List.mem_append.mp hm' with hm | hm
    · exact .inr ⟨m', hm, rfl, rfl, rfl⟩
    · obtain rfl := List.mem_singleton.mp hm
      exact .inl (Int.lt_succ _)
  | deleted id => exact .inr ⟨m', (List.mem_filter.mp hm').1, rfl, rfl, rfl⟩

/-- The node with id `n.id`, if there is one, is that of `n`'s machine, in `n`'s network. -/
def Store.Owned (st : Store) (n : Node) : Prop :=
  ∀ m ∈ st.nodes.rows, m.id = n.id → m.machineKey = n.machineKey ∧ m.networkID = n.networkID

theorem owned_step {s : System} {n l : Node} (h : s.c.st.Owned n) (hl : l ∈ s.c.st.nodes.rows)
    (hid : l.id = n.id) (op : Op) : (s.step op).c.st.Owned n := by
  intro m' hm' hid'
  rcases (step_rows s op).owner hm' with hnew | ⟨m, hm, hmid, hmkey, hmnet⟩
  · have hle := s.c.st.nodes.id_le l hl
    omega
  · rw [← hmkey, ← hmnet]
    exact h m hm (hmid.trans hid')

/-- The channel of a node is that of a stream of the node. -/
def Held (s : System) : Prop :=
  ∀ i ch, s.c.subs i = some ch → ∃ n, (n, ch) ∈ s.streams ∧ n.id = i ∧ s.c.st.Owned n

theorem Held.step {s : System} (h : Held s) (hsafe : StreamsSafe s.c) {op : Op}
    (hserves : Serves s (s.step op).c (s.step op).streams) : Held (s.step op) := by
  intro i ch hi
  rcases hserves.subs i ch hi with hold | ⟨n, hmem, hid, hn⟩
  · obtain ⟨n, hmem, hid, howned⟩ := h i ch hold
    obtain ⟨l, hl, hlid⟩ := hsafe.live i ch hold
    exact ⟨n, hserves.kept hmem, hid, owned_step howned hl (hlid.trans hid.symm) op⟩
  · refine ⟨n, hmem, hid, owned_step (fun m hm hmid => ?_) hn rfl op⟩
    obtain rfl := s.c.st.nodes.eq_of_id_eq hm hn hmid
    exact ⟨rfl, rfl⟩

/-- Every map that was put into a channel after these steps is for the node whose stream it is, by
its machine key, and shows it and others of its network, as the database had them at some time of
the run. -/
def Traced (start : System) (ops : List Op) : Prop :=
  ∀ ch, ∀ nm ∈ ((run step start ops).c.chans.get ch).accepted,
    ∃ n, (n, ch) ∈ (run step start ops).streams ∧ ∃ p, p <+: ops ∧
      ∃ self, Depicts (run step start p).c.st self nm ∧ self.id = n.id ∧
        self.machineKey = n.machineKey ∧ self.networkID = n.networkID

theorem traced_run {start : System} (hsafe : StreamsSafe start.c) (hheld : Held start)
    (htraced : Traced start []) (ops : List Op) :
    Held (run step start ops) ∧ Traced start ops := by
  induction ops using List.reverseRecOn with
  | nil => exact ⟨hheld, htraced⟩
  | append_singleton ops op ih =>
    have hrun : run step start (ops ++ [op]) =
        (run step start ops).step op := by
      rw [run_append]
      rfl
    by_cases hop : op = .restart
    · subst hop
      rw [Traced, hrun]
      refine ⟨fun i ch h => ?_, fun ch nm h => ?_⟩
      · cases h
      · cases h
    · have hserves := serves_step (run step start ops) hop
      have hheld' := ih.1.step (run_induction (P := fun s : System => StreamsSafe s.c) hsafe
        streamsSafe_step ops) hserves
      rw [Traced, hrun]
      refine ⟨hheld', fun ch nm hnm => ?_⟩
      rcases hserves.accepted ch nm hnm with hold | ⟨self, hch, hdepicts⟩
      · obtain ⟨n, hn, p, hp, hself⟩ := ih.2 ch nm hold
        exact ⟨n, hserves.kept hn, p, hp.trans (List.prefix_append _ _), hself⟩
      · obtain ⟨n, hn, hid, howned⟩ := hheld' self.id ch hch
        refine ⟨n, hn, ops ++ [op], List.prefix_refl _, self, ?_, hid.symm,
          howned self hdepicts.mem hid.symm⟩
        rwa [hrun]

/-- **A node gets maps of its own network only.** Whatever is called, and in whatever order, every
map that was ever put into a channel is for the node that opened the channel with its machine key.
It shows this node as the database had it at some time of the run, and for the rest nodes that were
in its network then. -/
theorem netmaps_isolated (st : Store) (stunServers relays : List String) (dnsBase : String)
    (ops : List Op) : Traced (.start st stunServers relays dnsBase) ops := by
  have hheld : Held (.start st stunServers relays dnsBase) := by
    intro i ch h
    cases h
  have hempty : Traced (.start st stunServers relays dnsBase) [] := by
    intro ch nm h
    cases h
  exact (traced_run (.new st stunServers relays dnsBase) hheld hempty ops).2

/-- The maps that a reader of the sample mesh gets are there to be traced. -/
example : ((sampleStreamed 0).c.chans.get 0).accepted.length = 3 := by decide +kernel

end OverMesh
