import OverMesh.Coord.Delivery

/-!
# Calls and notifications, step by step

Access rules are written without the lock of the coordinator, at any time, also while a notification
goes round. So the runs here are finer than those of `System`: a call that ends in a notification is
one step up to the loop and one step for each turn of it, the lock is held in between, and whatever
needs no lock may come in. Each map reads the rules once, so nothing finer is needed.

## Main definitions

* `System.announcement` — the state a call notifies from, and the network
* `Process`, `Process.step`
* `Silent`, `Announces`, `CallSpec` — what a call can do

## Main results

* `callSpec` — **every call is silent or notifies one network**
* `Process.run_call` — a call that is not disturbed is a step of `System`
-/

namespace OverMesh

open Key Channel Coordinator OverMesh.System

/-! ### Calls and their notifications -/

namespace Coordinator

/-- The first line of `notifyNetworkLocked`. -/
def bumped (c : Coordinator) (w : ℤ) : Coordinator :=
  { c with seq := Function.update c.seq w (c.seq w + 1) }

/-- The coordinator as it was before the notification, which has changed the sequence number of the
network, the channels and the push counter only. -/
def beforeNotify (c before : Coordinator) (chans : Heap Proto.NetMap) : Coordinator :=
  { c with seq := before.seq, chans := chans, netmapPushes := before.netmapPushes }

/-- The map one turn of the loop builds, if the node has a stream. -/
def turnMap (c : Coordinator) (n : Node) : List (ℤ × Proto.NetMap) :=
  match c.subs n.id, c.buildNetMapLocked n with
  | some _, some nm => [(n.id, nm)]
  | _, _ => []

end Coordinator

namespace System

/-- The coordinator just before the notification a call ends with, and the network that is notified;
`none` for a call that notifies nobody. -/
def announcement (s : System) : Op → Option (Coordinator × ℤ)
  | .register now req =>
    match s.c.register now req with
    | (.error _, _) => none
    | (.ok (n, _), c) => some (c.beforeNotify s.c s.c.chans, n.networkID)
  | .updateEndpoints mkey endpoints =>
    match s.c.st.nodeByMachineKey mkey.string with
    | none => none
    | some n =>
      match endpoints.find? fun e => (Netip.parseAddrPort e).isNone with
      | some _ => none
      | none => some ({ s.c with st := s.c.st.updateNodeEndpoints n.id endpoints }, n.networkID)
  | .subscribe now mkey =>
    match s.c.st.nodeByMachineKey mkey.string with
    | none => none
    | some n => some (s.c.openStream now n, n.networkID)
  | .unsubscribe now i =>
    match s.streams[i]? with
    | none => none
    | some (n, ch) =>
      if s.c.subs n.id = some ch then
        some ({ s.c with
          subs := Function.update s.c.subs n.id none
          online := Function.update s.c.online n.id false
          st := s.c.st.touchNode n.id now }, n.networkID)
      else none
  | .deleteNode id =>
    match s.c.st.nodeByID id, s.c.deleteNode id with
    | some n, (true, c) =>
      some (c.beforeNotify s.c (closeOld s.c.chans (s.c.subs id)), n.networkID)
    | _, _ => none
  | .setRouteApproved nodeID route approved =>
    match s.c.st.nodeByID nodeID with
    | none => none
    | some n =>
      match normalizeRoute route with
      | none => none
      | some norm =>
        match s.c.st.setRouteApproved nodeID norm approved with
        | none => none
        | some st => some ({ s.c with st := st }, n.networkID)
  | .aclChanged nw => some (s.c, nw)
  | _ => none

end System

/-- The steps that need the lock of the coordinator. -/
def Op.locked : Op → Bool
  | .recv _ | .setACL _ _ | .recvSignal _ | .ensureNetwork _ _ _ | .newSetupKey _ _ _ _ _ _
  | .revokeSetupKey _ | .restart => false
  | _ => true

/-- A server process: the control plane, the nodes the notification that is going round has still to
serve, and, as a record that no step reads, the maps that were built and for which node. -/
structure Process where
  sys : System
  loop : List Node
  built : List (ℤ × Proto.NetMap)

/-- The steps of a process: a call up to the loop of its notification, if it has one, and one turn
of the loop. -/
inductive Tick where
  | call (op : Op)
  | turn

namespace Process

/-- A process that was just started on a database. -/
def start (st : Store) (stunServers relays : List String) (dnsBase : String) : Process :=
  ⟨System.start st stunServers relays dnsBase, [], []⟩

/-- The map a new stream is primed with. -/
def primed (t : Process) : Op → List (ℤ × Proto.NetMap)
  | .subscribe now mkey =>
    match t.sys.c.st.nodeByMachineKey mkey.string with
    | none => []
    | some n => ((t.sys.c.openStream now n).buildNetMapLocked n).toList.map (n.id, ·)
  | _ => []

/-- One step. A call that needs the lock waits while a notification goes round. -/
def step (t : Process) : Tick → Process
  | .turn =>
    match t.loop with
    | [] => t
    | n :: rest =>
      ⟨{ t.sys with c := t.sys.c.pushNetMap n }, rest, t.built ++ t.sys.c.turnMap n⟩
  | .call .restart => ⟨t.sys.step .restart, [], []⟩
  | .call op =>
    if t.loop ≠ [] ∧ op.locked = true then t
    else match t.sys.announcement op with
      | none => ⟨t.sys.step op, t.loop, t.built⟩
      | some (c, w) => ⟨{ t.sys.step op with c := c.bumped w }, c.st.nodesInNetwork w,
          t.built ++ t.primed op⟩

end Process

/-! ### What a call announces -/

/-- Nothing is lost from the database that a netmap shows, except that the rules may differ; nodes
may have been added. -/
structure Store.Grows (st st' : Store) : Prop where
  rows : ∃ more, st'.nodes.rows = st.nodes.rows ++ more ∧ ∀ m ∈ more, st.nodes.seq < m.id
  seq : st.nodes.seq ≤ st'.nodes.seq
  network : ∀ v nw, st.networkByID v = some nw → st'.networkByID v = some nw
  routes : ∀ n ∈ st.nodes.rows, st'.approvedNodeRoutes n.id = st.approvedNodeRoutes n.id

namespace Store.Grows

variable {st st' st'' : Store}

/-- A statement on other tables. -/
theorem of_eq (hnodes : st'.nodes = st.nodes) (hroutes : st'.routeTable = st.routeTable)
    (hnet : ∀ v nw, st.networkByID v = some nw → st'.networkByID v = some nw) : Grows st st' where
  rows := ⟨[], by rw [hnodes, List.append_nil], fun _ hm => absurd hm List.not_mem_nil⟩
  seq := by rw [hnodes]
  network := hnet
  routes _ _ := approvedNodeRoutes_congr (by rw [hroutes])

/-- The insertion of a node. -/
theorem createNode {now : ℤ} {n m : Node} (h : st.createNode now n = some (st', m)) :
    Grows st st' := by
  obtain ⟨rfl, hrows, hseq, hnet, -, hroutes, -⟩ := createNode_spec h
  refine ⟨⟨_, hrows, ?_⟩, ?_, ?_, ?_⟩
  · intro m hm
    rw [List.mem_singleton.mp hm]
    exact Int.lt_succ _
  · rw [hseq]
    exact Int.le_add_one (le_refl _)
  · intro v nw hv
    rw [networkByID, hnet]
    exact hv
  · intro n _
    exact approvedNodeRoutes_congr (by rw [hroutes])

/-- Nodes are added after a statement on other tables. -/
theorem of_eq_trans (h : Grows st st') (hnodes : st'.nodes = st.nodes) (h' : Grows st' st'') :
    Grows st st'' where
  rows := by
    rw [← hnodes]
    exact h'.rows
  seq := h.seq.trans h'.seq
  network v nw hv := h'.network v nw (h.network v nw hv)
  routes n hn := (h'.routes n (hnodes ▸ hn)).trans (h.routes n hn)

end Store.Grows

/-- A step without a notification: no map goes into a channel, and what a netmap shows only
grows. -/
structure Silent (c c' : Coordinator) : Prop where
  store : c.st.Grows c'.st
  config : c'.stunServers = c.stunServers ∧ c'.relays = c.relays ∧ c'.dnsBase = c.dnsBase
  subs : c'.subs = c.subs
  online : c'.online = c.online
  seq : c'.seq = c.seq
  next : c'.chans.next = c.chans.next
  accepted : ∀ ch, (c'.chans.get ch).accepted = (c.chans.get ch).accepted
  closed : ∀ ch, (c'.chans.get ch).closed = (c.chans.get ch).closed

namespace Silent

variable {c : Coordinator}

/-- A change of the database. -/
theorem of_store {st : Store} (hst : c.st.Grows st) (ipams : ℤ → Option Ipam.Allocator) :
    Silent c { c with st := st, ipams := ipams } :=
  ⟨hst, ⟨rfl, rfl, rfl⟩, rfl, rfl, rfl, rfl, fun _ => rfl, fun _ => rfl⟩

theorem refl (c : Coordinator) : Silent c c :=
  of_store (.of_eq rfl rfl fun _ _ => id) c.ipams

end Silent

/-- **What a call announces**: the state its notification starts from, and the network. -/
inductive Announces (s : System) : Op → Coordinator → ℤ → Prop
  /-- The database has changed in one network. -/
  | changed {op : Op} {st : Store} {ipams : ℤ → Option Ipam.Allocator} {w : ℤ}
    (hst : Store.Changes w s.c.st st) (hrows : s.c.st.KeepsRows st)
    (hstreams : (s.step op).streams = s.streams) (hop : ∀ now mkey, op ≠ .subscribe now mkey) :
    Announces s op { s.c with st := st, ipams := ipams } w
  /-- A stream has ended, perhaps with its node. -/
  | closed {op : Op} {c : Coordinator} {id w : ℤ} (hst : Store.Changes w s.c.st c.st)
    (hid : ∀ n ∈ s.c.st.nodes.rows, n.id = id → n.networkID = w)
    (hrows : ∀ n ∈ s.c.st.nodes.rows, n.id ≠ id → ∃ n' ∈ c.st.nodes.rows, n'.id = n.id)
    (hconfig : c.stunServers = s.c.stunServers ∧ c.relays = s.c.relays ∧ c.dnsBase = s.c.dnsBase)
    (hseq : c.seq = s.c.seq) (hsubs : c.subs = Function.update s.c.subs id none)
    (honline : c.online = Function.update s.c.online id false)
    (hnext : c.chans.next = s.c.chans.next)
    (hchans : ∀ ch, s.c.subs id ≠ some ch → c.chans.get ch = s.c.chans.get ch)
    (hacc : ∀ ch, (c.chans.get ch).accepted = (s.c.chans.get ch).accepted)
    (hstreams : (s.step op).streams = s.streams) (hop : ∀ now mkey, op ≠ .subscribe now mkey) :
    Announces s op c w
  /-- A stream was opened and primed. -/
  | opened (now : ℤ) (mkey : MachinePublic) {n : Node}
    (hn : s.c.st.nodeByMachineKey mkey.string = some n) :
    Announces s (.subscribe now mkey) (s.c.openStream now n) n.networkID

/-- **The two kinds of calls.** One kind notifies nobody and moves nothing; the other is a
notification of one network, from the state that `announcement` names. -/
inductive CallSpec (s : System) (op : Op) : Prop
  | silent (h : s.announcement op = none) (hc : Silent s.c (s.step op).c)
    (hstreams : (s.step op).streams = s.streams)
  | announces {c : Coordinator} {w : ℤ} (h : s.announcement op = some (c, w))
    (hc : Announces s op c w) (heq : (s.step op).c = c.notifyNetworkLocked w)

section CallSpec

variable (s : System)

/-- Undoing a notification. -/
theorem Coordinator.beforeNotify_notify {c before : Coordinator} (hseq : c.seq = before.seq)
    (hpushes : c.netmapPushes = before.netmapPushes) (w : ℤ) :
    (c.notifyNetworkLocked w).beforeNotify before c.chans = c := by
  obtain ⟨_, _, heq⟩ := c.notifyNetworkLocked_eq w
  rw [heq, beforeNotify, ← hseq, ← hpushes]

/-- A registration that fails is silent, also if its row was inserted. -/
theorem silent_register {now : ℤ} {req : RegisterRequest} {e : RegisterError}
    (h : (s.c.register now req).1 = .error e) : Silent s.c (s.c.register now req).2 := by
  have hspec := register_spec s.c now req
  generalize s.c.register now req = res at hspec h ⊢
  cases hspec with
  | rejected _ => exact .refl s.c
  | @returning routes n _ hn =>
    obtain ⟨st, name, nw, -, -, -, -, -, -, -, heq⟩ :=
      reRegister_spec req routes (Store.nodeByMachineKey_eq_some_iff.mp hn).1
    rw [heq] at h
    cases h
  | @enrolling routes k nw _ _ _ _ _ _ henroll =>
    have hcharge : s.c.st.Grows (s.c.st.chargeSetupKey k) := .of_eq rfl rfl fun _ _ => id
    cases henroll with
    | refused _ => exact .of_store hcharge s.c.ipams
    | exhausted _ _ => exact .of_store hcharge _
    | halfBuilt _ _ hn _ => exact .of_store (hcharge.of_eq_trans rfl (.createNode hn)) _
    | enrolled => cases h

theorem callSpec_register (now : ℤ) (req : RegisterRequest) : CallSpec s (.register now req) := by
  cases hres : s.c.register now req with
  | mk reply c' =>
    cases reply with
    | ok p =>
      obtain ⟨st, ipams, heq, hst, hrows⟩ := register_ok (congrArg Prod.fst hres)
      refine .announces (c := { s.c with st := st, ipams := ipams }) (w := p.1.networkID) ?_
        (.changed hst hrows rfl fun _ _ => Op.noConfusion) heq
      rw [hres] at heq
      rw [announcement, hres, show c' = _ from heq]
      exact congrArg (fun c => some (c, p.1.networkID))
        (beforeNotify_notify (c := { s.c with st := st, ipams := ipams }) rfl rfl _)
    | error e =>
      refine .silent ?_ (silent_register s (congrArg Prod.fst hres)) rfl
      rw [announcement, hres]

theorem callSpec_deleteNode (id : ℤ) : CallSpec s (.deleteNode id) := by
  rcases s.c.deleteNode_spec id with ⟨hnone, heq⟩ | ⟨n, st, nw, ipams, hn, hst, -, -, heq⟩
  · refine .silent ?_ ?_ rfl
    · rw [announcement, hnone]
    · rw [step, heq]
      exact .refl s.c
  · obtain ⟨hmem, hid⟩ := Store.nodeByID_eq_some_iff.mp hn
    set c : Coordinator := { s.c with
      st := st
      ipams := ipams
      chans := closeOld s.c.chans (s.c.subs id)
      subs := Function.update s.c.subs id none
      sigChans := closeOld s.c.sigChans (s.c.sigSubs id)
      sigSubs := Function.update s.c.sigSubs id none
      online := Function.update s.c.online id false }
    refine .announces (c := c) (w := n.networkID) ?_ ?_ ?_
    · rw [announcement, hn, heq]
      exact congrArg (fun c => some (c, n.networkID))
        (beforeNotify_notify (c := c) rfl rfl _)
    · refine .closed (Store.Changes.deleteNode hn hst) ?_ ?_ ⟨rfl, rfl, rfl⟩ rfl rfl rfl
        next_closeOld (fun _ h => get_closeOld h)
        (fun _ => accepted_closeOld) rfl fun _ _ => Op.noConfusion
      · intro m hm hmid
        rw [s.c.st.nodes.eq_of_id_eq hm hmem (hmid.trans hid.symm)]
      · intro m hm hne
        refine ⟨m, ?_, rfl⟩
        rw [(Store.deleteNode_spec hst).1]
        exact AutoTable.mem_delete.mpr ⟨hm, by simpa using hne⟩
    · rw [step, heq]

/-- The closure of a stream that is still current: its node is there, in the network the closure has
captured. -/
theorem callSpec_unsubscribe (h : StreamInv s.c s.streams) (now : ℤ) (i : ℕ) :
    CallSpec s (.unsubscribe now i) := by
  cases hp : s.streams[i]? with
  | none =>
    refine .silent ?_ ?_ ?_
    · rw [announcement, hp]
    · rw [step, hp]
      exact .refl s.c
    · rw [step, hp]
  | some p =>
    obtain ⟨n, ch⟩ := p
    have hstep : s.step (.unsubscribe now i) = { s with c := s.c.unsubscribe now n ch } := by
      rw [step, hp]
    have hstreams : (s.step (.unsubscribe now i)).streams = s.streams := by rw [hstep]
    by_cases hcur : s.c.subs n.id = some ch
    · have hmem := List.mem_of_getElem? hp
      obtain ⟨m, hm, hid⟩ := h.live _ _ hcur
      have hnw : m.networkID = n.networkID := (h.captured _ hmem).2 m hm hid
      have hst : Store.Changes n.networkID s.c.st (s.c.st.touchNode n.id now) := by
        rw [← hid, ← hnw]
        exact Store.Changes.touchNode hm now
      have hkeep : s.c.st.KeepsRows (s.c.st.touchNode n.id now) := Store.keepsRows_updateNode
      refine .announces (c := { s.c with
          subs := Function.update s.c.subs n.id none
          online := Function.update s.c.online n.id false
          st := s.c.st.touchNode n.id now }) (w := n.networkID) ?_ ?_ ?_
      · rw [announcement, hp]
        exact if_pos hcur
      · exact .closed hst (fun m hm hid => (h.captured _ hmem).2 m hm hid)
          (fun m hm _ => hkeep m hm) ⟨rfl, rfl, rfl⟩ rfl rfl rfl rfl (fun _ _ => rfl) (fun _ => rfl)
          hstreams fun _ _ => Op.noConfusion
      · rw [hstep]
        exact if_pos hcur
    · refine .silent ?_ ?_ hstreams
      · rw [announcement, hp]
        exact if_neg hcur
      · rw [hstep, unsubscribe, if_neg hcur]
        exact .refl s.c

theorem callSpec_updateEndpoints (mkey : MachinePublic) (endpoints : List String) :
    CallSpec s (.updateEndpoints mkey endpoints) := by
  cases hn : s.c.st.nodeByMachineKey mkey.string with
  | none =>
    refine .silent ?_ ?_ rfl
    · rw [announcement, hn]
    · rw [step, updateEndpoints, hn]
      exact .refl s.c
  | some n =>
    have hmem := (Store.nodeByMachineKey_eq_some_iff.mp hn).1
    cases hbad : endpoints.find? fun e => (Netip.parseAddrPort e).isNone with
    | some e =>
      refine .silent ?_ ?_ rfl
      · simp only [announcement, hn, hbad]
      · simp only [step, updateEndpoints, hn, hbad]
        exact .refl s.c
    | none =>
      refine .announces (c := { s.c with st := s.c.st.updateNodeEndpoints n.id endpoints })
        (w := n.networkID) ?_ ?_ ?_
      · simp only [announcement, hn, hbad]
      · exact .changed (Store.Changes.updateNodeEndpoints hmem endpoints)
          Store.keepsRows_updateNode rfl fun _ _ => Op.noConfusion
      · simp only [step, updateEndpoints, hn, hbad]

theorem callSpec_setRouteApproved (nodeID : ℤ) (route : String) (approved : Bool) :
    CallSpec s (.setRouteApproved nodeID route approved) := by
  -- the three ways to fail leave everything as it is
  have hfail : s.announcement (.setRouteApproved nodeID route approved) = none →
      (s.c.setRouteApproved nodeID route approved).2 = s.c →
      CallSpec s (.setRouteApproved nodeID route approved) := by
    intro hnone hc
    refine .silent hnone ?_ rfl
    rw [step, hc]
    exact .refl s.c
  cases hn : s.c.st.nodeByID nodeID with
  | none =>
    refine hfail ?_ ?_
    · simp only [announcement, hn]
    · simp only [setRouteApproved, hn]
  | some n =>
    obtain ⟨hmem, rfl⟩ := Store.nodeByID_eq_some_iff.mp hn
    cases hnorm : normalizeRoute route with
    | none =>
      refine hfail ?_ ?_
      · simp only [announcement, hn, hnorm]
      · simp only [setRouteApproved, hn, hnorm]
    | some norm =>
      cases hst : s.c.st.setRouteApproved n.id norm approved with
      | none =>
        refine hfail ?_ ?_
        · simp only [announcement, hn, hnorm, hst]
        · simp only [setRouteApproved, hn, hnorm, hst]
      | some st =>
        refine .announces (c := { s.c with st := st }) (w := n.networkID) ?_ ?_ ?_
        · simp only [announcement, hn, hnorm, hst]
        · exact .changed (Store.Changes.setRouteApproved hmem hst)
            (Store.keepsRows_of_eq (Store.setRouteApproved_spec hst).1) rfl
            fun _ _ => Op.noConfusion
        · simp only [step, setRouteApproved, hn, hnorm, hst]

theorem callSpec_subscribe (now : ℤ) (mkey : MachinePublic) : CallSpec s (.subscribe now mkey) := by
  cases hn : s.c.st.nodeByMachineKey mkey.string with
  | none =>
    have hsub : s.c.subscribe now mkey = (none, s.c) := by rw [subscribe, hn]
    refine .silent ?_ ?_ ?_
    · rw [announcement, hn]
    · rw [step, hsub]
      exact .refl s.c
    · rw [step, hsub, Option.toList_none, List.append_nil]
  | some n =>
    refine .announces ?_ (.opened now mkey hn) ?_
    · rw [announcement, hn]
    · rw [step, subscribe, hn]

/-- Rules that are written are not announced. -/
theorem silent_setACL (nw : ℤ) (rules : List ACLRule) :
    Silent s.c (s.step (.setACL nw rules)).c := by
  simp only [step]
  split
  · exact .refl s.c
  · next st hst =>
    obtain ⟨hnodes, hnet, -, hroutes, -⟩ := Store.nodes_setACL hst
    refine .of_store (.of_eq hnodes hroutes ?_) s.c.ipams
    intro v nw hv
    rw [Store.networkByID, hnet]
    exact hv

theorem silent_recv (ch : ℕ) : Silent s.c (s.step (.recv ch)).c := by
  refine ⟨.of_eq rfl rfl fun _ _ => id, ⟨rfl, rfl, rfl⟩, rfl, rfl, rfl, rfl, ?_, ?_⟩
  · intro ch'
    rw [step]
    by_cases he : ch' = ch
    · exact he ▸ (congrArg Chan.accepted Heap.get_modify_self).trans Chan.accepted_recv
    · exact congrArg Chan.accepted (Heap.get_modify_of_ne he)
  · intro ch'
    rw [step]
    by_cases he : ch' = ch
    · exact he ▸ (congrArg Chan.closed Heap.get_modify_self).trans Chan.closed_recv
    · exact congrArg Chan.closed (Heap.get_modify_of_ne he)

theorem SignalsOnly.silent {s s' : System} (h : SignalsOnly s s') :
    Silent s.c s'.c ∧ s'.streams = s.streams := by
  obtain ⟨_, _, _, rfl⟩ := h
  exact ⟨⟨.of_eq rfl rfl fun _ _ => id, ⟨rfl, rfl, rfl⟩, rfl, rfl, rfl, rfl, fun _ => rfl,
    fun _ => rfl⟩, rfl⟩

/-- **Every call is of one of the two kinds.** -/
theorem callSpec (h : StreamInv s.c s.streams) {op : Op} (hop : op ≠ .restart) : CallSpec s op := by
  have hsignals : SignalsOnly s (s.step op) → s.announcement op = none → CallSpec s op :=
    fun hs hnone => .silent hnone hs.silent.1 hs.silent.2
  cases op with
  | restart => exact absurd rfl hop
  | register now req => exact callSpec_register s now req
  | updateEndpoints mkey endpoints => exact callSpec_updateEndpoints s mkey endpoints
  | subscribe now mkey => exact callSpec_subscribe s now mkey
  | unsubscribe now i => exact callSpec_unsubscribe s h now i
  | recv ch => exact .silent rfl (silent_recv s ch) rfl
  | deleteNode id => exact callSpec_deleteNode s id
  | setRouteApproved nodeID route approved =>
    exact callSpec_setRouteApproved s nodeID route approved
  | setACL nw rules =>
    refine .silent rfl (silent_setACL s nw rules) ?_
    simp only [step]
    split <;> rfl
  | aclChanged nw =>
    exact .announces rfl (.changed (.refl s.c.st nw)
      (Store.keepsRows_of_eq rfl) rfl fun _ _ => Op.noConfusion) rfl
  | signalSubscribe mkey => exact hsignals (signalsOnly_signalSubscribe s mkey) rfl
  | signalUnsubscribe i => exact hsignals (signalsOnly_signalUnsubscribe s i) rfl
  | routeSignal i env => exact hsignals (signalsOnly_routeSignal s i env) rfl
  | recvSignal ch => exact hsignals (signalsOnly_recvSignal s ch) rfl
  | ensureNetwork name v4 v6 =>
    refine .silent rfl (.of_store (.of_eq Store.nodes_ensureNetwork ?_
      fun _ _ => Store.networkByID_ensureNetwork) s.c.ipams) rfl
    rw [Store.ensureNetwork]
    split <;> rfl
  | newSetupKey now raw nw reusable expiresAt owner =>
    refine .silent rfl (.of_store (.of_eq (Store.nodes_newSetupKey ..) ?_ ?_) s.c.ipams) rfl
    · rw [Store.newSetupKey]
      split
      · split <;> rfl
      · rfl
    · exact (Store.Changes.newSetupKey now raw nw reusable expiresAt owner 0).network
  | revokeSetupKey id =>
    refine .silent rfl (.of_store (.of_eq (Store.nodes_revokeSetupKey ..) ?_ ?_) s.c.ipams) rfl
    · rw [Store.revokeSetupKey]
      split <;> rfl
    · exact (Store.Changes.revokeSetupKey id 0).network

end CallSpec

/-! ### A call that is not disturbed -/

namespace Process

variable {t : Process} {op : Op}

theorem step_call (t : Process) (hop : op ≠ .restart) : t.step (.call op) =
    if t.loop ≠ [] ∧ op.locked = true then t
    else match t.sys.announcement op with
      | none => ⟨t.sys.step op, t.loop, t.built⟩
      | some (c, w) => ⟨{ t.sys.step op with c := c.bumped w }, c.st.nodesInNetwork w,
          t.built ++ t.primed op⟩ := by
  rw [step]
  exact hop

theorem step_of_none (hop : op ≠ .restart) (hlock : ¬(t.loop ≠ [] ∧ op.locked = true))
    (h : t.sys.announcement op = none) : t.step (.call op) = ⟨t.sys.step op, t.loop, t.built⟩ := by
  rw [step_call t hop, if_neg hlock, h]

theorem step_of_some {c : Coordinator} {w : ℤ} (hop : op ≠ .restart)
    (hlock : ¬(t.loop ≠ [] ∧ op.locked = true)) (h : t.sys.announcement op = some (c, w)) :
    t.step (.call op) = ⟨{ t.sys.step op with c := c.bumped w }, c.st.nodesInNetwork w,
      t.built ++ t.primed op⟩ := by
  rw [step_call t hop, if_neg hlock, h]

/-- The turns of a loop, if nothing comes in between. -/
theorem run_turns (t : Process) : (Runs.run step t (List.replicate t.loop.length .turn)).sys =
      { t.sys with c := t.loop.foldl pushNetMap t.sys.c } := by
  obtain ⟨sys, loop, built⟩ := t
  induction loop generalizing sys built with
  | nil => rfl
  | cons n rest ih =>
    rw [List.length_cons, List.replicate_succ, Runs.run_cons]
    exact ih _ _

/-- **A call that is not disturbed** is a step of the control plane. -/
theorem run_call (hloop : t.loop = []) (hs : StreamInv t.sys.c t.sys.streams)
    (hop : op ≠ .restart) : (Runs.run step (t.step (.call op))
      (List.replicate (t.step (.call op)).loop.length .turn)).sys = t.sys.step op := by
  have hlock : ¬(t.loop ≠ [] ∧ op.locked = true) := fun h => h.1 hloop
  rw [run_turns]
  cases callSpec t.sys hs hop with
  | silent h _ _ =>
    rw [step_of_none hop hlock h, hloop]
    rfl
  | @announces c w h _ heq =>
    rw [step_of_some hop hlock h]
    change { t.sys.step op with c := c.notifyNetworkLocked w } = t.sys.step op
    rw [← heq]

end Process

end OverMesh
