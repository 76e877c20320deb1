import OverMesh.Coord.System

/-!
# Setup keys over whole runs

`UseSetupKey` reads a key in one statement and records the use in another. `Register` holds the
coordinator's lock over both, but creating and revoking keys does not take that lock, so they may
come in between. Here a registration of an unknown machine is therefore two steps: `start` up to the
read, and `finish` from the update on. What takes the lock waits while a registration is between
them.

A log that no step reads records every charge: when the key was read, the row that was read, and the
node row that was inserted, if the registration got that far.

## Main definitions

* `KeySystem`, `KeyOp`, `KeySystem.step`
* `KeyAccounts` — what the log says about keys and nodes

## Main results

* `finish_start` — a registration nothing comes between is a call of `Register`
* `keyAccounts_run` — **every node row ever created was charged to one valid key, and every charge
  is counted**
-/

namespace OverMesh

open Key Store

/-! ### The machine -/

/-- A registration between the read of its key and the update. -/
structure Pending where
  now : ℤ
  req : RegisterRequest
  routes : List String
  /-- The row as it was read. -/
  key : SetupKey

/-- A charge: the key row that was read, when, and the node row that was inserted. -/
structure Charge where
  now : ℤ
  key : SetupKey
  node : Option Node

/-- The control plane with at most one registration under way, and the log of charges. -/
structure KeySystem where
  sys : System
  pending : Option Pending
  log : List Charge

/-- The steps. -/
inductive KeyOp where
  | start (now : ℤ) (req : RegisterRequest)
  | finish
  | other (op : Op)

/-- The steps that do not take the coordinator's lock. -/
def Op.lockFree : Op → Bool
  | .setACL _ _ | .newSetupKey _ _ _ _ _ _ | .revokeSetupKey _ | .ensureNetwork _ _ _ => true
  | .recv _ | .recvSignal _ => true
  | _ => false

namespace KeySystem

/-- `Register` up to the read of the setup key. A call that does not use a key ends here. -/
def start (s : KeySystem) (now : ℤ) (req : RegisterRequest) : KeySystem :=
  match normalizeRoutes req.advertisedRoutes with
  | .error _ => s
  | .ok routes =>
    match s.sys.c.st.nodeByMachineKey req.mkey.string with
    | some n => { s with sys := { s.sys with c := (s.sys.c.reRegister req routes n).2 } }
    | none =>
      if req.setupKey = "" then s
      else match s.sys.c.st.readSetupKey now req.setupKey with
        | .error _ => s
        | .ok k => { s with pending := some ⟨now, req, routes, k⟩ }

/-- The coordinator after the rest of `Register`. -/
def finished (c : Coordinator) (p : Pending) : Coordinator :=
  match (c.st.chargeSetupKey p.key).networkByID p.key.networkID with
  | none => { c with st := c.st.chargeSetupKey p.key }
  | some nw =>
    (({ c with st := c.st.chargeSetupKey p.key } : Coordinator).enroll p.now p.req p.routes nw
      p.key.ownerUserID).2

/-- The rest of `Register`, from the update of the key on. -/
def finish (s : KeySystem) (p : Pending) : KeySystem where
  sys := { s.sys with c := finished s.sys.c p }
  pending := none
  log := s.log ++ [⟨p.now, p.key, (finished s.sys.c p).st.nodeByMachineKey p.req.mkey.string⟩]

/-- One step. A restart forgets the registration that is under way. -/
def step (s : KeySystem) : KeyOp → KeySystem
  | .start now req => if s.pending.isSome then s else s.start now req
  | .finish => match s.pending with
    | none => s
    | some p => s.finish p
  | .other (.register _ _) => s
  | .other .restart => { s with sys := s.sys.step .restart, pending := none }
  | .other op => if s.pending.isSome && !op.lockFree then s else { s with sys := s.sys.step op }

/-- A server that was just started on an empty database. -/
def init (stunServers relays : List String) (dnsBase : String) : KeySystem :=
  ⟨System.start .empty stunServers relays dnsBase, none, []⟩

/-- **What the first half can do.** The request is refused, or the machine is known and registers
again, or the key was read and is valid. -/
theorem start_cases (s : KeySystem) (now : ℤ) (req : RegisterRequest) :
    (s.start now req = s ∧ (s.sys.c.register now req).2 = s.sys.c) ∨
      (∃ routes n, s.sys.c.st.nodeByMachineKey req.mkey.string = some n ∧
        s.start now req =
          { s with sys := { s.sys with c := (s.sys.c.reRegister req routes n).2 } } ∧
        s.sys.c.register now req = s.sys.c.reRegister req routes n) ∨
      ∃ routes k, s.sys.c.st.nodeByMachineKey req.mkey.string = none ∧
        s.sys.c.st.readSetupKey now req.setupKey = .ok k ∧
        s.start now req = { s with pending := some ⟨now, req, routes, k⟩ } ∧
        (s.sys.c.register now req).2 = finished s.sys.c ⟨now, req, routes, k⟩ := by
  cases hroutes : normalizeRoutes req.advertisedRoutes with
  | error r =>
    refine .inl ⟨?_, ?_⟩
    · simp only [start, hroutes]
    · simp only [Coordinator.register, hroutes]
  | ok routes =>
    cases hn : s.sys.c.st.nodeByMachineKey req.mkey.string with
    | some n =>
      refine .inr (.inl ⟨routes, n, rfl, ?_, ?_⟩)
      · simp only [start, hroutes, hn]
      · simp only [Coordinator.register, hroutes, hn]
    | none =>
      by_cases hkey : req.setupKey = ""
      · refine .inl ⟨?_, ?_⟩
        · simp only [start, hroutes, hn, if_pos hkey]
        · simp only [Coordinator.register, hroutes, hn, if_pos hkey]
      · cases hread : s.sys.c.st.readSetupKey now req.setupKey with
        | error e =>
          refine .inl ⟨?_, ?_⟩
          · simp only [start, hroutes, hn, if_neg hkey, hread]
          · simp only [Coordinator.register, hroutes, hn, if_neg hkey,
              useSetupKey_of_error hread]
        | ok k =>
          obtain ⟨nw, hnw, huse⟩ := useSetupKey_of_ok hread
          have hcharged : (s.sys.c.st.chargeSetupKey k).networkByID k.networkID = some nw := hnw
          refine .inr (.inr ⟨routes, k, rfl, rfl, ?_, ?_⟩)
          · simp only [start, hroutes, hn, if_neg hkey, hread]
          · simp only [Coordinator.register, hroutes, hn, if_neg hkey, huse, finished, hcharged]

/-- **The two halves are `Register`.** A registration that nothing comes between does what the call
does. -/
theorem finish_start {s : KeySystem} (h : s.pending = none) (now : ℤ) (req : RegisterRequest) :
    ((s.step (.start now req)).step .finish).sys.c = (s.sys.c.register now req).2 := by
  have hstart : s.step (.start now req) = s.start now req := by simp [step, h]
  rw [hstart]
  rcases s.start_cases now req with ⟨heq, hreg⟩ | ⟨routes, n, -, heq, hreg⟩ |
    ⟨routes, k, -, -, heq, hreg⟩
  · rw [heq, hreg]
    simp [step, h]
  · rw [heq, hreg]
    simp [step, h]
  · rw [heq, hreg]
    rfl

end KeySystem

/-! ### The accounts -/

/-- How often the log charges the key with this id. -/
def charges (log : List Charge) (id : ℤ) : ℕ := log.countP (·.key.id = id)

/-- How often the log inserts a node with this id. -/
def insertions (log : List Charge) (id : ℤ) : ℕ := log.countP (·.node.map Node.id = some id)

theorem charges_concat (log : List Charge) (r : Charge) (id : ℤ) :
    charges (log ++ [r]) id = charges log id + if r.key.id = id then 1 else 0 := by
  simp [charges, List.countP_append, List.countP_singleton]

theorem insertions_concat (log : List Charge) (r : Charge) (id : ℤ) : insertions (log ++ [r]) id =
      insertions log id + if r.node.map Node.id = some id then 1 else 0 := by
  simp [insertions, List.countP_append, List.countP_singleton]

/-- What the log says about keys and nodes. -/
structure KeyAccounts (s : KeySystem) : Prop where
  /-- The key of a charge was neither revoked nor expired when it was read. -/
  valid : ∀ r ∈ s.log, r.key.revoked = false ∧ r.key.isExpired r.now = false
  /-- The key of a charge is a row of the table. -/
  keyRow : ∀ r ∈ s.log, ∃ k ∈ s.sys.c.st.setupKeys.rows, k.id = r.key.id ∧
    k.networkID = r.key.networkID ∧ k.ownerUserID = r.key.ownerUserID ∧
    k.reusable = r.key.reusable
  /-- `used_count` is the number of charges. -/
  counts : ∀ k ∈ s.sys.c.st.setupKeys.rows, k.usedCount = charges s.log k.id
  /-- A single-use key was charged at most once. -/
  once : ∀ k ∈ s.sys.c.st.setupKeys.rows, k.reusable = false → charges s.log k.id ≤ 1
  /-- Every id that was ever given to a node belongs to one charge. -/
  ids : ∀ i, insertions s.log i = if 0 < i ∧ i ≤ s.sys.c.st.nodes.seq then 1 else 0
  /-- A charge inserts nodes for the network and the owner of its key. -/
  inserted : ∀ r ∈ s.log, ∀ m, r.node = some m →
    m.networkID = r.key.networkID ∧ m.ownerUserID = r.key.ownerUserID
  /-- The rows there are have been inserted that way, and still have that network and owner. -/
  nodes : ∀ n ∈ s.sys.c.st.nodes.rows, ∃ r ∈ s.log, r.node.map Node.id = some n.id ∧
    n.networkID = r.key.networkID ∧ n.ownerUserID = r.key.ownerUserID

/-- A registration under way: the machine has no node, its key was valid when it was read, and if it
is a single-use key then it still has no use. -/
structure PendingOk (st : Store) (p : Pending) : Prop where
  unknown : st.nodeByMachineKey p.req.mkey.string = none
  valid : p.key.revoked = false ∧ p.key.isExpired p.now = false
  keyRow : ∃ k ∈ st.setupKeys.rows, k.id = p.key.id ∧ k.networkID = p.key.networkID ∧
    k.ownerUserID = p.key.ownerUserID ∧ k.reusable = p.key.reusable ∧
    (p.key.reusable = false → k.usedCount = 0)

/-- The invariant. -/
structure KeyInv (s : KeySystem) : Prop where
  accounts : KeyAccounts s
  pending : ∀ p, s.pending = some p → PendingOk s.sys.c.st p

/-! ### Steps that charge nothing -/

/-- From `st` to `st'` no key was charged and no node inserted. -/
structure NoCharge (st st' : Store) : Prop where
  keys : st.Uncharged st'
  seq : st'.nodes.seq = st.nodes.seq
  nodes : ∀ n' ∈ st'.nodes.rows, ∃ n ∈ st.nodes.rows, n.id = n'.id ∧
    n.networkID = n'.networkID ∧ n.ownerUserID = n'.ownerUserID ∧ n.machineKey = n'.machineKey

namespace NoCharge

/-- Steps that write neither keys nor nodes. -/
theorem of_eq {st st' : Store} (hkeys : st'.setupKeys = st.setupKeys)
    (hnodes : st'.nodes = st.nodes) : NoCharge st st' :=
  ⟨.of_eq hkeys, by rw [hnodes], fun n' hn' => ⟨n', hnodes ▸ hn', rfl, rfl, rfl, rfl⟩⟩

theorem of_quiet {c c' : Coordinator} (h : Quiet c c') : NoCharge c.st c'.st := by
  refine ⟨h.keys, h.seq, ?_⟩
  intro n' hn'
  obtain ⟨n, hn, he⟩ := h.exists_row hn'
  simp only [Node.stable, Node.mk.injEq] at he
  obtain ⟨hid, hnw, -, hmk, -, -, -, -, -, -, -, howner⟩ := he
  exact ⟨n, hn, hid, hnw, howner, hmk⟩

theorem reRegister {c : Coordinator} (req : RegisterRequest) (routes : List String) {n : Node}
    (hn : n ∈ c.st.nodes.rows) : NoCharge c.st (c.reRegister req routes n).2.st := by
  obtain ⟨st, name, nw, -, hnodes, -, -, hkeys, -, -, heq⟩ :=
    Coordinator.reRegister_spec req routes hn
  rw [heq, Coordinator.st_notifyNetworkLocked]
  refine ⟨.of_eq hkeys, by rw [hnodes]; rfl, ?_⟩
  intro n' hn'
  rw [hnodes, updateNodeOnRegister, rows_nodes_updateNode] at hn'
  obtain ⟨m, hm, rfl⟩ := List.mem_map.mp hn'
  refine ⟨m, hm, ?_⟩
  split <;> exact ⟨rfl, rfl, rfl, rfl⟩

theorem deleteNode (c : Coordinator) (id : ℤ) : NoCharge c.st (c.deleteNode id).2.st := by
  rcases c.deleteNode_spec id with ⟨-, heq⟩ | ⟨n, st, nw, ipams, -, hst, -, -, heq⟩
  · rw [heq]
    exact .of_eq rfl rfl
  · rw [heq, Coordinator.st_notifyNetworkLocked]
    obtain ⟨hnodes, -, hkeys, -⟩ := deleteNode_spec hst
    refine ⟨.of_eq hkeys, by rw [hnodes]; rfl, ?_⟩
    intro n' hn'
    rw [hnodes] at hn'
    exact ⟨n', (AutoTable.mem_delete.mp hn').1, rfl, rfl, rfl, rfl⟩

/-- **Every step but a registration** charges nothing. -/
theorem step (s : System) {op : Op} (hop : ∀ now req, op ≠ .register now req) :
    NoCharge s.c.st (s.step op).c.st := by
  rcases step_cases s op with hq | ⟨now, req, rfl, -⟩ | ⟨id, rfl, heq⟩ |
    ⟨name, v4, v6, -, heq⟩ | heq
  · exact .of_quiet hq
  · exact absurd rfl (hop now req)
  · exact .deleteNode s.c id
  · rw [heq]
    exact .of_eq setupKeys_ensureNetwork nodes_ensureNetwork
  · rw [heq]
    exact .of_eq rfl rfl

end NoCharge

/-- A registration under way is not disturbed by a step that charges nothing. -/
theorem PendingOk.noCharge {st st' : Store} {p : Pending} (h : PendingOk st p)
    (hst : NoCharge st st') : PendingOk st' p := by
  refine ⟨?_, h.valid, ?_⟩
  · rw [nodeByMachineKey_eq_none_iff]
    intro n' hn'
    obtain ⟨n, hn, -, -, -, hmk⟩ := hst.nodes n' hn'
    rw [← hmk]
    exact nodeByMachineKey_eq_none_iff.mp h.unknown n hn
  · obtain ⟨k, hk, hid, hnw, howner, hreusable, hused⟩ := h.keyRow
    obtain ⟨k', hk', he⟩ := hst.keys.exists_key hk
    obtain ⟨hid', hnw', howner', hreusable', hused'⟩ := SetupKey.of_body he
    exact ⟨k', hk', hid'.trans hid, hnw'.trans hnw, howner'.trans howner,
      hreusable'.trans hreusable, fun hr => hused'.trans (hused hr)⟩

namespace KeyInv

variable {s : KeySystem}

/-- A key that is not in the table was never charged. -/
theorem charges_eq_zero (h : KeyAccounts s) {id : ℤ}
    (hid : ∀ k ∈ s.sys.c.st.setupKeys.rows, k.id ≠ id) : charges s.log id = 0 := by
  rw [charges, List.countP_eq_zero]
  intro r hr
  obtain ⟨k, hk, hkid, -⟩ := h.keyRow r hr
  simpa [← hkid] using hid k hk

theorem noCharge (h : KeyInv s) {sys : System} {pending : Option Pending}
    (hst : NoCharge s.sys.c.st sys.c.st) (hpending : ∀ p, pending = some p → PendingOk sys.c.st p) :
    KeyInv ⟨sys, pending, s.log⟩ := by
  obtain ⟨hvalid, hkeyRow, hcounts, honce, hids, hinserted, hnodes⟩ := h.accounts
  refine ⟨⟨hvalid, ?_, ?_, ?_, ?_, hinserted, ?_⟩, hpending⟩
  · intro r hr
    obtain ⟨k, hk, hid, hnw, howner, hreusable⟩ := hkeyRow r hr
    obtain ⟨k', hk', he⟩ := hst.keys.exists_key hk
    obtain ⟨hid', hnw', howner', hreusable', -⟩ := SetupKey.of_body he
    exact ⟨k', hk', hid'.trans hid, hnw'.trans hnw, howner'.trans howner,
      hreusable'.trans hreusable⟩
  · intro k' hk'
    rcases hst.keys.key_cases hk' with ⟨k, hk, he⟩ | ⟨hused, hnew⟩
    · obtain ⟨hid, -, -, -, hused⟩ := SetupKey.of_body he
      rw [← hused, ← hid]
      exact hcounts k hk
    · rw [hused, charges_eq_zero h.accounts hnew]
  · intro k' hk' hreusable
    rcases hst.keys.key_cases hk' with ⟨k, hk, he⟩ | ⟨-, hnew⟩
    · obtain ⟨hid, -, -, hreusable', -⟩ := SetupKey.of_body he
      rw [← hid]
      exact honce k hk (hreusable'.trans hreusable)
    · rw [charges_eq_zero h.accounts hnew]
      exact Nat.zero_le 1
  · intro i
    rw [hst.seq]
    exact hids i
  · intro n' hn'
    obtain ⟨n, hn, hid, hnw, howner, -⟩ := hst.nodes n' hn'
    obtain ⟨r, hr, hrid, hrnw, hrowner⟩ := hnodes n hn
    exact ⟨r, hr, hrid.trans (by rw [hid]), hnw ▸ hrnw, howner ▸ hrowner⟩

end KeyInv

/-! ### The charge -/

/-- **The row an enrolment inserts, if any.** -/
theorem Coordinator.EnrollResult.inserted {c : Coordinator} {now : ℤ} {req : RegisterRequest}
    {nw : Network} {owner : ℤ} {res : RegisterResult × Coordinator}
    (h : EnrollResult c now req nw owner res) : res.2.st.setupKeys = c.st.setupKeys ∧
      (res.2.st.nodes = c.st.nodes ∨
        ∃ m : Node, m.id = c.st.nodes.seq + 1 ∧ m.networkID = nw.id ∧ m.ownerUserID = owner ∧
          m.machineKey = req.mkey.string ∧ res.2.st.nodes.rows = c.st.nodes.rows ++ [m] ∧
          res.2.st.nodes.seq = c.st.nodes.seq + 1) := by
  cases h with
  | refused => exact ⟨rfl, .inl rfl⟩
  | exhausted => exact ⟨rfl, .inl rfl⟩
  | halfBuilt ha h4 hn h6 =>
    obtain ⟨rfl, hrows, hseq, -, hkeys, -⟩ := createNode_spec hn
    exact ⟨hkeys, .inr ⟨_, rfl, rfl, rfl, rfl, hrows, hseq⟩⟩
  | @enrolled a c' v4 v6 st st' n ha h4 hn h6 hnodes hnetworks hkeys hacl hroutes =>
    obtain ⟨rfl, hrows, hseq, -, hkeys', -⟩ := createNode_spec hn
    rw [Coordinator.st_notifyNetworkLocked]
    refine ⟨hkeys.trans hkeys', .inr ⟨{ nodeRow now (enrolledNode c.st req nw owner v4)
      (c.st.nodes.seq + 1) with ipv6 := v6 }, rfl, rfl, rfl, rfl, ?_, ?_⟩⟩
    · rw [hnodes, updateNodeIPv6, rows_nodes_updateNode, hrows, List.map_append]
      congr 1
      · refine (List.map_congr_left ?_).trans (List.map_id _)
        intro m hm
        have hle := c.st.nodes.id_le m hm
        rw [if_neg (by simp only [nodeRow]; omega)]
        rfl
      · simp
    · rw [hnodes]
      exact hseq

namespace PendingOk

variable {c : Coordinator} {p : Pending}

/-- What the second half of a registration writes. -/
theorem finished_cases (h : PendingOk c.st p) :
    (KeySystem.finished c p).st.setupKeys = (c.st.chargeSetupKey p.key).setupKeys ∧
      ((KeySystem.finished c p).st.nodes = c.st.nodes ∨
        ∃ m : Node, m.id = c.st.nodes.seq + 1 ∧ m.networkID = p.key.networkID ∧
          m.ownerUserID = p.key.ownerUserID ∧ m.machineKey = p.req.mkey.string ∧
          (KeySystem.finished c p).st.nodes.rows = c.st.nodes.rows ++ [m] ∧
          (KeySystem.finished c p).st.nodes.seq = c.st.nodes.seq + 1) := by
  obtain ⟨k, hk, -, hnw, -⟩ := h.keyRow
  obtain ⟨w, hw, hwid⟩ := c.st.setupKeys_fk k hk
  have hlookup : (c.st.chargeSetupKey p.key).networkByID p.key.networkID = some w :=
    AutoTable.byId_eq_some_iff.mpr ⟨hw, hwid.trans hnw⟩
  simp only [KeySystem.finished, hlookup]
  rw [← hwid.trans hnw]
  exact (Coordinator.enroll_spec (c := { c with st := c.st.chargeSetupKey p.key }) h.unknown
    ⟨w, hw, rfl⟩).inserted

end PendingOk

namespace KeyAccounts

variable {s : KeySystem} {c : Coordinator} {p : Pending} {r : Charge}

/-- The accounts of the keys after a charge, whatever happens to the node. -/
theorem charge_keys (h : KeyAccounts s) (hp : PendingOk s.sys.c.st p)
    (hkeys : c.st.setupKeys = (s.sys.c.st.chargeSetupKey p.key).setupKeys) (hr : r.key = p.key) :
    (∀ r' ∈ s.log ++ [r], ∃ k ∈ c.st.setupKeys.rows, k.id = r'.key.id ∧
        k.networkID = r'.key.networkID ∧ k.ownerUserID = r'.key.ownerUserID ∧
        k.reusable = r'.key.reusable) ∧
      ∀ k ∈ c.st.setupKeys.rows, k.usedCount = charges (s.log ++ [r]) k.id ∧
        (k.reusable = false → charges (s.log ++ [r]) k.id ≤ 1) := by
  obtain ⟨k₀, hk₀, hid₀, hnw₀, howner₀, hreusable₀, hunused⟩ := hp.keyRow
  rw [hkeys, rows_setupKeys_chargeSetupKey]
  constructor
  · intro r' hr'
    obtain ⟨k, hk, hrest⟩ : ∃ k ∈ s.sys.c.st.setupKeys.rows, k.id = r'.key.id ∧
        k.networkID = r'.key.networkID ∧ k.ownerUserID = r'.key.ownerUserID ∧
        k.reusable = r'.key.reusable := by
      rcases List.mem_append.mp hr' with hr' | hr'
      · exact h.keyRow r' hr'
      · rw [List.mem_singleton.mp hr', hr]
        exact ⟨k₀, hk₀, hid₀, hnw₀, howner₀, hreusable₀⟩
    refine ⟨_, List.mem_map_of_mem hk, ?_⟩
    split <;> exact hrest
  · intro k' hk'
    obtain ⟨k, hk, rfl⟩ := List.mem_map.mp hk'
    by_cases hid : k.id = p.key.id
    · -- The charged row. A single-use key was unused when it was read, and still is.
      rw [if_pos hid]
      have hcount : charges (s.log ++ [r]) k.id = k.usedCount + 1 := by
        rw [charges_concat, hr, if_pos hid.symm, h.counts k hk]
      refine ⟨hcount.symm, ?_⟩
      intro hreusable
      have hk₀' : k = k₀ := s.sys.c.st.setupKeys.eq_of_id_eq hk hk₀ (hid.trans hid₀.symm)
      have hzero : k.usedCount = 0 := by
        rw [hk₀']
        apply hunused
        rw [← hreusable₀, ← hk₀']
        exact hreusable
      exact (hcount.trans (by rw [hzero])).le
    · rw [if_neg hid]
      have hcount : charges (s.log ++ [r]) k.id = charges s.log k.id := by
        rw [charges_concat, hr, if_neg (Ne.symm hid), add_zero]
      rw [hcount]
      exact ⟨h.counts k hk, h.once k hk⟩

/-- The accounts of the nodes after a charge that inserted none. -/
theorem charge_none (h : KeyAccounts s) (hnodes : c.st.nodes = s.sys.c.st.nodes)
    (hr : r.node = none) (i : ℤ) :
    insertions (s.log ++ [r]) i = if 0 < i ∧ i ≤ c.st.nodes.seq then 1 else 0 := by
  rw [insertions_concat, hr, hnodes, h.ids]
  simp

/-- The accounts of the nodes after a charge that inserted one. -/
theorem charge_some (h : KeyAccounts s) {m : Node} (hid : m.id = s.sys.c.st.nodes.seq + 1)
    (hseq : c.st.nodes.seq = s.sys.c.st.nodes.seq + 1) (hr : r.node = some m) (i : ℤ) :
    insertions (s.log ++ [r]) i = if 0 < i ∧ i ≤ c.st.nodes.seq then 1 else 0 := by
  rw [insertions_concat, hr, h.ids, hseq]
  simp only [Option.map_some, Option.some.injEq, hid]
  have hnonneg := s.sys.c.st.nodes.seq_nonneg
  split_ifs <;> omega

end KeyAccounts

namespace KeyInv

variable {s : KeySystem}

/-- The rest of a registration keeps the invariant. -/
theorem finish (h : KeyInv s) {p : Pending} (hp : PendingOk s.sys.c.st p) :
    KeyInv (s.finish p) := by
  obtain ⟨hkeys, hnodes⟩ := hp.finished_cases
  set c := KeySystem.finished s.sys.c p with hc
  set r : Charge := ⟨p.now, p.key, c.st.nodeByMachineKey p.req.mkey.string⟩ with hr
  obtain ⟨hkeyRow, hcounts⟩ := h.accounts.charge_keys (r := r) hp hkeys rfl
  have hvalid : ∀ r' ∈ s.log ++ [r], r'.key.revoked = false ∧ r'.key.isExpired r'.now = false := by
    intro r' hr'
    rcases List.mem_append.mp hr' with hr' | hr'
    · exact h.accounts.valid r' hr'
    · rw [List.mem_singleton.mp hr']
      exact hp.valid
  have hrows : ∀ n ∈ s.sys.c.st.nodes.rows, ∃ r' ∈ s.log ++ [r],
      r'.node.map Node.id = some n.id ∧ n.networkID = r'.key.networkID ∧
        n.ownerUserID = r'.key.ownerUserID := by
    intro n hn
    obtain ⟨r', hr', hrest⟩ := h.accounts.nodes n hn
    exact ⟨r', List.mem_append_left _ hr', hrest⟩
  rcases hnodes with hnodes | ⟨m, hid, hnw, howner, hmk, hmrows, hseq⟩
  · have hnode : r.node = none := by
      rw [hr, nodeByMachineKey, hnodes]
      exact hp.unknown
    refine ⟨⟨hvalid, hkeyRow, fun k hk => (hcounts k hk).1, fun k hk => (hcounts k hk).2,
      h.accounts.charge_none hnodes hnode, ?_, ?_⟩,
      by rintro p' ⟨⟩⟩
    · intro r' hr' m hm
      rcases List.mem_append.mp hr' with hr' | hr'
      · exact h.accounts.inserted r' hr' m hm
      · rw [List.mem_singleton.mp hr', hnode] at hm
        cases hm
    · intro n hn
      exact hrows n (hnodes ▸ hn)
  · have hnode : r.node = some m := by
      refine nodeByMachineKey_eq_some_iff.mpr ⟨?_, hmk⟩
      rw [hmrows]
      exact List.mem_append_right _ (List.mem_singleton_self m)
    refine ⟨⟨hvalid, hkeyRow, fun k hk => (hcounts k hk).1, fun k hk => (hcounts k hk).2,
      h.accounts.charge_some hid hseq hnode, ?_, ?_⟩,
      by rintro p' ⟨⟩⟩
    · intro r' hr' m' hm'
      rcases List.mem_append.mp hr' with hr' | hr'
      · exact h.accounts.inserted r' hr' m' hm'
      · rw [List.mem_singleton.mp hr', hnode] at hm'
        obtain rfl := Option.some.inj hm'
        rw [List.mem_singleton.mp hr']
        exact ⟨hnw, howner⟩
    · intro n hn
      have hn' : n ∈ s.sys.c.st.nodes.rows ++ [m] := hmrows ▸ hn
      rcases List.mem_append.mp hn' with hn' | hn'
      · exact hrows n hn'
      · rw [List.mem_singleton.mp hn']
        exact ⟨r, List.mem_append_right _ (List.mem_singleton_self r), by rw [hnode]; rfl, hnw,
          howner⟩

/-- So does its first half. -/
theorem start (h : KeyInv s) (hp : s.pending = none) (now : ℤ) (req : RegisterRequest) :
    KeyInv (s.start now req) := by
  rcases s.start_cases now req with ⟨heq, -⟩ | ⟨routes, n, hn, heq, -⟩ |
    ⟨routes, k, hunknown, hread, heq, -⟩
  · rwa [heq]
  · rw [heq]
    have hrow := (nodeByMachineKey_eq_some_iff.mp hn).1
    refine h.noCharge (.reRegister req routes hrow) ?_
    intro p hp'
    rw [hp] at hp'
    cases hp'
  · rw [heq]
    obtain ⟨hrow, -, hrevoked, hexpired, hspent⟩ := readSetupKey_ok_iff.mp hread
    refine h.noCharge (.of_eq rfl rfl) ?_
    intro p hp'
    obtain rfl := Option.some.inj hp'
    refine ⟨hunknown, ⟨hrevoked, hexpired⟩, k, hrow, rfl, rfl, rfl, rfl, ?_⟩
    intro hreusable
    exact hspent.resolve_left (by rw [hreusable]; exact Bool.false_ne_true)

/-- So does every step that is not part of a registration. -/
theorem other (h : KeyInv s) {op : Op} (hop : ∀ now req, op ≠ .register now req) :
    KeyInv { s with sys := s.sys.step op } :=
  h.noCharge (.step s.sys hop) fun p hp => (h.pending p hp).noCharge (.step s.sys hop)

theorem step (s : KeySystem) (op : KeyOp) (h : KeyInv s) : KeyInv (s.step op) := by
  cases op with
  | start now req =>
    simp only [KeySystem.step]
    split_ifs with hp
    · exact h
    · exact h.start (by simpa using hp) now req
  | finish =>
    simp only [KeySystem.step]
    split
    · exact h
    · next p hp => exact h.finish (h.pending p hp)
  | other op =>
    cases op with
    | register now req => exact h
    | restart =>
      exact h.noCharge (.step s.sys fun _ _ he => nomatch he) fun p hp => nomatch hp
    | _ =>
      simp only [KeySystem.step]
      split_ifs
      · exact h
      · exact h.other fun _ _ he => nomatch he

theorem init (stunServers relays : List String) (dnsBase : String) :
    KeyInv (KeySystem.init stunServers relays dnsBase) := by
  refine ⟨⟨?_, ?_, ?_, ?_, fun i => ?_, ?_, ?_⟩, fun p hp => nomatch hp⟩
  case refine_5 => exact (if_neg fun hi : 0 < i ∧ i ≤ 0 => by omega).symm
  all_goals exact fun _ hmem => nomatch hmem

end KeyInv

/-- **Setup keys over whole runs.** From an empty database, whatever keys are created and revoked,
machines register and nodes are deleted: every node row was inserted by one charge of a key that was
valid when it was read, and has the network and the owner of that key; a single-use key is charged
at most once; and `used_count` is the number of charges. -/
theorem keyAccounts_run (stunServers relays : List String) (dnsBase : String) (ops : List KeyOp) :
    KeyAccounts (Runs.run KeySystem.step (KeySystem.init stunServers relays dnsBase) ops) :=
  (Runs.run_induction (P := KeyInv) (.init stunServers relays dnsBase) KeyInv.step ops).accounts

end OverMesh
