import OverMesh.Daemon.Identity
import OverMesh.Internal.Runs

/-!
# Keeping the engine in step with the table

`applyNetMap` and `syncPeers` compute the peer set under the lock and program it after they have
released the lock. A path update changes the table in one critical section and then calls
`syncPeers`, which takes the lock again. Between two such steps of a call any steps of other calls
may happen.

Nothing makes the calls reach the engine in the order in which they computed. Configurations are
numbered here in that order, by a number that no step reads, so that this can be said.

## Main definitions

* `SyncSystem`, `SyncOp`, `SyncSystem.step`
* `InOrder` — a configuration is not programmed after one that was computed later
* `Settled` — if no call is under way, the engine is programmed with the table

## Main results

* `settled_run` — **in every run in which configurations are programmed in order, the engine is
  programmed with the table whenever no call is under way**
* `removed_peer_programmed` — a run in which an overtaken configuration brings a removed peer back
-/

namespace OverMesh

open Wgengine Runs

/-- A call that is under way. -/
inductive Call where
  /-- `syncPeers` before it takes the lock. -/
  | sync
  /-- `applyNetMap` or `syncPeers` before `SetPeers`, with what it has computed. -/
  | setPeers (n : ℕ) (cfgs : List PeerConfig)

/-- The number of what the call has computed. -/
def Call.number : Call → Option ℕ
  | .sync => none
  | .setPeers n _ => some n

/-- The daemon, the engine and the calls that are under way. -/
structure SyncSystem where
  d : Daemon
  engine : Device
  calls : List Call
  /-- How many configurations were computed. -/
  computed : ℕ
  /-- The number of the configuration that was programmed last. -/
  applied : ℕ

/-- The steps. What iterates over the table comes with the order of the iteration. -/
inductive SyncOp where
  | applyNetMap (nm : Proto.NetMap) (order order' : List PeerInfo)
  | onPathUpdate (u : PathUpdate)
  /-- Something else calls `syncPeers`. -/
  | syncPeers
  /-- The `i`-th call takes the lock and computes. -/
  | compute (i : ℕ) (order : List PeerInfo)
  /-- The `i`-th call programs the engine, and is done. -/
  | setPeers (i : ℕ)

/-- The order of an iteration over `rows`. -/
def arrange (rows order : List PeerInfo) : List PeerInfo := if order.Perm rows then order else rows

theorem arrange_perm (rows order : List PeerInfo) : (arrange rows order).Perm rows := by
  rw [arrange]
  split_ifs with h
  · exact h
  · exact .refl rows

namespace SyncSystem

/-- A daemon whose table is programmed, as the empty one is at the beginning. -/
def start (d : Daemon) : SyncSystem := ⟨d, d.engine d.peers, [], 0, 0⟩

variable (equalFold : String → String → Bool)

/-- One step. -/
def step (s : SyncSystem) : SyncOp → SyncSystem
  | .applyNetMap nm order order' =>
    let d := s.d.applyNetMap equalFold nm (arrange (mergePeers s.d.peers nm.peers) order)
    let cfgs := d.buildPeerConfigsLocked (arrange d.peers order')
    { s with
      d := d
      calls := s.calls ++ [.setPeers (s.computed + 1) cfgs]
      computed := s.computed + 1 }
  | .onPathUpdate u =>
    { s with
      d := (s.d.onPathUpdate u).2
      calls := s.calls ++ if (s.d.onPathUpdate u).1 then [.sync] else [] }
  | .syncPeers => { s with calls := s.calls ++ [.sync] }
  | .compute i order =>
    match s.calls[i]? with
    | some .sync =>
      let cfgs := s.d.buildPeerConfigsLocked (arrange s.d.peers order)
      { s with
        calls := s.calls.set i (.setPeers (s.computed + 1) cfgs)
        computed := s.computed + 1 }
    | _ => s
  | .setPeers i =>
    match s.calls[i]? with
    | some (.setPeers n cfgs) =>
      { s with
        engine := s.engine.setPeers cfgs
        calls := s.calls.eraseIdx i
        applied := n }
    | _ => s

end SyncSystem

/-- The step does not program a configuration after one that was computed later. -/
def InOrder (s : SyncSystem) : SyncOp → Prop
  | .setPeers i => ∀ c ∈ s.calls[i]?, ∀ n ∈ c.number, s.applied < n
  | _ => True

instance (s : SyncSystem) (op : SyncOp) : Decidable (InOrder s op) := by
  cases op <;> unfold InOrder <;> infer_instance

/-- A configuration of the table as it is. -/
def Fresh (d : Daemon) (cfgs : List PeerConfig) : Prop :=
  ∃ order, order.Perm d.peers ∧ cfgs = d.buildPeerConfigsLocked order

/-- **No update is lost**: if no call is under way, the engine is programmed with the table. -/
def Settled (s : SyncSystem) : Prop :=
  s.calls = [] → ∃ order, order.Perm s.d.peers ∧ s.engine = s.d.engine order

/-- Then every peer of the engine is in the table. -/
theorem Settled.exists_row {s : SyncSystem} (h : Settled s) (hcalls : s.calls = [])
    {p : DevicePeer} (hp : p ∈ s.engine.peers) : ∃ pi ∈ s.d.peers, pi.pubKey = p.publicKey := by
  obtain ⟨order, hperm, hengine⟩ := h hcalls
  rw [hengine] at hp
  obtain ⟨c, hc, hkey⟩ := Device.exists_of_mem_peers_setPeers hp
  obtain ⟨pi, hpi, rfl⟩ := List.mem_map.mp hc
  exact ⟨pi, hperm.mem_iff.mp (List.mem_of_mem_filter hpi), hkey⟩

/-! ### The invariant -/

/-- The configuration computed last is programmed or under way, and it is one of the table as it is
unless there is a `syncPeers` to come. -/
structure SyncInv (s : SyncSystem) : Prop where
  le : ∀ n cfgs, .setPeers n cfgs ∈ s.calls → n ≤ s.computed
  applied_le : s.applied ≤ s.computed
  newest : s.applied = s.computed ∨ ∃ cfgs, .setPeers s.computed cfgs ∈ s.calls
  fresh : .sync ∉ s.calls → ∀ cfgs, .setPeers s.computed cfgs ∈ s.calls → Fresh s.d cfgs
  engine : .sync ∉ s.calls → s.applied = s.computed →
    ∃ order, order.Perm s.d.peers ∧ s.engine = s.d.engine order

/-- A path update that changes nothing leaves the table as it was. -/
theorem Daemon.onPathUpdate_unchanged {d : Daemon} {u : PathUpdate}
    (h : (d.onPathUpdate u).1 = false) : (d.onPathUpdate u).2 = d := by
  rw [Daemon.onPathUpdate] at h ⊢
  split
  · rfl
  · next pi hpi =>
    simp only [hpi, decide_eq_false_iff_not, not_or, not_not] at h
    obtain ⟨hpath, hep⟩ := h
    have hid : pi.nodeID = u.nodeID := by simpa using List.find?_some hpi
    -- There is one row with the id, and it has the path already.
    have hrows : d.peers.map (fun q => if q.nodeID = u.nodeID then
        { q with path := u.state, pathEP := u.endpoint } else q) = d.peers := by
      refine (List.map_congr_left ?_).trans (List.map_id _)
      intro q hq
      split_ifs with hq'
      · obtain rfl := List.inj_on_of_nodup_map d.ids hq (List.mem_of_find?_eq_some hpi)
          (hq'.trans hid.symm)
        rw [← hpath, ← hep]
        rfl
      · rfl
    cases d
    simp only [Daemon.updatePeer, hrows]

namespace SyncInv

variable {equalFold : String → String → Bool} {s : SyncSystem}

theorem start (d : Daemon) : SyncInv (.start d) where
  le _ _ h := nomatch h
  applied_le := le_refl 0
  newest := .inl rfl
  fresh _ _ h := nomatch h
  engine _ _ := ⟨d.peers, .refl _, rfl⟩

/-- A critical section computes a configuration of the table it leaves. -/
theorem computes (h : SyncInv s) {d : Daemon} {calls : List Call} {cfgs : List PeerConfig}
    (hfresh : Fresh d cfgs) (hnew : .setPeers (s.computed + 1) cfgs ∈ calls)
    (hcalls : ∀ c ∈ calls, c ∈ s.calls ∨ c = .setPeers (s.computed + 1) cfgs) :
    SyncInv { s with d := d, calls := calls, computed := s.computed + 1 } where
  le n cfgs' hmem := by
    rcases hcalls _ hmem with hold | hlast
    · exact (h.le n cfgs' hold).trans (Nat.le_succ _)
    · obtain ⟨rfl, -⟩ := Call.setPeers.inj hlast
      exact le_refl _
  applied_le := h.applied_le.trans (Nat.le_succ _)
  newest := .inr ⟨cfgs, hnew⟩
  fresh _ cfgs' hmem := by
    rcases hcalls _ hmem with hold | hlast
    · exact absurd (h.le _ _ hold) (Nat.not_succ_le_self _)
    · obtain ⟨-, rfl⟩ := Call.setPeers.inj hlast
      exact hfresh
  engine _ heq := absurd (heq ▸ h.applied_le) (Nat.not_succ_le_self _)

/-- A critical section announces a `syncPeers`. -/
theorem announces (h : SyncInv s) (d : Daemon) :
    SyncInv { s with d := d, calls := s.calls ++ [.sync] } where
  le n cfgs hmem := h.le n cfgs (by simpa using hmem)
  applied_le := h.applied_le
  newest := h.newest.imp_right fun ⟨cfgs, hmem⟩ => ⟨cfgs, List.mem_append_left _ hmem⟩
  fresh hsync := absurd (List.mem_append_right _ (List.mem_singleton_self _)) hsync
  engine hsync := absurd (List.mem_append_right _ (List.mem_singleton_self _)) hsync

/-- The other calls stay when one is done. -/
theorem mem_eraseIdx {calls : List Call} {i : ℕ} {c c' : Call} (hi : calls[i]? = some c)
    (hne : c' ≠ c) (hmem : c' ∈ calls) : c' ∈ calls.eraseIdx i := by
  obtain ⟨j, hj⟩ := List.mem_iff_getElem?.mp hmem
  refine List.mem_eraseIdx_iff_getElem?.mpr ⟨j, ?_, hj⟩
  rintro rfl
  exact hne (Option.some.inj (hj.symm.trans hi))

/-- A configuration is programmed that is newer than the last one. -/
theorem programs (h : SyncInv s) {i n : ℕ} {cfgs : List PeerConfig}
    (hi : s.calls[i]? = some (.setPeers n cfgs)) (hn : s.applied < n) : SyncInv { s with
      engine := s.engine.setPeers cfgs, calls := s.calls.eraseIdx i, applied := n } := by
  have hcall : .setPeers n cfgs ∈ s.calls := List.mem_of_getElem? hi
  have hsync : .sync ∉ s.calls.eraseIdx i → Call.sync ∉ s.calls :=
    mt (mem_eraseIdx hi Call.noConfusion)
  refine ⟨fun m cfgs' hmem => h.le m cfgs' (List.mem_of_mem_eraseIdx hmem), h.le n cfgs hcall, ?_,
    fun hno cfgs' hmem => h.fresh (hsync hno) cfgs' (List.mem_of_mem_eraseIdx hmem), ?_⟩
  · rcases (h.le n cfgs hcall).eq_or_lt with heq | hlt
    · exact .inl heq
    · -- An older one was programmed before, so the newest is still to come.
      obtain ⟨cfgs', hmem⟩ := h.newest.resolve_left (by omega)
      refine .inr ⟨cfgs', mem_eraseIdx hi ?_ hmem⟩
      intro heq
      exact hlt.ne' (Call.setPeers.inj heq).1
  · intro hno heq
    rw [show n = s.computed from heq] at hcall
    obtain ⟨order, hperm, rfl⟩ := h.fresh (hsync hno) cfgs hcall
    exact ⟨order, hperm, Device.setPeers_eq _ _⟩

/-- **A step in order keeps the invariant.** -/
theorem step (h : SyncInv s) (op : SyncOp) (hop : InOrder s op) :
    SyncInv (s.step equalFold op) := by
  cases op with
  | applyNetMap nm order order' =>
    refine h.computes ⟨_, arrange_perm _ order', rfl⟩ (by simp) ?_
    intro c hc
    simpa using hc
  | onPathUpdate u =>
    rcases hchanged : (s.d.onPathUpdate u).1 with _ | _
    · simp only [SyncSystem.step, hchanged, Daemon.onPathUpdate_unchanged hchanged]
      simpa using h
    · simp only [SyncSystem.step, hchanged, if_true]
      exact h.announces _
  | syncPeers => exact h.announces s.d
  | compute i order =>
    simp only [SyncSystem.step]
    split
    · next hi =>
      obtain ⟨hlt, -⟩ := List.getElem?_eq_some_iff.mp hi
      exact h.computes ⟨_, arrange_perm _ order, rfl⟩ (List.mem_set hlt _)
        fun c hc => List.mem_or_eq_of_mem_set hc
    · exact h
  | setPeers i =>
    simp only [SyncSystem.step]
    split
    · next n cfgs hi => exact h.programs hi (hop _ hi n rfl)
    · exact h

theorem settled (h : SyncInv s) : Settled s := by
  intro hcalls
  have hnone : ∀ c, c ∉ s.calls := by simp [hcalls]
  exact h.engine (hnone _) (h.newest.resolve_right fun ⟨_, hmem⟩ => hnone _ hmem)

end SyncInv

/-- **Programmed in order, no update is lost**: in every state of a run in which no configuration is
programmed after a newer one, if no call is under way then the engine is programmed with the table,
and no peer is left that the table does not have. -/
theorem settled_run (equalFold : String → String → Bool) (d : Daemon) (ops : List SyncOp)
    (h : Along (SyncSystem.step equalFold) InOrder (.start d) ops) :
    Settled (run (SyncSystem.step equalFold) (.start d) ops) ∧
      ((run (SyncSystem.step equalFold) (.start d) ops).calls = [] →
        ∀ p ∈ (run (SyncSystem.step equalFold) (.start d) ops).engine.peers,
          ∃ pi ∈ (run (SyncSystem.step equalFold) (.start d) ops).d.peers,
            pi.pubKey = p.publicKey) := by
  have hinv := run_induction_along (SyncInv.start d) (fun _ op hs hop => hs.step op hop) h
  exact ⟨hinv.settled, fun hcalls _ hp => hinv.settled.exists_row hcalls hp⟩

/-! ### A laptop that is removed

The laptop gets a direct path, and is then removed from the network. -/

/-- Two calls have computed: the path update while the laptop was in the table, and the netmap after
it was removed. -/
def laptopRemoved : List SyncOp :=
  [.onPathUpdate ⟨3, .direct, Netip.parseAddrPort "192.0.2.9:41641"⟩,
    .compute 0 [],
    .applyNetMap
      { Daemon.sampleNetMap [] with peers := (Daemon.sampleNetMap []).peers.take 1 } [] []]

/-- In order, only the gateway is left. -/
theorem settled_laptopRemoved :
    Settled (run (SyncSystem.step fun s t => s = t) (.start (Daemon.sampleTable []))
      (laptopRemoved ++ [.setPeers 0, .setPeers 0])) :=
  (settled_run _ _ _ (by decide +kernel)).1

/-- **The laptop is back** if the netmap's configuration is programmed first: no call is under way,
and the engine has a peer that the table does not have. -/
theorem removed_peer_programmed :
    let s := run (SyncSystem.step fun s t => s = t) (.start (Daemon.sampleTable []))
      (laptopRemoved ++ [.setPeers 1, .setPeers 0])
    s.calls = [] ∧ (∃ p ∈ s.engine.peers, ∀ pi ∈ s.d.peers, pi.pubKey ≠ p.publicKey) ∧
      ¬ Settled s := by
  intro s
  have hcalls : s.calls = [] := List.isEmpty_iff.mp (by decide +kernel)
  have hleft : ∃ p ∈ s.engine.peers, ∀ pi ∈ s.d.peers, pi.pubKey ≠ p.publicKey := by
    decide +kernel
  refine ⟨hcalls, hleft, ?_⟩
  intro hsettled
  obtain ⟨p, hp, hnone⟩ := hleft
  obtain ⟨pi, hpi, hkey⟩ := hsettled.exists_row hcalls hp
  exact hnone pi hpi hkey

end OverMesh
