import OverMesh.Daemon.Sync
import OverMesh.Filter.Tun

/-!
# The filter that peers are live under

A netmap brings peers and the filter for their packets. `applyNetMap` hands them to the engine by
two calls, `SetPeers` first and `SetFilter` after it has returned. Between the two the new peers are
live under the filter of an earlier netmap, or under none. If `SetPeers` fails, the daemon returns
and does not get to `SetFilter`; the mobile core goes on. The kernel engine has no filter at all.

`syncPeers` and `SetExitNode` call `SetPeers` as well, with the table as it is then, and any steps
of theirs may come between those of `applyNetMap`. The device runs one configuration at a time,
command by command, and may stop with an error at any of them. Netmaps are applied one at a time.

Two fields are records that no step reads: the netmaps in the order in which they were merged into
the table, and for each peer the number of the netmap that its configuration was computed from.

## Main definitions

* `Engine`, `EngineSession`, `EngineOp`, `EngineSession.step`
* `Guarded` — what a peer sends is delivered only under the filter of the netmap that programmed the
  peer, or of a later one
* `Covered` — the condition on a step: whatever range of addresses it makes live, the filter in
  place is recent enough or refuses every packet from the range

## Main results

* `guarded_iff_covered` — **peers are guarded in every state of a run just when every step of it is
  covered**
* `peer_live_unfiltered` — a peer of the first netmap is live without a filter
-/

namespace OverMesh

open Netip Key Wgengine Runs

/-- `filter.FromProto` of what a netmap carries. -/
def Proto.NetMap.compiled (nm : Proto.NetMap) : Filter :=
  Filter.fromProto nm.filter nm.filterEnabled

namespace Wgengine

/-- What `Kind` tells. -/
inductive EngineKind where
  | kernel
  | userspace
  deriving DecidableEq

/-- `Engine`. The kernel engine has no `ftun`, and nothing reads it there. -/
structure Engine where
  kind : EngineKind
  dev : Device
  ftun : FilterTUN

/-- The address by which the device looks up the sender of a decrypted packet. -/
def source (pkt : List UInt8) : Option Addr :=
  if Filter.byteAt pkt 0 >>> 4 = 4 ∧ 20 ≤ pkt.length then
    some (.v4 (BitVec.ofNat 32 (Filter.numberAt pkt 12 4)))
  else if Filter.byteAt pkt 0 >>> 4 = 6 ∧ 40 ≤ pkt.length then
    some (.v6 (BitVec.ofNat 128 (Filter.numberAt pkt 8 16)) "")
  else none

namespace Engine

/-- `New`: no peers and a nil filter. -/
def new (kind : EngineKind) : Engine := ⟨kind, .empty, ⟨none⟩⟩

/-- The commands of `SetPeers`. The kernel cannot reach the relay. -/
def peersConfig (e : Engine) (peers : List PeerConfig) : List Uapi :=
  match e.kind with
  | .kernel => uapiPeersConfig (peers.map ({ · with relayEndpoint := "" }))
  | .userspace => uapiPeersConfig peers

/-- The device runs a command. -/
def exec (e : Engine) (cmd : Uapi) : Engine := { e with dev := e.dev.exec cmd }

/-- `SetFilter`, which the kernel engine ignores. -/
def setFilter (e : Engine) (f : Filter) : Engine :=
  match e.kind with
  | .kernel => e
  | .userspace => { e with ftun := e.ftun.setFilter (some f) }

/-- A packet that the device has accepted gets to the OS. -/
def Passes (e : Engine) (pkt : List UInt8) : Prop := e.kind = .userspace → e.ftun.Passes pkt

/-- A packet that peer `k` sends is delivered to the OS. -/
def Delivers (e : Engine) (k : Bytes32) (pkt : List UInt8) : Prop :=
  (∃ a ∈ source pkt, e.dev.accepts k a = true) ∧ e.Passes pkt

/-- The filter is in place. -/
def Installed (e : Engine) (f : Filter) : Prop := e.kind = .userspace ∧ e.ftun.f = some f

variable {e : Engine} {f : Filter} {pkt : List UInt8}

theorem Installed.allows (h : e.Installed f) (hp : e.Passes pkt) :
    Filter.allowsPacket (some f) pkt = true := by
  rw [← h.2]
  exact FilterTUN.passes_iff.mp (hp h.1)

@[simp] theorem dev_setFilter : (e.setFilter f).dev = e.dev := by
  rw [setFilter]
  split <;> rfl

/-- Only a filter that is in place makes a difference. -/
theorem setFilter_cases (e : Engine) (f : Filter) :
    e.setFilter f = e ∨ (e.setFilter f).Installed f := by
  rw [setFilter]
  split
  · exact .inl rfl
  · next hkind => exact .inr ⟨hkind, rfl⟩

end Engine

end Wgengine

/-! ### The session -/

/-- The daemon, or the core of the mobile applications. -/
inductive App where
  | daemon
  | mobile

/-- `buildPeerConfigsLocked`. The mobile core keeps no exit routes. -/
def App.buildPeerConfigsLocked (app : App) (d : Daemon) (order : List PeerInfo) :
    List PeerConfig :=
  match app with
  | .daemon => d.buildPeerConfigsLocked order
  | .mobile => d.buildPeerConfigsLocked (order.map ({ · with exitRoutes := [] }))

/-- A call of `SetPeers`, to come or under way. -/
structure PeersCall where
  cfgs : List PeerConfig
  /-- The number of the netmap that the configuration was computed from. -/
  number : ℕ
  /-- The netmap, if `applyNetMap` is the caller. -/
  netmap : Option Proto.NetMap

/-- A session of the node with its engine. -/
structure EngineSession where
  app : App
  d : Daemon
  eng : Engine
  /-- The netmaps that were merged into the table. -/
  netmaps : List Proto.NetMap
  /-- The calls that have computed and released the lock. -/
  waiting : List PeersCall
  /-- The call that is in the device, and the commands it has left. -/
  ipc : Option (PeersCall × List Uapi)
  /-- The netmap of an `applyNetMap` that is back from `SetPeers`. -/
  filtering : Option Proto.NetMap
  /-- The number of the netmap that programmed the peer. -/
  programmedBy : Bytes32 → ℕ

/-- The steps. What iterates over the table comes with the order of the iteration. -/
inductive EngineOp where
  | applyNetMap (nm : Proto.NetMap) (order order' : List PeerInfo)
  | onPathUpdate (u : PathUpdate)
  /-- The relay client connects or disconnects. -/
  | relay (up : Bool)
  | setExitNode (name : String) (order order' : List PeerInfo)
  | syncPeers (order : List PeerInfo)
  /-- The device takes up the `i`-th call that waits. -/
  | ipcSet (i : ℕ)
  /-- The device runs the next command, or returns when there is none. -/
  | exec
  /-- The device returns an error. -/
  | fail
  | setFilter

namespace EngineSession

/-- The session begins. The table is empty in the source. -/
def start (app : App) (kind : EngineKind) (d : Daemon) : EngineSession :=
  ⟨app, d, .new kind, [], [], none, none, fun _ => 0⟩

/-- An `applyNetMap` is under way. -/
def applying (s : EngineSession) : Bool :=
  s.waiting.any (·.netmap.isSome) || s.ipc.any (·.1.netmap.isSome) || s.filtering.isSome

/-- Who has programmed the peers after a command of `c`. -/
def record (who : Bytes32 → ℕ) (c : PeersCall) : Uapi → Bytes32 → ℕ
  | .publicKey k => Function.update who k c.number
  | _ => who

/-- A critical section leaves the table `d`, and calls `SetPeers` with it. -/
def sync (s : EngineSession) (d : Daemon) (order : List PeerInfo) : EngineSession :=
  { s with
    d := d
    waiting := s.waiting ++
      [⟨s.app.buildPeerConfigsLocked d (arrange d.peers order), s.netmaps.length - 1, none⟩] }

variable (equalFold : String → String → Bool)

/-- One step. -/
def step (s : EngineSession) : EngineOp → EngineSession
  | .applyNetMap nm order order' =>
    if s.applying then s
    else
      let d := s.d.applyNetMap equalFold nm (arrange (mergePeers s.d.peers nm.peers) order)
      let cfgs := s.app.buildPeerConfigsLocked d (arrange d.peers order')
      { s with
        d := d
        netmaps := s.netmaps ++ [nm]
        waiting := s.waiting ++ [⟨cfgs, s.netmaps.length, some nm⟩] }
  | .onPathUpdate u => { s with d := (s.d.onPathUpdate u).2 }
  | .relay up => { s with d := { s.d with relayUp := up } }
  | .setExitNode name order order' =>
    let d := Daemon.selectExitPeerLocked equalFold { s.d with exitNode := name }
      (arrange s.d.peers order)
    if name ≠ "" ∧ d.exitPeerID = 0 then { s with d := d } else s.sync d order'
  | .syncPeers order => s.sync s.d order
  | .ipcSet i =>
    match s.ipc, s.waiting[i]? with
    | none, some c =>
      { s with
        eng := { s.eng with dev := { s.eng.dev with current := none } }
        ipc := some (c, s.eng.peersConfig c.cfgs)
        waiting := s.waiting.eraseIdx i }
    | _, _ => s
  | .exec =>
    match s.ipc with
    | none => s
    | some (c, []) => { s with ipc := none, filtering := c.netmap.or s.filtering }
    | some (c, cmd :: cmds) =>
      { s with
        eng := s.eng.exec cmd
        ipc := some (c, cmds)
        programmedBy := record s.programmedBy c cmd }
  | .fail =>
    match s.ipc with
    | none => s
    | some (c, _) =>
      { s with
        ipc := none
        filtering := match s.app with
          | .daemon => s.filtering
          | .mobile => c.netmap.or s.filtering }
  | .setFilter =>
    match s.filtering with
    | none => s
    | some nm => { s with eng := s.eng.setFilter nm.compiled, filtering := none }

end EngineSession

/-! ### What is wanted, and when it holds -/

/-- The filter of the `i`-th netmap or of a later one is in place. -/
def Engine.Current (e : Engine) (nms : List Proto.NetMap) (i : ℕ) : Prop :=
  ∃ nm ∈ nms.drop i, e.Installed nm.compiled

/-- **Peers are guarded**: once a netmap had filtering on, a packet is delivered only if the filter
of the netmap that programmed its sender, or of a later one, is in place and allows the packet. -/
def Guarded (s : EngineSession) : Prop :=
  (∃ nm ∈ s.netmaps, nm.filterEnabled = true) → ∀ k pkt, s.eng.Delivers k pkt →
    ∃ nm ∈ s.netmaps.drop (s.programmedBy k), s.eng.Installed nm.compiled ∧
      Filter.allowsPacket (some nm.compiled) pkt = true

/-- The filter in place is recent enough for a range of addresses that the `i`-th netmap programs,
or refuses every packet from the range. -/
def Screened (e : Engine) (nms : List Proto.NetMap) (i : ℕ) (p : Canonical) : Prop :=
  Engine.Current e nms i ∨ ∀ pkt, ∀ a ∈ source pkt, p.contains a = true → ¬ e.Passes pkt

/-- The step makes no range of addresses live that is not screened: not by programming it, and not
by turning on filtering while it is programmed. -/
def Covered (s : EngineSession) : EngineOp → Prop
  | .applyNetMap nm _ _ => nm.filterEnabled = true → s.applying = false →
      ∀ x ∈ s.eng.dev.allowedIPs, Screened s.eng (s.netmaps ++ [nm]) (s.programmedBy x.2) x.1
  | .exec => (∃ nm ∈ s.netmaps, nm.filterEnabled = true) → ∀ c p cmds,
      s.ipc = some (c, .allowedIP p :: cmds) → s.eng.dev.current ≠ none →
        Screened s.eng s.netmaps c.number (.of p)
  | _ => True

/-! ### Where the entries of the table come from -/

namespace EngineSession

/-- The calls of `SetPeers` that are to come or under way. -/
def calls (s : EngineSession) : List PeersCall := s.waiting ++ (s.ipc.map Prod.fst).toList

theorem mem_calls {s : EngineSession} {c : PeersCall} :
    c ∈ s.calls ↔ c ∈ s.waiting ∨ ∃ cmds, s.ipc = some (c, cmds) := by
  simp [calls]

/-- The call in the device has not cleared the table yet, or everything in the table is from it. -/
def Begun (s : EngineSession) (c : PeersCall) (cmds : List Uapi) : Prop :=
  (s.eng.dev.current = none ∧ ∃ rest, cmds = .replacePeers :: rest) ∨
    (∀ x ∈ s.eng.dev.allowedIPs, s.programmedBy x.2 = c.number) ∧
      ∀ k ∈ s.eng.dev.current, s.programmedBy k = c.number

end EngineSession

/-- What holds in every run. All peers in the table were programmed by one netmap, because every
configuration clears the table first. -/
structure SessionInv (s : EngineSession) : Prop where
  number_le : ∀ c ∈ s.calls, c.number ≤ s.netmaps.length - 1
  netmap : ∀ c ∈ s.calls, ∀ nm ∈ c.netmap, nm ∈ s.netmaps.getLast?
  filtering : ∀ nm ∈ s.filtering, nm ∈ s.netmaps.getLast?
  programmed_le : ∀ k, s.programmedBy k ≤ s.netmaps.length - 1
  same : ∀ x ∈ s.eng.dev.allowedIPs, ∀ y ∈ s.eng.dev.allowedIPs,
    s.programmedBy x.2 = s.programmedBy y.2
  begun : ∀ c cmds, s.ipc = some (c, cmds) → s.Begun c cmds

namespace EngineSession

variable {who : Bytes32 → ℕ} {c : PeersCall} {k : Bytes32}

theorem record_eq (cmd : Uapi) (h : who k = c.number) : record who c cmd k = c.number := by
  cases cmd with
  | publicKey k' =>
    rw [record, Function.update_apply]
    split_ifs
    · rfl
    · exact h
  | replacePeers | replaceAllowedIPs | allowedIP p | endpoint e | persistentKeepalive n => exact h

theorem record_le (cmd : Uapi) {n : ℕ} (h : who k ≤ n) (hc : c.number ≤ n) :
    record who c cmd k ≤ n := by
  cases cmd with
  | publicKey k' =>
    rw [record, Function.update_apply]
    split_ifs
    · exact hc
    · exact h
  | replacePeers | replaceAllowedIPs | allowedIP p | endpoint e | persistentKeepalive n => exact h

end EngineSession

namespace SessionInv

open EngineSession

variable {equalFold : String → String → Bool} {s : EngineSession}

theorem start (app : App) (kind : EngineKind) (d : Daemon) : SessionInv (.start app kind d) where
  number_le _ h := absurd h List.not_mem_nil
  netmap _ h := absurd h List.not_mem_nil
  filtering _ h := absurd h (Option.some_ne_none _).symm
  programmed_le _ := le_refl 0
  same _ h := absurd h List.not_mem_nil
  begun _ _ h := absurd h (Option.some_ne_none _).symm

/-- No netmap is on its way if no `applyNetMap` is under way. -/
theorem netmap_eq_none {c : PeersCall} (happ : s.applying = false) (hc : c ∈ s.calls) :
    c.netmap = none := by
  simp only [applying, Bool.or_eq_false_iff, List.any_eq_false] at happ
  obtain ⟨⟨hwaiting, hipc⟩, -⟩ := happ
  rcases mem_calls.mp hc with hc | ⟨cmds, hc⟩
  · simpa using hwaiting c hc
  · simpa [hc] using hipc

variable (h : SessionInv s)
include h

/-- A netmap is merged, and its configuration is computed. -/
theorem applies (happ : s.applying = false) (d : Daemon)
    (cfgs : List PeerConfig) (nm : Proto.NetMap) : SessionInv { s with
      d := d, netmaps := s.netmaps ++ [nm],
      waiting := s.waiting ++ [⟨cfgs, s.netmaps.length, some nm⟩] } := by
  have hfiltering : s.filtering = none := by
    simp only [applying, Bool.or_eq_false_iff] at happ
    simpa using happ.2
  have hcalls : ∀ c ∈ (s.waiting ++ [⟨cfgs, s.netmaps.length, some nm⟩]) ++
      (s.ipc.map Prod.fst).toList, c ∈ s.calls ∨ c = ⟨cfgs, s.netmaps.length, some nm⟩ := by
    intro c hc
    simp only [calls, List.mem_append, List.mem_singleton] at hc ⊢
    tauto
  have hlen : (s.netmaps ++ [nm]).length - 1 = s.netmaps.length := by simp
  have hle : s.netmaps.length - 1 ≤ (s.netmaps ++ [nm]).length - 1 := by
    rw [hlen]
    exact Nat.sub_le _ 1
  refine ⟨?_, ?_, ?_, fun k => (h.programmed_le k).trans hle, h.same, h.begun⟩
  · intro c hc
    rcases hcalls c hc with hold | rfl
    · exact (h.number_le c hold).trans hle
    · exact hlen.ge
  · intro c hc nm' hnm'
    rcases hcalls c hc with hold | rfl
    · rw [netmap_eq_none happ hold] at hnm'
      cases hnm'
    · obtain rfl := Option.some.inj hnm'
      exact List.getLast?_concat
  · intro nm' hnm'
    rw [show s.filtering = some nm' from hnm'] at hfiltering
    cases hfiltering

/-- A configuration of the table as it is. -/
theorem sync (d : Daemon) (order : List PeerInfo) : SessionInv (s.sync d order) := by
  have hcalls : ∀ c ∈ (s.sync d order).calls,
      c ∈ s.calls ∨ c.number = s.netmaps.length - 1 ∧ c.netmap = none := by
    intro c hc
    simp only [EngineSession.sync, calls, List.mem_append, List.mem_singleton] at hc ⊢
    rcases hc with (hc | rfl) | hc
    · exact .inl (.inl hc)
    · exact .inr ⟨rfl, rfl⟩
    · exact .inl (.inr hc)
  refine ⟨?_, ?_, h.filtering, h.programmed_le, h.same, h.begun⟩
  · intro c hc
    rcases hcalls c hc with hold | ⟨hnumber, -⟩
    · exact h.number_le c hold
    · exact hnumber.le
  · intro c hc nm hnm
    rcases hcalls c hc with hold | ⟨-, hnone⟩
    · exact h.netmap c hold nm hnm
    · rw [hnone] at hnm
      cases hnm

/-- The device takes up a call. -/
theorem takes {i : ℕ} {c : PeersCall} (hi : s.waiting[i]? = some c) : SessionInv { s with
      eng := { s.eng with dev := { s.eng.dev with current := none } }
      ipc := some (c, s.eng.peersConfig c.cfgs)
      waiting := s.waiting.eraseIdx i } := by
  have hcalls : ∀ c' ∈ s.waiting.eraseIdx i ++ [c], c' ∈ s.calls := by
    intro c' hc'
    refine mem_calls.mpr (.inl ?_)
    rcases List.mem_append.mp hc' with hc' | hc'
    · exact List.mem_of_mem_eraseIdx hc'
    · rw [List.mem_singleton.mp hc']
      exact List.mem_of_getElem? hi
  refine ⟨fun c' hc' => h.number_le c' (hcalls c' hc'),
    fun c' hc' => h.netmap c' (hcalls c' hc'), h.filtering, h.programmed_le, h.same, ?_⟩
  rintro _ _ ⟨⟩
  refine .inl ⟨rfl, ?_⟩
  rw [Engine.peersConfig]
  split
  · exact ⟨_, rfl⟩
  · exact ⟨_, rfl⟩

/-- The device runs a command. -/
theorem exec {c : PeersCall} {cmd : Uapi} {cmds : List Uapi}
    (hipc : s.ipc = some (c, cmd :: cmds)) : SessionInv { s with
      eng := s.eng.exec cmd
      ipc := some (c, cmds)
      programmedBy := record s.programmedBy c cmd } := by
  have hcalls : ∀ c' ∈ s.waiting ++ [c], c' ∈ s.calls := by
    intro c' hc'
    rw [calls, hipc]
    exact hc'
  -- The first command clears the table, and the later ones add to what is from this call.
  have htable : ∀ x ∈ (s.eng.dev.exec cmd).allowedIPs,
      record s.programmedBy c cmd x.2 = c.number := by
    intro x hx
    refine record_eq cmd ?_
    rcases h.begun c _ hipc with ⟨-, rest, hcmd⟩ | ⟨htable, hcurrent⟩
    · rw [(List.cons.inj hcmd).1] at hx
      cases hx
    · rcases Device.mem_allowedIPs_exec hx with ⟨hold, -⟩ | ⟨p, k, -, hk, rfl⟩
      · exact htable x hold
      · exact hcurrent k hk
  refine ⟨fun c' hc' => h.number_le c' (hcalls c' hc'),
    fun c' hc' => h.netmap c' (hcalls c' hc'), h.filtering,
    fun k => record_le cmd (h.programmed_le k) (h.number_le c (hcalls c (by simp))),
    fun x hx y hy => (htable x hx).trans (htable y hy).symm, ?_⟩
  rintro _ _ ⟨⟩
  refine .inr ⟨htable, ?_⟩
  intro k hk
  rcases Device.current_exec hk with hold | rfl
  · refine record_eq cmd ?_
    rcases h.begun c _ hipc with ⟨hnone, -⟩ | ⟨-, hcurrent⟩
    · rw [hold] at hnone
      cases hnone
    · exact hcurrent k hold
  · exact Function.update_self ..

/-- The device returns, and `applyNetMap` goes on or does not. -/
theorem returns {c : PeersCall} {cmds : List Uapi}
    (hipc : s.ipc = some (c, cmds)) {nm : Option Proto.NetMap}
    (hnm : nm = s.filtering ∨ nm = c.netmap.or s.filtering) :
    SessionInv { s with ipc := none, filtering := nm } := by
  have hcalls : ∀ c' ∈ s.waiting ++ [], c' ∈ s.calls := by
    intro c' hc'
    rw [List.append_nil] at hc'
    exact mem_calls.mpr (.inl hc')
  refine ⟨fun c' hc' => h.number_le c' (hcalls c' hc'),
    fun c' hc' => h.netmap c' (hcalls c' hc'), ?_, h.programmed_le, h.same,
    fun _ _ hnone => absurd hnone (Option.some_ne_none _).symm⟩
  intro nm' hnm'
  rcases hnm with rfl | rfl
  · exact h.filtering nm' hnm'
  · rcases Option.or_eq_some_iff.mp hnm' with hnm' | ⟨-, hnm'⟩
    · exact h.netmap c (mem_calls.mpr (.inr ⟨cmds, hipc⟩)) nm' hnm'
    · exact h.filtering nm' hnm'

/-- A filter is installed. -/
theorem filters (f : Filter) :
    SessionInv { s with eng := s.eng.setFilter f, filtering := none } := by
  refine ⟨h.number_le, h.netmap, fun _ hnone => absurd hnone (Option.some_ne_none _).symm,
    h.programmed_le, ?_, ?_⟩
  · rw [Engine.dev_setFilter]
    exact h.same
  · intro c cmds hipc
    rw [Begun, Engine.dev_setFilter]
    exact h.begun c cmds hipc

/-- **Every step keeps the invariant.** -/
theorem step (op : EngineOp) : SessionInv (s.step equalFold op) := by
  cases op with
  | applyNetMap nm order order' =>
    rw [EngineSession.step]
    split_ifs with happ
    · exact h
    · exact h.applies (Bool.eq_false_iff.mpr happ) _ _ nm
  | onPathUpdate u =>
    exact ⟨h.number_le, h.netmap, h.filtering, h.programmed_le, h.same, h.begun⟩
  | relay up => exact ⟨h.number_le, h.netmap, h.filtering, h.programmed_le, h.same, h.begun⟩
  | setExitNode name order order' =>
    simp only [EngineSession.step]
    split_ifs
    · exact ⟨h.number_le, h.netmap, h.filtering, h.programmed_le, h.same, h.begun⟩
    · exact h.sync _ order'
  | syncPeers order => exact h.sync s.d order
  | ipcSet i =>
    rw [EngineSession.step]
    split
    · next c hnone hi => exact h.takes hi
    · exact h
  | exec =>
    rw [EngineSession.step]
    split
    · exact h
    · next c hipc => exact h.returns hipc (.inr rfl)
    · next c cmd cmds hipc => exact h.exec hipc
  | fail =>
    rw [EngineSession.step]
    split
    · exact h
    · next c cmds hipc =>
      refine h.returns hipc ?_
      cases s.app with
      | daemon => exact .inl rfl
      | mobile => exact .inr rfl
  | setFilter =>
    rw [EngineSession.step]
    split
    · exact h
    · exact h.filters _

end SessionInv

/-! ### Entry by entry -/

/-- Every range of addresses in the table is screened, once a netmap had filtering on. -/
def ScreenedInv (s : EngineSession) : Prop :=
  (∃ nm ∈ s.netmaps, nm.filterEnabled = true) → ∀ x ∈ s.eng.dev.allowedIPs,
    Screened s.eng s.netmaps (s.programmedBy x.2) x.1

section Screened

open EngineSession

variable {equalFold : String → String → Bool} {s : EngineSession}

/-- **Peers are guarded just when the ranges they own are screened.** The sender of a packet need
not be the owner of a given range around its source, but all owners are from one netmap. -/
theorem guarded_iff_screened (h : SessionInv s) : Guarded s ↔ ScreenedInv s := by
  constructor
  · intro hguard hon x hx
    refine or_iff_not_imp_left.mpr ?_
    intro hold pkt a ha hcovers hpasses
    obtain ⟨k, hk⟩ := PrefixTable.exists_lookup Canonical.bits hx hcovers
    obtain ⟨y, hy, rfl, -⟩ := PrefixTable.exists_of_lookup hk
    have haccepts : s.eng.dev.accepts y.2 a = true := decide_eq_true hk
    obtain ⟨nm, hnm, hinstalled, -⟩ := hguard hon y.2 pkt ⟨⟨a, ha, haccepts⟩, hpasses⟩
    rw [h.same y hy x hx] at hnm
    exact hold ⟨nm, hnm, hinstalled⟩
  · rintro hscreen hon k pkt ⟨⟨a, ha, haccepts⟩, hpasses⟩
    obtain ⟨x, hx, rfl, hcovers, -⟩ := PrefixTable.exists_of_lookup (of_decide_eq_true haccepts)
    rcases hscreen hon x hx with ⟨nm, hnm, hinstalled⟩ | hrefuses
    · exact ⟨nm, hnm, hinstalled, hinstalled.allows hpasses⟩
    · exact absurd hpasses (hrefuses pkt a ha hcovers)

theorem Screened.append {e : Engine} {nms : List Proto.NetMap} {i : ℕ} {p : Canonical}
    (h : Screened e nms i p) (nm : Proto.NetMap) : Screened e (nms ++ [nm]) i p := by
  refine h.imp_left ?_
  rintro ⟨nm', hnm', hinstalled⟩
  refine ⟨nm', ?_, hinstalled⟩
  rw [List.drop_append]
  exact List.mem_append_left _ hnm'

/-- The last netmap is recent enough for all. -/
theorem mem_drop_of_getLast {nms : List Proto.NetMap} {nm : Proto.NetMap} {i : ℕ}
    (hi : i ≤ nms.length - 1) (h : nm ∈ nms.getLast?) : nm ∈ nms.drop i := by
  obtain ⟨init, rfl⟩ := List.getLast?_eq_some_iff.mp h
  rw [List.drop_append_of_le_length (by simpa using hi)]
  exact List.mem_append_right _ (List.mem_singleton_self nm)

/-- A netmap is merged. -/
theorem screenedInv_applies (hs : ScreenedInv s) {nm : Proto.NetMap} {d : Daemon}
    {waiting : List PeersCall} :
    ScreenedInv { s with d := d, netmaps := s.netmaps ++ [nm], waiting := waiting } ↔
      (nm.filterEnabled = true → ∀ x ∈ s.eng.dev.allowedIPs,
        Screened s.eng (s.netmaps ++ [nm]) (s.programmedBy x.2) x.1) := by
  constructor
  · intro h hon
    exact h ⟨nm, by simp, hon⟩
  · rintro hcov ⟨nm', hnm', hon⟩ x hx
    rcases List.mem_append.mp hnm' with hold | hnew
    · exact (hs ⟨nm', hold, hon⟩ x hx).append nm
    · rw [List.mem_singleton.mp hnew] at hon
      exact hcov hon x hx

/-- The device runs a command. -/
theorem screenedInv_exec (hinv : SessionInv s) (hs : ScreenedInv s) {c : PeersCall} {cmd : Uapi}
    {cmds : List Uapi} (hipc : s.ipc = some (c, cmd :: cmds)) : ScreenedInv { s with
        eng := s.eng.exec cmd, ipc := some (c, cmds),
        programmedBy := record s.programmedBy c cmd } ↔
      Covered s .exec := by
  -- Unless the command clears the table, all that is in it is from this call.
  have hbegun : cmd ≠ .replacePeers → (∀ x ∈ s.eng.dev.allowedIPs,
      s.programmedBy x.2 = c.number) ∧ ∀ k ∈ s.eng.dev.current, s.programmedBy k = c.number := by
    intro hcmd
    rcases hinv.begun c _ hipc with ⟨-, rest, hfirst⟩ | hbegun
    · exact absurd (List.cons.inj hfirst).1 hcmd
    · exact hbegun
  constructor
  · intro h hon c' p cmds' hipc' hcurrent
    obtain ⟨rfl, hcmds⟩ := Prod.mk.inj (Option.some.inj (hipc.symm.trans hipc'))
    obtain ⟨rfl, rfl⟩ := List.cons.inj hcmds
    obtain ⟨k, hk⟩ := Option.ne_none_iff_exists'.mp hcurrent
    have hentry : (Canonical.of p, k) ∈ (s.eng.dev.exec (.allowedIP p)).allowedIPs := by
      simp only [Device.exec, hk]
      exact PrefixTable.mem_insert.mpr (.inr rfl)
    have hscreen : Screened s.eng s.netmaps (record s.programmedBy c (.allowedIP p) k) (.of p) :=
      h hon _ hentry
    rw [record_eq _ ((hbegun Uapi.noConfusion).2 k hk)] at hscreen
    exact hscreen
  · intro hcov hon x hx
    change Screened s.eng s.netmaps (record s.programmedBy c cmd x.2) x.1
    rcases Device.mem_allowedIPs_exec hx with ⟨hold, hcmd⟩ | ⟨p, k, rfl, hk, rfl⟩
    · have hnumber := (hbegun hcmd).1 x hold
      rw [record_eq cmd hnumber, ← hnumber]
      exact hs hon x hold
    · rw [record_eq _ ((hbegun Uapi.noConfusion).2 k hk)]
      exact hcov hon c p cmds hipc (by simp [hk])

/-- A filter of the last netmap screens everything. -/
theorem screenedInv_filters (hinv : SessionInv s) (hs : ScreenedInv s) {nm : Proto.NetMap}
    (hnm : s.filtering = some nm) :
    ScreenedInv { s with eng := s.eng.setFilter nm.compiled, filtering := none } := by
  intro hon x hx
  change Screened (s.eng.setFilter nm.compiled) s.netmaps (s.programmedBy x.2) x.1
  rcases s.eng.setFilter_cases nm.compiled with hsame | hinstalled
  · rw [hsame] at hx ⊢
    exact hs hon x hx
  · exact .inl ⟨nm, mem_drop_of_getLast (hinv.programmed_le x.2) (hinv.filtering nm hnm),
      hinstalled⟩

/-- **The condition is exact**: a step keeps the ranges screened just when it is covered. -/
theorem screenedInv_step_iff (hinv : SessionInv s) (hs : ScreenedInv s) (op : EngineOp) :
    ScreenedInv (s.step equalFold op) ↔ Covered s op := by
  cases op with
  | applyNetMap nm order order' =>
    rw [EngineSession.step, Covered]
    split_ifs with happ
    · simp [happ, hs]
    · rw [Bool.not_eq_true] at happ
      simp only [happ, forall_const]
      exact screenedInv_applies hs
  | onPathUpdate u => exact iff_of_true hs trivial
  | relay up => exact iff_of_true hs trivial
  | setExitNode name order order' =>
    simp only [EngineSession.step, Covered]
    split_ifs
    · exact iff_of_true hs trivial
    · exact iff_of_true hs trivial
  | syncPeers order => exact iff_of_true hs trivial
  | ipcSet i =>
    rw [EngineSession.step]
    split
    · exact iff_of_true hs trivial
    · exact iff_of_true hs trivial
  | exec =>
    rw [EngineSession.step]
    split
    · next hipc =>
      refine iff_of_true hs ?_
      intro _ c p cmds hipc'
      rw [hipc] at hipc'
      cases hipc'
    · next c hipc =>
      refine iff_of_true hs ?_
      intro _ c' p cmds hipc'
      rw [hipc] at hipc'
      cases hipc'
    · next c cmd cmds hipc => exact screenedInv_exec hinv hs hipc
  | fail =>
    rw [EngineSession.step]
    split
    · exact iff_of_true hs trivial
    · exact iff_of_true hs trivial
  | setFilter =>
    rw [EngineSession.step]
    split
    · exact iff_of_true hs trivial
    · next nm hnm => exact iff_of_true (screenedInv_filters hinv hs hnm) trivial

end Screened

/-- **When peers are guarded**: in every state of a run of a session, of the daemon or the mobile
core, over either engine, what peers send is delivered only under the filter of the netmap that
programmed them or of a later one, just when every step of the run is covered. -/
theorem guarded_iff_covered (equalFold : String → String → Bool) (app : App) (kind : EngineKind)
    (d : Daemon) (ops : List EngineOp) :
    (∀ ops', ops' <+: ops →
        Guarded (run (EngineSession.step equalFold) (.start app kind d) ops')) ↔
      Along (EngineSession.step equalFold) Covered (.start app kind d) ops := by
  have hstart : SessionInv (.start app kind d) := .start app kind d
  rw [← forall_prefix_iff_along hstart (P := ScreenedInv)
    (fun _ x hx => absurd hx List.not_mem_nil)
    (fun s op hs => hs.step op) (fun s op hinv hs => screenedInv_step_iff hinv hs op)]
  have hinv : ∀ ops', SessionInv
      (run (EngineSession.step equalFold) (.start app kind d) ops') :=
    run_induction hstart fun s op hs => hs.step op
  exact forall₂_congr fun ops' _ => guarded_iff_screened (hinv ops')

/-! ### A session that begins

The first netmap has filtering on and no rules, so nothing is allowed. -/

/-- The netmap. -/
def closedNetMap : Proto.NetMap := { Daemon.sampleNetMap [] with filterEnabled := true }

/-- The gateway's key. -/
def gatewayKey : Bytes32 := ⟨List.replicate 32 2, rfl⟩

/-- An echo request of the gateway. -/
def gatewayPacket : List UInt8 :=
  [0x45, 0, 0, 28, 0, 0, 0, 0, 64, 1, 0, 0, 10, 0, 0, 2, 10, 0, 0, 1, 8, 0, 0, 0, 0, 0, 0, 0]

/-- The session up to the command that gives the gateway its address. -/
def gatewayProgrammed : EngineSession :=
  run (EngineSession.step fun s t => s = t) (.start .daemon .userspace (.new ""))
    [.applyNetMap closedNetMap [] [], .ipcSet 0, .exec, .exec, .exec, .exec]

theorem not_guarded_of_nil {s : EngineSession} {nm : Proto.NetMap} {k : Bytes32}
    {pkt : List UInt8} {a : Addr} (hnm : nm ∈ s.netmaps) (hon : nm.filterEnabled = true)
    (hnil : s.eng.ftun.f = none) (ha : a ∈ source pkt) (hk : s.eng.dev.accepts k a = true) :
    ¬ Guarded s := by
  intro h
  have hpasses : s.eng.Passes pkt := by
    intro _
    rw [FilterTUN.passes_iff, hnil]
    rfl
  obtain ⟨nm', -, hinstalled, -⟩ := h ⟨nm, hnm, hon⟩ k pkt ⟨⟨a, ha, hk⟩, hpasses⟩
  rw [hinstalled.2] at hnil
  cases hnil

/-- **The gateway is live without a filter**: after the command that gives it its address, and for
good if the device then returns an error, because no call is left that would install the filter. -/
theorem peer_live_unfiltered :
    let s := gatewayProgrammed
    let s' := s.step (fun s t => s = t) .fail
    ¬ Guarded s ∧ ¬ Guarded s' ∧ s'.applying = false ∧ s'.eng.ftun.f = none ∧
      s'.eng.Delivers gatewayKey gatewayPacket ∧
      Filter.allowsPacket (some closedNetMap.compiled) gatewayPacket = false := by
  intro s s'
  have hsource : .v4 0x0a000002 ∈ source gatewayPacket := by decide +kernel
  have hmerged : closedNetMap ∈ s.netmaps := List.mem_singleton_self _
  have haccepts : s.eng.dev.accepts gatewayKey (.v4 0x0a000002) = true := by decide +kernel
  have hpasses : s'.eng.Passes gatewayPacket := fun _ => FilterTUN.passes_iff.mpr rfl
  refine ⟨not_guarded_of_nil hmerged rfl rfl hsource haccepts,
    not_guarded_of_nil (s := s') hmerged rfl rfl hsource haccepts, by decide +kernel, rfl,
    ⟨⟨_, hsource, haccepts⟩, hpasses⟩, by decide +kernel⟩

end OverMesh
