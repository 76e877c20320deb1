import OverMesh.Daemon.Status
import OverMesh.Router.ExitDarwin
import OverMesh.Router.ExitLinux

/-!
# Switching the exit node

`SetExitNode` moves all traffic to another peer, in three places: the selection of the daemon, which
is stored and shown, the peers of the engine, where the exit node gets the default routes, and the
routing of the machine. It writes the selection first, under the lock, and only then finds out
whether there is such a peer, programs the engine and changes the routing. Each of these may be the
end of the call, and none takes back what was written before.

Here a call runs with no other in between. What iterates over the table of peers comes with the
order of the iteration.

## Main definitions

* `ExitDaemon`, `ExitSwitch`, `ExitDaemon.setExitNode`
* `ExitDaemon.Corresponds` — the engine and the routing are those of the selection
* `ExitDaemon.Survives` — the condition on a call that may fail

## Main results

* `Wgengine.Device.hasDefault_ipcSet` — the default route that some lines of a peer set leave
* `ExitDaemon.setExitNode_of_reaches` — how a call ends
* `ExitDaemon.setExitNode_atomic_iff` — **when a call that fails changes nothing**
-/

namespace OverMesh

open Netip Wgengine Router

/-! ### Default routes -/

namespace Wgengine

/-- There is a default route among the lines. -/
def DefaultLine (cmds : List Uapi) : Prop := ∃ p, Uapi.allowedIP p ∈ cmds ∧ p.bits = 0

theorem defaultLine_append {cmds cmds' : List Uapi} :
    DefaultLine (cmds ++ cmds') ↔ DefaultLine cmds ∨ DefaultLine cmds' := by
  simp only [DefaultLine, List.mem_append, or_and_right, exists_or]

/-- The lines that set something for the current peer and take nothing away. -/
def Uapi.isSetting : Uapi → Bool
  | .allowedIP _ | .endpoint _ | .persistentKeepalive _ => true
  | .replacePeers | .publicKey _ | .replaceAllowedIPs => false

namespace Device

variable {dev : Device} {k : Key.Bytes32}

/-- The table of the engine has a default route. -/
def hasDefault (dev : Device) : Bool := dev.allowedIPs.any (·.1.bits = 0)

theorem hasDefault_iff : dev.hasDefault = true ↔ ∃ x ∈ dev.allowedIPs, x.1.bits = 0 := by
  simp [hasDefault]

theorem hasDefault_insert (t : List (Canonical × Key.Bytes32)) (p : Prefix) :
    (∃ x ∈ PrefixTable.insert t (.of p) k, x.1.bits = 0) ↔
      (∃ x ∈ t, x.1.bits = 0) ∨ p.bits = 0 := by
  constructor
  · rintro ⟨x, hx, hbits⟩
    rcases PrefixTable.mem_insert.mp hx with ⟨hold, -⟩ | rfl
    · exact .inl ⟨x, hold, hbits⟩
    · exact .inr hbits
  · intro h
    by_cases hp : p.bits = 0
    · exact ⟨(.of p, k), PrefixTable.mem_insert.mpr (.inr rfl), hp⟩
    · obtain ⟨x, hx, hbits⟩ := h.resolve_right hp
      refine ⟨x, PrefixTable.mem_insert.mpr (.inl ⟨hx, ?_⟩), hbits⟩
      intro heq
      rw [heq] at hbits
      exact hp hbits

/-- What is set for a peer adds its default routes. -/
theorem foldl_exec_settings {cmds : List Uapi} (hcmds : ∀ c ∈ cmds, c.isSetting = true)
    (hk : dev.current = some k) :
    ((cmds.foldl exec dev).hasDefault = true ↔ dev.hasDefault = true ∨ DefaultLine cmds) ∧
      ∀ x ∈ (cmds.foldl exec dev).allowedIPs, x ∈ dev.allowedIPs ∨ x.2 = k := by
  induction cmds generalizing dev with
  | nil => exact ⟨by simp [DefaultLine], fun x hx => .inl hx⟩
  | cons c cmds ih =>
    obtain ⟨hc, hcmds⟩ := List.forall_mem_cons.mp hcmds
    -- one line sets a default route, or leaves the table
    have hone : ((dev.exec c).hasDefault = true ↔ dev.hasDefault = true ∨ DefaultLine [c]) ∧
        (dev.exec c).current = some k ∧
          ∀ x ∈ (dev.exec c).allowedIPs, x ∈ dev.allowedIPs ∨ x.2 = k := by
      cases c with
      | replacePeers | publicKey k | replaceAllowedIPs => cases hc
      | allowedIP p =>
        simp only [exec, hk, hasDefault_iff, hasDefault_insert, DefaultLine, List.mem_singleton]
        refine ⟨by simp, trivial, fun x hx => ?_⟩
        rcases PrefixTable.mem_insert.mp hx with ⟨hold, -⟩ | rfl
        · exact .inl hold
        · exact .inr rfl
      | endpoint e | persistentKeepalive n =>
        simp only [exec, hk]
        exact ⟨by simp [hasDefault, modify, DefaultLine], hk, fun x hx => .inl hx⟩
    obtain ⟨hdefault, hcurrent, hkeys⟩ := hone
    obtain ⟨hrest, hkeys'⟩ := ih hcmds hcurrent
    rw [List.foldl_cons]
    refine ⟨?_, fun x hx => ?_⟩
    · rw [hrest, hdefault, or_assoc, ← defaultLine_append, List.singleton_append]
    · exact (hkeys' x hx).elim (hkeys x) .inr

/-- Some lines of a peer that has nothing in the table add its default routes among them. -/
theorem foldl_exec_take_uapiPeer {c : PeerConfig}
    (hfresh : ∀ x ∈ dev.allowedIPs, x.2 ≠ c.publicKey) (n : ℕ) :
    ((((uapiPeer c).take n).foldl exec dev).hasDefault = true ↔
        dev.hasDefault = true ∨ DefaultLine ((uapiPeer c).take n)) ∧
      ∀ x ∈ (((uapiPeer c).take n).foldl exec dev).allowedIPs,
        x ∈ dev.allowedIPs ∨ x.2 = c.publicKey := by
  rcases n with _ | _ | n
  · exact ⟨by simp [DefaultLine], fun x hx => .inl hx⟩
  · simp only [zero_add, uapiPeer, List.cons_append, List.take_succ_cons, List.take_zero,
      List.foldl_cons, List.foldl_nil]
    exact ⟨by simp [exec, hasDefault, DefaultLine], fun x hx => .inl hx⟩
  · have hkept : PrefixTable.remove dev.allowedIPs c.publicKey = dev.allowedIPs :=
      List.filter_eq_self.mpr fun x hx => by simpa using hfresh x hx
    have hsettings : ∀ cmd ∈ (c.allowedIPs.map Uapi.allowedIP ++
        (PeerConfig.dst c).toList.map Uapi.endpoint ++
          [Uapi.persistentKeepalive keepaliveSeconds]).take n, cmd.isSetting = true := by
      intro cmd hcmd
      have hmem := List.mem_of_mem_take hcmd
      simp only [List.mem_append, List.mem_map, List.mem_singleton] at hmem
      rcases hmem with (⟨p, -, rfl⟩ | ⟨e, -, rfl⟩) | rfl <;> rfl
    have hcurrent : ((dev.exec (.publicKey c.publicKey)).exec .replaceAllowedIPs).current =
        some c.publicKey := rfl
    obtain ⟨hdefault, hkeys⟩ := foldl_exec_settings hsettings hcurrent
    simp only [exec, hkept] at hdefault hkeys
    simp only [uapiPeer, List.cons_append, List.nil_append, List.take_succ_cons, List.foldl_cons,
      exec, hkept]
    refine ⟨hdefault.trans (or_congr_right ?_), hkeys⟩
    simp [DefaultLine]

/-- Some lines of a list of peers. -/
theorem hasDefault_take_peers {cfgs : List PeerConfig} (hkeys : (cfgs.map (·.publicKey)).Nodup)
    (hfresh : ∀ x ∈ dev.allowedIPs, ∀ c ∈ cfgs, x.2 ≠ c.publicKey) (n : ℕ) :
    ((((cfgs.flatMap uapiPeer).take n).foldl exec dev).hasDefault = true ↔
      dev.hasDefault = true ∨ DefaultLine ((cfgs.flatMap uapiPeer).take n)) := by
  induction cfgs generalizing dev n with
  | nil => simp [DefaultLine]
  | cons c cfgs ih =>
    obtain ⟨hc, hkeys⟩ := List.nodup_cons.mp hkeys
    obtain ⟨hdefault, hkept⟩ := foldl_exec_take_uapiPeer
      (fun x hx => hfresh x hx c List.mem_cons_self) n
    rw [List.flatMap_cons, List.take_append, List.foldl_append, ih hkeys, hdefault,
      defaultLine_append, or_assoc]
    intro x hx c' hc'
    rcases hkept x hx with hold | hnew
    · exact hfresh x hold c' (List.mem_cons_of_mem c hc')
    · rintro heq
      exact hc (List.mem_map.mpr ⟨c', hc', heq.symm.trans hnew⟩)

/-- **The default route that some lines of a peer set leave**, if no key is given twice. -/
theorem hasDefault_ipcSet {cfgs : List PeerConfig} (hkeys : (cfgs.map (·.publicKey)).Nodup)
    (n : ℕ) : (dev.ipcSet ((uapiPeersConfig cfgs).take (n + 1))).hasDefault = true ↔
      DefaultLine ((uapiPeersConfig cfgs).take (n + 1)) := by
  rw [ipcSet, uapiPeersConfig, List.take_succ_cons, List.foldl_cons, hasDefault_take_peers hkeys]
  · simp [exec, hasDefault, DefaultLine]
  · intro x hx
    cases hx

theorem hasDefault_setPeers {cfgs : List PeerConfig} (hkeys : (cfgs.map (·.publicKey)).Nodup) :
    (dev.setPeers cfgs).hasDefault = true ↔ DefaultLine (uapiPeersConfig cfgs) := by
  rw [setPeers, ← List.take_length (l := uapiPeersConfig cfgs)]
  exact hasDefault_ipcSet hkeys (cfgs.flatMap uapiPeer).length

end Device

end Wgengine

/-- What is shown of the exit node and what is shown of the peers are different fields. -/
theorem Status.update_eq_iff {st : Status} {relay exitNode : String} {active : Bool}
    {peers : List PeerStatus} :
    { st with relay := relay, peers := peers, exitNode := exitNode, exitNodeActive := active } =
        st ↔
      st.exitNode = exitNode ∧ st.exitNodeActive = active ∧
        { st with relay := relay, peers := peers } = st := by
  cases st
  simp only [Status.mk.injEq, true_and]
  constructor
  · rintro ⟨hrelay, hname, hactive, hpeers⟩
    exact ⟨hname.symm, hactive.symm, hrelay, hpeers⟩
  · rintro ⟨hname, hactive, hrelay, hpeers⟩
    exact ⟨hrelay, hname.symm, hactive.symm, hpeers⟩

/-! ### The routing of the machine -/

/-- What the machine does during a call: which commands of `ip` fail, when routes are taken for one,
and what `route get default` prints. -/
structure Machine where
  fails : Linux.IpCommand → Bool
  matching : Darwin.Matching
  out4 : Option String
  out6 : Option String

/-- The `ExitClient` of the platform, once the session has made it, with the system it acts on. On
other platforms its `Remove` does nothing, and `Apply` is not reached. -/
inductive ExitCli where
  | linux (ec : Option Linux.ExitSystem)
  | darwin (ec : Option Darwin.ExitSystem)
  | other

namespace ExitCli

/-- The platform. -/
def goos : ExitCli → Goos
  | .linux _ => .linux
  | .darwin _ => .darwin
  | .other => .other

/-- There is no client to call. -/
def isNil : ExitCli → Bool
  | .linux ec => ec.isNone
  | .darwin ec => ec.isNone
  | .other => true

/-- Exit routing is active. -/
def active : ExitCli → Bool
  | .linux (some s) => s.client.active
  | .darwin (some s) => s.client.active
  | _ => false

/-- `Apply`, with the error it returns as `false`. -/
def apply (m : Machine) (iface : String) (v6 : Bool) : ExitCli → Bool × ExitCli
  | .linux (some s) => ((s.apply m.fails iface v6).1.isNone, .linux (s.apply m.fails iface v6).2)
  | .darwin (some s) =>
    ((s.apply m.matching iface v6 m.out4 m.out6).1,
      .darwin (s.apply m.matching iface v6 m.out4 m.out6).2)
  | ec => (true, ec)

/-- When `Apply` succeeds: the commands for IPv4 do not fail, or there is a gateway. -/
def Applies (m : Machine) (iface : String) (v6 : Bool) : ExitCli → Prop
  | .linux (some s) => s.Applies m.fails iface
  | .darwin (some s) => s.client.active = true ∧ s.client.iface = iface ∧ s.client.v6 = v6 ∨
      Darwin.defaultGateway m.out4 ≠ none
  | _ => True

/-- `Remove`. -/
def remove (m : Machine) : ExitCli → ExitCli
  | .linux (some s) => .linux (s.remove m.fails)
  | .darwin (some s) => .darwin (s.remove m.matching)
  | ec => ec

end ExitCli

theorem ExitCli.apply_iff {m : Machine} {iface : String} {v6 : Bool} {ec : ExitCli} :
    (ec.apply m iface v6).1 = true ↔ ec.Applies m iface v6 := by
  rcases ec with (_ | s) | (_ | s) | _
  · exact ⟨fun _ => trivial, fun _ => rfl⟩
  · exact Option.isNone_iff_eq_none.trans (Linux.ExitSystem.apply_eq_none_iff v6)
  · exact ⟨fun _ => trivial, fun _ => rfl⟩
  · simp only [apply, Applies, Darwin.ExitSystem.apply]
    split_ifs with hsame
    · exact ⟨fun _ => .inl hsame, fun _ => rfl⟩
    · cases Darwin.defaultGateway m.out4 <;> simp [hsame]
  · exact ⟨fun _ => trivial, fun _ => rfl⟩

theorem ExitCli.isNil_of_not_applies {m : Machine} {iface : String} {v6 : Bool} {ec : ExitCli}
    (h : ¬ ec.Applies m iface v6) : ec.isNil = false := by
  rcases ec with (_ | s) | (_ | s) | _ <;> first | rfl | exact absurd trivial h

theorem ExitCli.apply_of_error {m : Machine} {iface : String} {v6 : Bool} {ec : ExitCli}
    (h : (ec.apply m iface v6).1 = false) :
    ec.goos = .linux ∧ (ec.apply m iface v6).2.active = false ∨
      ec.goos = .darwin ∧ (ec.apply m iface v6).2 = ec := by
  rcases ec with (_ | s) | (_ | s) | _
  · cases h
  · exact .inl ⟨rfl, Linux.ExitSystem.active_apply_of_error h⟩
  · cases h
  · have hsame := Darwin.ExitSystem.apply_eq_of_error h
    exact .inr ⟨rfl, congrArg (fun s => ExitCli.darwin (some s)) hsame⟩
  · cases h

/-! ### The call -/

/-- The daemon. `up` says that there is a session, `saved` is the file. The engine has a name. -/
structure ExitDaemon where
  up : Bool
  d : Daemon
  links : Links
  state : State
  saved : State
  status : Status
  engine : Option (String × Device)
  exitCli : ExitCli

/-- A call, with what happens during it: the orders of the iterations, whether the file is written,
and how many lines the engine takes if it fails. -/
structure ExitSwitch where
  name : String
  selecting : List PeerInfo
  configs : List PeerInfo
  shown : List PeerInfo
  saves : Bool
  stop : Option ℕ
  machine : Machine

/-- The errors. -/
inductive ExitError where
  | unsupported
  | notUp
  | noExitNode (name : String)
  | setPeers
  | exitRouting
  deriving DecidableEq

/-- The text of an error. `quote` is the `%q` verb, the others are the texts of the engine and of
the client. -/
def ExitError.message (quote : String → String) (engine client : String) : ExitError → String
  | .unsupported => "using an exit node is only supported on Linux and macOS for now"
  | .notUp => "not up"
  | .noExitNode name => "no approved exit node named " ++ quote name ++
      " in the netmap (approve its exit route in the web UI first)"
  | .setPeers => engine
  | .exitRouting => client

/-- How a call ends. -/
inductive ExitReply where
  | ok
  | error (e : ExitError)
  /-- The name of an engine is asked for that is not there. -/
  | panics
  deriving DecidableEq

namespace ExitDaemon

variable (equalFold : String → String → Bool)

/-- The critical section of `SetExitNode`. -/
def select (s : ExitDaemon) (c : ExitSwitch) : ExitDaemon :=
  let d := Daemon.selectExitPeerLocked equalFold { s.d with exitNode := c.name } c.selecting
  let state := { s.state with exitNode := c.name }
  { s with
    d := d
    state := state
    saved := if c.saves then state else s.saved
    status := d.refreshPeerStatusLocked s.links c.shown
      { s.status with exitNode := c.name, exitNodeActive := d.exitPeerID ≠ 0 } }

/-- The peer with this id has an exit route for IPv6. -/
def exitV6 (s : ExitDaemon) (id : ℕ) : Bool :=
  match s.d.peers.find? (·.nodeID = id) with
  | none => false
  | some pi => hasV6 pi.exitRoutes

/-- `SetPeers` on the engine, if there is one, with the error as `false`. -/
def setPeers (s : ExitDaemon) (c : ExitSwitch) : Bool × ExitDaemon :=
  match s.engine with
  | none => (true, s)
  | some (iface, dev) =>
    let cfgs := s.d.buildPeerConfigsLocked c.configs
    match c.stop with
    | none => (true, { s with engine := some (iface, dev.setPeers cfgs) })
    | some k =>
      (false, { s with engine := some (iface, dev.ipcSet ((uapiPeersConfig cfgs).take k)) })

/-- The end of `SetExitNode`. -/
def route (s : ExitDaemon) (c : ExitSwitch) : ExitReply × ExitDaemon :=
  if s.exitCli.isNil then (.ok, s)
  else if s.d.exitPeerID ≠ 0 then
    match s.engine with
    | none => (.panics, s)
    | some (iface, _) =>
      let r := s.exitCli.apply c.machine iface (s.exitV6 s.d.exitPeerID)
      (if r.1 then .ok else .error .exitRouting, { s with exitCli := r.2 })
  else (.ok, { s with exitCli := s.exitCli.remove c.machine })

/-- `SetExitNode`. -/
def setExitNode (s : ExitDaemon) (c : ExitSwitch) : ExitReply × ExitDaemon :=
  if c.name ≠ "" ∧ s.exitCli.goos = .other then (.error .unsupported, s)
  else if s.up = false then (.error .notUp, s)
  else
    let s := s.select equalFold c
    if c.name ≠ "" ∧ s.d.exitPeerID = 0 then (.error (.noExitNode c.name), s)
    else
      let r := s.setPeers c
      if r.1 then r.2.route c else (.error .setPeers, r.2)

/-! ### What is asked of it -/

/-- What the daemon keeps, stores and shows is as it was. -/
structure Unchanged (s s' : ExitDaemon) : Prop where
  exitNode : s'.d.exitNode = s.d.exitNode
  state : s'.state.exitNode = s.state.exitNode
  saved : s'.saved.exitNode = s.saved.exitNode
  exitPeerID : s'.d.exitPeerID = s.d.exitPeerID
  status : s'.status = s.status

/-- The engine has a default route. -/
def hasDefault (s : ExitDaemon) : Bool :=
  match s.engine with
  | none => false
  | some (_, dev) => dev.hasDefault

/-- There is a default route in the engine just when exit routing is active, and it is active just
when there is an exit node. -/
structure Corresponds (s : ExitDaemon) : Prop where
  routes : s.hasDefault = true ↔ s.exitCli.active = true
  selected : s.exitCli.active = true ↔ s.d.exitPeerID ≠ 0

/-- The call gets as far as the selection. -/
def Reaches (s : ExitDaemon) (c : ExitSwitch) : Prop :=
  ¬(c.name ≠ "" ∧ s.exitCli.goos = .other) ∧ s.up = true

/-- The id of the first peer with the name that has exit routes, or 0. -/
def peerID (c : ExitSwitch) : ℕ :=
  if c.name = "" then 0
  else (c.selecting.find? fun pi => equalFold pi.hostname c.name ∧ pi.exitRoutes ≠ []).elim 0
    (·.nodeID)

/-- The call asks for what was asked for before, the name is that of the peer that is selected, and
the peers are shown as they are. -/
structure Reselects (s : ExitDaemon) (c : ExitSwitch) : Prop where
  exitNode : s.d.exitNode = c.name
  state : s.state.exitNode = c.name
  saved : c.saves = true → s.saved.exitNode = c.name
  exitPeerID : s.d.exitPeerID = peerID equalFold c
  name : s.status.exitNode = c.name
  active : s.status.exitNodeActive = decide (peerID equalFold c ≠ 0)
  shown : s.d.refreshPeerStatusLocked s.links c.shown s.status = s.status

/-- The lines of the peer set, for the peer that is selected. -/
def peerLines (s : ExitDaemon) (c : ExitSwitch) : List Uapi :=
  uapiPeersConfig (s.d.buildPeerConfigsLocked c.configs)

/-- When a call that fails has changed nothing, by what makes it fail: that no peer has the name,
that the engine takes only some lines, or that the routing cannot be changed. -/
structure Survives (s : ExitDaemon) (c : ExitSwitch) : Prop where
  unnamed : c.name ≠ "" → peerID equalFold c = 0 → s.Reselects equalFold c
  engine : (c.name = "" ∨ peerID equalFold c ≠ 0) → s.engine.isSome = true → ∀ k ∈ c.stop,
    s.Reselects equalFold c ∧
      (s.Corresponds → k = 0 ∨ (DefaultLine ((s.peerLines c).take k) ↔ s.hasDefault = true))
  routing : peerID equalFold c ≠ 0 → c.stop = none → ∀ e ∈ s.engine,
    ¬ s.exitCli.Applies c.machine e.1 (s.exitV6 (peerID equalFold c)) →
      s.Reselects equalFold c ∧
        (s.Corresponds → s.exitCli.goos = .darwin ∧ DefaultLine (s.peerLines c))

variable {equalFold} {s : ExitDaemon} {c : ExitSwitch}

/-! ### What a call does -/

theorem exitPeerID_select : (s.select equalFold c).d.exitPeerID = peerID equalFold c := by
  simp only [select, Daemon.selectExitPeerLocked, peerID]
  cases c.selecting.find? fun pi => equalFold pi.hostname c.name ∧ pi.exitRoutes ≠ [] <;> rfl

/-- A call that does not get as far as the selection changes nothing. -/
theorem setExitNode_of_not_reaches (h : ¬ s.Reaches c) : (s.setExitNode equalFold c).2 = s := by
  rw [setExitNode]
  split_ifs with hos hup
  · rfl
  · rfl
  · exact absurd ⟨hos, by simpa using hup⟩ h

theorem setExitNode_of_reaches (h : s.Reaches c) : s.setExitNode equalFold c =
      if c.name ≠ "" ∧ peerID equalFold c = 0 then
        (.error (.noExitNode c.name), s.select equalFold c)
      else
        let r := (s.select equalFold c).setPeers c
        if r.1 then r.2.route c else (.error .setPeers, r.2) := by
  rw [setExitNode, if_neg h.1, if_neg (by simp [h.2])]
  simp only [exitPeerID_select]

section Ends

variable {iface : String} {dev : Device} {k : ℕ}

/-- No peer has the name. -/
theorem setExitNode_unnamed (h : s.Reaches c) (hname : c.name ≠ "") (hid : peerID equalFold c = 0) :
    s.setExitNode equalFold c = (.error (.noExitNode c.name), s.select equalFold c) := by
  rw [setExitNode_of_reaches h, if_pos ⟨hname, hid⟩]

/-- The engine takes `k` lines and fails. -/
theorem setExitNode_stopped (h : s.Reaches c) (hsel : c.name = "" ∨ peerID equalFold c ≠ 0)
    (he : s.engine = some (iface, dev)) (hk : c.stop = some k) :
    s.setExitNode equalFold c = (.error .setPeers,
      { s.select equalFold c with
        engine := some (iface, dev.ipcSet (((s.select equalFold c).peerLines c).take k)) }) := by
  have hengine : (s.select equalFold c).engine = some (iface, dev) := he
  rw [setExitNode_of_reaches h, if_neg (by tauto)]
  simp only [setPeers, hengine, hk, peerLines, Bool.false_eq_true, if_false]

/-- The routing cannot be changed. -/
theorem setExitNode_unrouted (h : s.Reaches c) (hid : peerID equalFold c ≠ 0)
    (he : s.engine = some (iface, dev)) (hk : c.stop = none)
    (hnot : ¬ s.exitCli.Applies c.machine iface (s.exitV6 (peerID equalFold c))) :
    s.setExitNode equalFold c = (.error .exitRouting,
      { s.select equalFold c with
        engine := some (iface, dev.ipcSet ((s.select equalFold c).peerLines c))
        exitCli := (s.exitCli.apply c.machine iface (s.exitV6 (peerID equalFold c))).2 }) := by
  have hengine : (s.select equalFold c).engine = some (iface, dev) := he
  have hnil : (s.select equalFold c).exitCli.isNil = false := ExitCli.isNil_of_not_applies hnot
  have hfails : ((s.select equalFold c).exitCli.apply c.machine iface
      ((s.select equalFold c).exitV6 (peerID equalFold c))).1 = false := by
    rwa [← ExitCli.apply_iff, Bool.not_eq_true] at hnot
  rw [setExitNode_of_reaches h, if_neg (by tauto)]
  simp only [setPeers, hengine, hk, if_true, route, hnil, Bool.false_eq_true, if_false,
    exitPeerID_select, if_pos hid, Device.setPeers, peerLines]
  exact Prod.ext (if_neg fun hok => Bool.false_ne_true (hfails.symm.trans hok)) rfl

end Ends

/-- **Why a call fails** that gets as far as the selection. -/
theorem setExitNode_fails {e : ExitError} (h : s.Reaches c)
    (he : (s.setExitNode equalFold c).1 = .error e) : c.name ≠ "" ∧ peerID equalFold c = 0 ∨
      (c.name = "" ∨ peerID equalFold c ≠ 0) ∧ s.engine.isSome = true ∧ c.stop ≠ none ∨
      peerID equalFold c ≠ 0 ∧ c.stop = none ∧ ∃ x ∈ s.engine,
        ¬ s.exitCli.Applies c.machine x.1 (s.exitV6 (peerID equalFold c)) := by
  by_cases hunnamed : c.name ≠ "" ∧ peerID equalFold c = 0
  · exact .inl hunnamed
  have hsel : c.name = "" ∨ peerID equalFold c ≠ 0 := by tauto
  rw [setExitNode_of_reaches h, if_neg hunnamed] at he
  cases hengine : s.engine with
  | none =>
    -- without an engine the call ends well, or in a panic
    have hengine' : (s.select equalFold c).engine = none := hengine
    simp only [setPeers, hengine', if_true, route] at he
    split_ifs at he
  | some x =>
    obtain ⟨iface, dev⟩ := x
    have hengine' : (s.select equalFold c).engine = some (iface, dev) := hengine
    cases hstop : c.stop with
    | some k => exact .inr (.inl ⟨hsel, rfl, by simp⟩)
    | none =>
      simp only [setPeers, hengine', hstop, if_true, route, exitPeerID_select] at he
      split_ifs at he with hnil hid hok
      refine .inr (.inr ⟨hid, rfl, _, rfl, fun happlies => hok ?_⟩)
      exact ExitCli.apply_iff.mpr happlies

/-! ### What it leaves -/

theorem status_select_eq_iff : (s.select equalFold c).status = s.status ↔
    s.status.exitNode = c.name ∧ s.status.exitNodeActive = decide (peerID equalFold c ≠ 0) ∧
      s.d.refreshPeerStatusLocked s.links c.shown s.status = s.status := by
  have hstatus : (s.select equalFold c).status = { s.status with
      relay := (s.d.refreshPeerStatusLocked s.links c.shown s.status).relay
      peers := (s.d.refreshPeerStatusLocked s.links c.shown s.status).peers
      exitNode := c.name
      exitNodeActive := (s.select equalFold c).d.exitPeerID ≠ 0 } := rfl
  rw [hstatus, exitPeerID_select]
  exact Status.update_eq_iff

/-- Selecting writes nothing new just when the call asks for what is there. -/
theorem unchanged_select_iff : Unchanged s (s.select equalFold c) ↔ s.Reselects equalFold c := by
  have hsaved : (s.select equalFold c).saved.exitNode = s.saved.exitNode ↔
      (c.saves = true → s.saved.exitNode = c.name) := by
    rw [select]
    cases c.saves <;> simp [eq_comm]
  constructor
  · intro h
    obtain ⟨hname, hactive, hshown⟩ := status_select_eq_iff.mp h.status
    exact ⟨h.exitNode.symm, h.state.symm, hsaved.mp h.saved,
      h.exitPeerID.symm.trans exitPeerID_select, hname, hactive, hshown⟩
  · intro h
    exact ⟨h.exitNode.symm, h.state.symm, hsaved.mpr h.saved,
      exitPeerID_select.trans h.exitPeerID.symm,
      status_select_eq_iff.mpr ⟨h.name, h.active, h.shown⟩⟩

/-- The engine and the routing do not count for what is stored and shown. -/
theorem unchanged_with_iff (engine : Option (String × Device)) (exitCli : ExitCli) :
    Unchanged s { s.select equalFold c with engine := engine, exitCli := exitCli } ↔
      s.Reselects equalFold c := by
  rw [← unchanged_select_iff]
  exact ⟨fun h => ⟨h.exitNode, h.state, h.saved, h.exitPeerID, h.status⟩,
    fun h => ⟨h.exitNode, h.state, h.saved, h.exitPeerID, h.status⟩⟩

/-- Then the peer set is that of the daemon as it is. -/
theorem Reselects.peerLines_select (h : s.Reselects equalFold c) :
    (s.select equalFold c).peerLines c = s.peerLines c := by
  have hid : (s.select equalFold c).d.exitPeerID = s.d.exitPeerID :=
    exitPeerID_select.trans h.exitPeerID.symm
  have hd : (s.select equalFold c).d =
      { s.d with exitNode := c.name, exitPeerID := (s.select equalFold c).d.exitPeerID } := rfl
  rw [peerLines, hd, hid]
  rfl

/-- While the selection and the routing stay, the default route of the engine has to. -/
theorem Corresponds.iff_hasDefault {s' : ExitDaemon} (h : s.Corresponds)
    (hpeer : s'.d.exitPeerID = s.d.exitPeerID) (hactive : s'.exitCli.active = s.exitCli.active) :
    s'.Corresponds ↔ s'.hasDefault = s.hasDefault := by
  constructor
  · intro h'
    rw [Bool.eq_iff_iff, h'.routes, h.routes, hactive]
  · intro hdefault
    refine ⟨?_, ?_⟩
    · rw [hdefault, hactive]
      exact h.routes
    · rw [hactive, hpeer]
      exact h.selected

/-- No two peers of the configuration have one key. -/
theorem nodup_peerConfigs (d : Daemon) {order : List PeerInfo} (h : (order.map (·.pubKey)).Nodup) :
    ((d.buildPeerConfigsLocked order).map (·.publicKey)).Nodup := by
  rw [Daemon.buildPeerConfigsLocked, List.map_map]
  exact h.sublist (List.filter_sublist.map _)

section Left

variable {iface : String} {dev : Device} {k : ℕ}

theorem left_unnamed_iff :
    Unchanged s (s.select equalFold c) ∧ (s.Corresponds → (s.select equalFold c).Corresponds) ↔
      s.Reselects equalFold c := by
  refine (and_congr_left' unchanged_select_iff).trans ⟨And.left, fun h => ⟨h, fun hc => ?_⟩⟩
  exact (hc.iff_hasDefault (exitPeerID_select.trans h.exitPeerID.symm) rfl).mpr rfl

theorem left_stopped_iff (hkeys : (c.configs.map (·.pubKey)).Nodup)
    (he : s.engine = some (iface, dev)) : (let s' := { s.select equalFold c with
      engine := some (iface, dev.ipcSet (((s.select equalFold c).peerLines c).take k)) }
    Unchanged s s' ∧ (s.Corresponds → s'.Corresponds)) ↔
      s.Reselects equalFold c ∧
        (s.Corresponds → k = 0 ∨ (DefaultLine ((s.peerLines c).take k) ↔ s.hasDefault = true)) := by
  refine (and_congr_left' (unchanged_with_iff _ s.exitCli)).trans ?_
  refine and_congr_right fun h => forall_congr' fun hc => ?_
  refine (hc.iff_hasDefault ?_ ?_).trans ?_
  · exact exitPeerID_select.trans h.exitPeerID.symm
  · rfl
  rw [h.peerLines_select]
  cases k with
  | zero =>
    refine iff_of_true ?_ (.inl rfl)
    simp only [hasDefault, he]
    rfl
  | succ k =>
    rw [Bool.eq_iff_iff, or_iff_right (Nat.succ_ne_zero k)]
    exact iff_congr (Device.hasDefault_ipcSet (nodup_peerConfigs s.d hkeys) k) Iff.rfl

theorem left_unrouted_iff (hkeys : (c.configs.map (·.pubKey)).Nodup)
    (hid : peerID equalFold c ≠ 0) {v6 : Bool} (hnot : ¬ s.exitCli.Applies c.machine iface v6) :
    (let s' := { s.select equalFold c with
      engine := some (iface, dev.ipcSet ((s.select equalFold c).peerLines c))
      exitCli := (s.exitCli.apply c.machine iface v6).2 }
    Unchanged s s' ∧ (s.Corresponds → s'.Corresponds)) ↔
      s.Reselects equalFold c ∧
        (s.Corresponds → s.exitCli.goos = .darwin ∧ DefaultLine (s.peerLines c)) := by
  refine (and_congr_left' (unchanged_with_iff _ _)).trans ?_
  refine and_congr_right fun h => forall_congr' fun hc => ?_
  have hfails : (s.exitCli.apply c.machine iface v6).1 = false := by
    rwa [← ExitCli.apply_iff, Bool.not_eq_true] at hnot
  have hselected : s.d.exitPeerID ≠ 0 := h.exitPeerID ▸ hid
  rcases ExitCli.apply_of_error hfails with ⟨hos, hactive⟩ | ⟨hos, hsame⟩
  · -- the client of Linux takes the routing down before it fails
    refine ⟨fun hc' => ?_, fun hdarwin => ?_⟩
    · exact absurd (hc'.selected.mpr (exitPeerID_select.trans_ne hid))
        (Bool.eq_false_iff.mp hactive)
    · exact absurd (hos.symm.trans hdarwin.1) (by decide)
  · have hdefault : s.hasDefault = true := hc.routes.mpr (hc.selected.mpr hselected)
    rw [hsame]
    refine (hc.iff_hasDefault ?_ ?_).trans ?_
    · exact exitPeerID_select.trans h.exitPeerID.symm
    · rfl
    rw [hdefault, h.peerLines_select]
    refine (Device.hasDefault_setPeers (nodup_peerConfigs s.d hkeys)).trans ?_
    exact ⟨fun hline => ⟨hos, hline⟩, And.right⟩

end Left

/-- **When a call that fails changes nothing**, and leaves the engine and the routing in step with
the selection. If it gets as far as to select and no peer has the name, it has to ask for what is
selected, stored and shown already, and so it has to if the engine or the routing fails. The lines
that a failing engine has taken moreover have to be none, or to have a default route just when there
was one. Where the routing fails, the client has to be the one of macOS, and the lines to have a
default route. -/
theorem setExitNode_atomic_iff (equalFold : String → String → Bool) (s : ExitDaemon)
    (c : ExitSwitch) (hkeys : (c.configs.map (·.pubKey)).Nodup) :
    (∀ e, (s.setExitNode equalFold c).1 = .error e →
      Unchanged s (s.setExitNode equalFold c).2 ∧
        (s.Corresponds → (s.setExitNode equalFold c).2.Corresponds)) ↔
    (s.Reaches c → s.Survives equalFold c) := by
  by_cases hr : s.Reaches c
  · rw [forall_prop_of_true hr]
    constructor
    · intro h
      refine ⟨fun hname hid => ?_, fun hsel he k hk => ?_, fun hid hk x hx hnot => ?_⟩
      · rw [setExitNode_unnamed hr hname hid] at h
        exact left_unnamed_iff.mp (h _ rfl)
      · obtain ⟨⟨iface, dev⟩, he⟩ := Option.isSome_iff_exists.mp he
        rw [setExitNode_stopped hr hsel he hk] at h
        exact (left_stopped_iff hkeys he).mp (h _ rfl)
      · rw [setExitNode_unrouted hr hid hx hk hnot] at h
        exact (left_unrouted_iff hkeys hid hnot).mp (h _ rfl)
    · intro hs e he
      rcases setExitNode_fails hr he with ⟨hname, hid⟩ | ⟨hsel, heng, hstop⟩ |
        ⟨hid, hk, x, hx, hnot⟩
      · rw [setExitNode_unnamed hr hname hid]
        exact left_unnamed_iff.mpr (hs.unnamed hname hid)
      · obtain ⟨⟨iface, dev⟩, heng'⟩ := Option.isSome_iff_exists.mp heng
        obtain ⟨k, hk⟩ := Option.ne_none_iff_exists'.mp hstop
        rw [setExitNode_stopped hr hsel heng' hk]
        exact (left_stopped_iff hkeys heng').mpr (hs.engine hsel heng k hk)
      · rw [setExitNode_unrouted hr hid hx hk hnot]
        exact (left_unrouted_iff hkeys hid hnot).mpr (hs.routing hid hk x hx hnot)
  · rw [setExitNode_of_not_reaches hr]
    exact ⟨fun _ hr' => absurd hr' hr, fun _ _ _ => ⟨⟨rfl, rfl, rfl, rfl, rfl⟩, id⟩⟩

/-- `gw` is the exit node of a machine with Linux. -/
def sampleGateway : PeerInfo :=
  { PeerInfo.fresh 7 with
    hostname := "gw"
    online := true
    staticEPs := ["192.0.2.7:51820"]
    exitRoutes := (parsePrefix "0.0.0.0/0").toList }

/-- The call that has selected it, and one for a name that is not there. -/
def sampleSwitch (name : String) : ExitSwitch where
  name := name
  selecting := [sampleGateway]
  configs := [sampleGateway]
  shown := [sampleGateway]
  saves := true
  stop := none
  machine := ⟨Commands.never, .byRoute, none, none⟩

/-- The daemon before any selection. -/
def sampleBefore : ExitDaemon where
  up := true
  d := ⟨[sampleGateway], List.nodup_singleton _, "", 0, false⟩
  links := ⟨"", true, fun _ => 0⟩
  state := ⟨"mesh:41641", true, false, [], ""⟩
  saved := ⟨"mesh:41641", true, false, [], ""⟩
  status := { version := "v", running := true }
  engine := some ("om0", .empty)
  exitCli := .linux (some (Linux.ExitSystem.new fun _ => none))

/-- `gw` is selected once more, and the engine fails before the first line. -/
theorem setExitNode_keeps :
    let s := (sampleBefore.setExitNode (· == ·) (sampleSwitch "gw")).2
    let r := s.setExitNode (· == ·) { sampleSwitch "gw" with stop := some 0 }
    r.1 = .error .setPeers ∧ Unchanged s r.2 := by
  intro s r
  have hreply : r.1 = .error .setPeers := by decide +kernel
  have hid : peerID (· == ·) { sampleSwitch "gw" with stop := some 0 } = 7 := by decide +kernel
  refine ⟨hreply, ((setExitNode_atomic_iff (· == ·) s { sampleSwitch "gw" with stop := some 0 }
    (List.nodup_singleton _)).mpr (fun _ => ⟨?_, ?_, ?_⟩) _ hreply).1⟩
  · intro _ hzero
    exact absurd (hid.symm.trans hzero) (by decide)
  · rintro - - k ⟨⟩
    exact ⟨⟨rfl, rfl, fun _ => rfl, rfl, rfl, rfl, rfl⟩, fun _ => .inl rfl⟩
  · intro _ hstop
    cases hstop

/-- `gw` is selected, and then a name that is not there. The call fails, and the daemon has
forgotten `gw`, while the engine and the routing still send everything to it. -/
theorem setExitNode_forgets :
    let s := (sampleBefore.setExitNode (· == ·) (sampleSwitch "gw")).2
    let r := s.setExitNode (· == ·) (sampleSwitch "gv")
    r.1 = .error (.noExitNode "gv") ∧
      (s.d.exitNode, s.d.exitPeerID, s.saved.exitNode, s.hasDefault, s.exitCli.active) =
        ("gw", 7, "gw", true, true) ∧
      (r.2.d.exitNode, r.2.d.exitPeerID, r.2.saved.exitNode, r.2.hasDefault, r.2.exitCli.active) =
        ("gv", 0, "gv", true, true) := by
  decide +kernel

end ExitDaemon

end OverMesh
