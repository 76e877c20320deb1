import OverMesh.Daemon.Status
import OverMesh.Internal.Runs

/-!
# Joining the mesh

`Up` registers with a coordination server and starts a session. Whether it speaks TLS is decided by
an explicit request, or else by the last choice for the server, or else by a flag of the daemon. The
decision goes into the stored state before anything is known of the outcome, because `dial` reads it
there. The rest of the state is written once the server has answered.

So a join that fails leaves its decision behind, and the next one to the server of the state takes
it for the last choice.

## Main results

* `UpDaemon.step_of_fails` — what a join that fails leaves behind
* `UpDaemon.failed_up_iff` — **when joins that fail leave no trace**
-/

namespace OverMesh

open Netip GoText Runs

/-! ### The address of the server -/

/-- `net.SplitHostPort`. -/
def splitHostPort (s : List Char) : Option (List Char × List Char) :=
  (cutLast ':' s).bind fun (before, port) =>
    match s with
    | '[' :: rest =>
      -- The first `]` has to stand right before the last `:`.
      (cut ']' rest).2.bind fun tail =>
        if tail.length = port.length + 1 ∧ '[' ∉ rest ∧ ']' ∉ tail then
          some ((cut ']' rest).1, port)
        else none
    | _ => if ':' ∈ before ∨ '[' ∈ s ∨ ']' ∈ s then none else some (before, port)

/-- `net.JoinHostPort`. -/
def joinHostPort (host port : String) : String :=
  if ':' ∈ host.toList then "[" ++ host ++ "]:" ++ port else host ++ ":" ++ port

/-- The server with its port. A bare name means the default port. -/
def serverAddr (server : String) : String :=
  if (splitHostPort server.toList).isNone ∧ ':' ∉ server.toList then joinHostPort server "41641"
  else server

/-! ### The call -/

/-- `UpConfig`. -/
structure UpConfig where
  server : String
  setupKey : String
  advertiseRoutes : List String
  exitNode : String
  useTLS : Option Bool

/-- A `RegisterNodeRequest`, but for the keys of the node and its system. -/
structure RegisterNodeRequest where
  setupKey : String
  hostname : String
  clientVersion : String
  advertisedRoutes : List String

/-- What `Up` reads of a `RegisterNodeResponse`. -/
structure RegisterNodeResponse where
  networkID : String
  hostname : String
  overlayIPv4 : String
  overlayIPv6 : String

/-- A call, with what happens during it: the names of the host, in `OM_HOSTNAME` and of the system,
whether the client can be made, the answer of the server, and whether the file is written. -/
structure UpCall where
  cfg : UpConfig
  omHostname : String
  osHostname : String
  dials : Bool
  response : Option RegisterNodeResponse
  saves : Bool

/-- The daemon. `flagTLS` is the flag, `running` says that there is a session, `saved` is the
file. -/
structure UpDaemon where
  goos : Goos
  version : String
  flagTLS : Bool
  running : Bool
  state : State
  saved : State
  d : Daemon
  selfV4 : Option Addr
  status : Status

/-- The errors. -/
inductive UpError where
  | alreadyUp
  | unsupported
  | dial (server : String)
  | registration
  | badIPv4
  | badIPv6
  | save
  deriving DecidableEq

namespace UpError

/-- The text of an error. `cause` is the text of its cause. -/
def message (cause : String) : UpError → String
  | .alreadyUp => "already up (overmesh down first)"
  | .unsupported => "using an exit node is only supported on Linux and macOS for now"
  | .dial server => "dial " ++ server ++ ": " ++ cause
  | .registration => "registration failed: " ++ cause
  | .badIPv4 => "bad overlay ipv4 from server: " ++ cause
  | .badIPv6 => "bad overlay ipv6 from server: " ++ cause
  | .save => cause

/-- Dialling, registering or reading the answer has failed. -/
def beforeJoin : UpError → Bool
  | .dial _ | .registration | .badIPv4 | .badIPv6 => true
  | .alreadyUp | .unsupported | .save => false

end UpError

/-- A connection: its server, and whether it speaks TLS. -/
structure Conn where
  server : String
  tls : Bool
  deriving DecidableEq

/-- How a call ends: its error, the connection that was made, what was sent, and the daemon. -/
structure UpResult where
  err : Option UpError
  conn : Option Conn
  sent : Option RegisterNodeRequest
  daemon : UpDaemon

namespace UpDaemon

/-- `dial`. -/
def dial (s : UpDaemon) (server : String) : Conn := ⟨server, s.state.useTLS⟩

/-- Whether `Up` speaks TLS. -/
def effectiveTLS (s : UpDaemon) (cfg : UpConfig) : Bool :=
  let useTLS := s.state.useTLS || s.flagTLS
  let useTLS := if serverAddr cfg.server ≠ s.state.server then s.flagTLS else useTLS
  cfg.useTLS.getD useTLS

/-- The state with the decision about TLS. -/
def withTLS (s : UpDaemon) (tls : Bool) : UpDaemon :=
  { s with state := { s.state with useTLS := tls } }

/-- The rest of the state, once the server has answered. -/
def remember (s : UpDaemon) (cfg : UpConfig) : UpDaemon :=
  let state : State :=
    { s.state with
      server := serverAddr cfg.server
      desiredUp := true
      advertiseRoutes := cfg.advertiseRoutes
      exitNode := cfg.exitNode }
  { s with state := state }

/-- The start of the session. -/
def join (s : UpDaemon) (cfg : UpConfig) (resp : RegisterNodeResponse) (selfV4 selfV6 : Prefix) :
    UpDaemon :=
  let status : Status :=
    { version := s.version
      running := true
      server := serverAddr cfg.server
      network := resp.networkID
      hostname := resp.hostname
      ipv4 := selfV4.addr.string
      ipv6 := selfV6.addr.string
      conn := "connecting"
      advertisedRoutes := cfg.advertiseRoutes
      exitNode := cfg.exitNode }
  { s with
    saved := s.state
    d := ⟨[], Daemon.nodup_nil, cfg.exitNode, 0, s.d.relayUp⟩
    selfV4 := some selfV4.addr
    status := status
    running := true }

/-- The request of `Up`. -/
def request (s : UpDaemon) (o : UpCall) : RegisterNodeRequest where
  setupKey := o.cfg.setupKey
  hostname := if o.omHostname = "" then o.osHostname else o.omHostname
  clientVersion := s.version
  advertisedRoutes := o.cfg.advertiseRoutes

/-- `Up` from the call of `dial` on. -/
def register (s : UpDaemon) (o : UpCall) : UpResult :=
  let conn := s.dial (serverAddr o.cfg.server)
  let req := s.request o
  if o.dials = false then ⟨some (.dial (serverAddr o.cfg.server)), none, none, s⟩
  else match o.response with
    | none => ⟨some .registration, some conn, some req, s⟩
    | some resp =>
      match parsePrefix resp.overlayIPv4, parsePrefix resp.overlayIPv6 with
      | none, _ => ⟨some .badIPv4, some conn, some req, s⟩
      | some _, none => ⟨some .badIPv6, some conn, some req, s⟩
      | some selfV4, some selfV6 =>
        let s := s.remember o.cfg
        if o.saves then ⟨none, some conn, some req, s.join o.cfg resp selfV4 selfV6⟩
        else ⟨some .save, some conn, some req, s⟩

/-- `Up`. -/
def up (s : UpDaemon) (o : UpCall) : UpResult :=
  if s.running then ⟨some .alreadyUp, none, none, s⟩
  else if o.cfg.exitNode ≠ "" ∧ s.goos = .other then ⟨some .unsupported, none, none, s⟩
  else (s.withTLS (s.effectiveTLS o.cfg)).register o

/-- What a call leaves behind. -/
def step (s : UpDaemon) (o : UpCall) : UpDaemon := (s.up o).daemon

/-- The call fails before the session is known. -/
def Fails (s : UpDaemon) (o : UpCall) : Prop := ∃ e, (s.up o).err = some e ∧ e.beforeJoin = true

variable {s : UpDaemon} {o : UpCall} {ops : List UpCall}

theorem register_of_beforeJoin {e : UpError} (h : (s.register o).err = some e)
    (he : e.beforeJoin = true) : (s.register o).daemon = s := by
  rw [register] at h ⊢
  by_cases hdials : o.dials = false
  · rw [if_pos hdials]
  rw [if_neg hdials] at h ⊢
  split at h
  · rfl
  · split at h
    · rfl
    · rfl
    · cases hsaves : o.saves with
      | true =>
        rw [hsaves] at h
        cases h
      | false =>
        rw [hsaves] at h
        cases h
        cases he

/-- **What a join that fails leaves behind**: its decision about TLS. -/
theorem step_of_fails (h : Fails s o) : s.step o = s.withTLS (s.effectiveTLS o.cfg) := by
  obtain ⟨e, herr, he⟩ := h
  rw [step, up]
  rw [up] at herr
  split_ifs at herr ⊢
  · cases herr
    cases he
  · cases herr
    cases he
  · exact register_of_beforeJoin herr he

theorem state_withTLS_eq_iff {tls : Bool} :
    (s.withTLS tls).state = s.state ↔ tls = s.state.useTLS := by
  constructor
  · exact congrArg State.useTLS
  · rintro rfl
    rfl

/-- It leaves no trace just when it decides as the state says. -/
theorem state_step_iff (h : Fails s o) :
    (s.step o).state = s.state ↔ s.effectiveTLS o.cfg = s.state.useTLS := by
  rw [step_of_fails h]
  exact state_withTLS_eq_iff

/-- Then it leaves the whole daemon as it was. -/
theorem step_eq_self (h : Fails s o) (htls : s.effectiveTLS o.cfg = s.state.useTLS) :
    s.step o = s := by
  rw [step_of_fails h, htls]
  rfl

/-- **When joins that fail leave no trace**: each of them has to decide about TLS as the state says
already. -/
theorem failed_up_iff (hfails : Along step Fails s ops) :
    (∀ ops', ops' <+: ops →
      (run step s ops').state = s.state ∧
        ∀ o : UpCall, serverAddr o.cfg.server = s.state.server → o.cfg.useTLS = none →
          ((run step s ops').up o).conn = (s.up o).conn) ↔
    ∀ o ∈ ops, s.effectiveTLS o.cfg = s.state.useTLS := by
  induction ops with
  | nil =>
    refine ⟨fun _ o ho => absurd ho List.not_mem_nil, fun _ ops' hpre => ?_⟩
    rw [List.prefix_nil.mp hpre]
    exact ⟨rfl, fun _ _ _ => rfl⟩
  | cons o ops ih =>
    -- The daemon stays the same all along, so the hypothesis about the rest is one about `s`.
    obtain ⟨ho, hrest⟩ := hfails
    rw [List.forall_mem_cons]
    constructor
    · intro h
      have htls := (state_step_iff ho).mp (h [o] (List.prefix_append [o] ops)).1
      have hstep := step_eq_self ho htls
      rw [hstep] at hrest
      refine ⟨htls, (ih hrest).mp fun ops' hpre => ?_⟩
      have hnext := h (o :: ops') ((List.prefix_cons_inj o).mpr hpre)
      rwa [run_cons, hstep] at hnext
    · rintro ⟨htls, hall⟩ ops' hpre
      have hstep := step_eq_self ho htls
      rw [hstep] at hrest
      cases ops' with
      | nil => exact ⟨rfl, fun _ _ _ => rfl⟩
      | cons o' ops' =>
        obtain ⟨rfl, hpre'⟩ := List.cons_prefix_cons.mp hpre
        rw [run_cons, hstep]
        exact (ih hrest).mpr hall ops' hpre'

/-- The last session was with `a`, over TLS. The flag is not set. -/
def sampleJoined : UpDaemon where
  goos := .linux
  version := "v"
  flagTLS := false
  running := false
  state := ⟨"a:41641", false, true, [], ""⟩
  saved := ⟨"a:41641", false, true, [], ""⟩
  d := .new ""
  selfV4 := none
  status := { version := "v" }

/-- A join that the server refuses. -/
def sampleRefused (server : String) (tls : Option Bool) : UpCall :=
  ⟨⟨server, "", [], "", tls⟩, "", "", true, none, true⟩

theorem fails_sampleRefused (server : String) (tls : Option Bool) :
    Fails sampleJoined (sampleRefused server tls) := ⟨.registration, rfl, rfl⟩

/-- `b` refuses a join over TLS, and `a` is spoken to over TLS. -/
theorem failed_up_tls :
    ((sampleJoined.step (sampleRefused "b" (some true))).up (sampleRefused "a" none)).conn =
      some ⟨"a:41641", true⟩ := by
  have hall : ∀ o ∈ [sampleRefused "b" (some true)],
      sampleJoined.effectiveTLS o.cfg = sampleJoined.state.useTLS := by
    intro o ho
    obtain rfl := List.mem_singleton.mp ho
    rfl
  have hfails : Along step Fails sampleJoined [sampleRefused "b" (some true)] :=
    ⟨fails_sampleRefused "b" (some true), trivial⟩
  have hsame := (failed_up_iff hfails).mpr hall _ (List.prefix_refl _)
  exact (hsame.2 (sampleRefused "a" none) (by decide +kernel) rfl).trans (by decide +kernel)

/-- `b` refuses a join that did not ask for TLS. `a` was spoken to over TLS before, and is not any
more. -/
theorem failed_up_downgrades :
    let s := sampleJoined.step (sampleRefused "b" none)
    Fails sampleJoined (sampleRefused "b" none) ∧
      (sampleJoined.state.useTLS, s.state.useTLS) = (true, false) ∧
      (sampleJoined.up (sampleRefused "a" none)).conn = some ⟨"a:41641", true⟩ ∧
      (s.up (sampleRefused "a" none)).conn = some ⟨"a:41641", false⟩ :=
  ⟨fails_sampleRefused "b" none, by decide +kernel, by decide +kernel, by decide +kernel⟩

end UpDaemon

end OverMesh
