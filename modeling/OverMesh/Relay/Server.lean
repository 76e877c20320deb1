import OverMesh.Internal.Runs
import OverMesh.Key
import OverMesh.Relay.Frames
import Mathlib.Data.List.Nodup
import Mathlib.Data.List.Infix
import Mathlib.Logic.Function.Basic

/-!
# The relay server

`server.go` of `internal/relay`. Every connection has a goroutine that runs `serveConn`: it makes
the client prove that it holds the key it claims, registers the connection under that key in
`conns`, routes the frames it reads, and unregisters the connection when it goes away. A second
goroutine writes what is in the queue of the connection. `forward` looks its target up under the
lock of the server and queues the frame after it has released the lock, so that the target may have
been replaced, or be gone, by then.

A step is what a goroutine does between two points at which another one can come in. The server
keeps a record that no step reads: the frames read on a connection, the frames that were queued with
the read that caused them, and the registrations.

## Main definitions

* `NaclBox`, `checkAuth`, `answer` — the handshake, and the box it rests on
* `Server`, `ServerOp`, `Server.step`

## Main results

* `Server.rel_modify`, `Server.onConn_induction` — what a step can do to the connections
-/

namespace OverMesh

open Key

namespace Relay

/-! ### The handshake -/

/-- `copy` into an array of `n` bytes. -/
def copyBytes (n : ℕ) (b : List UInt8) : { l : List UInt8 // l.length = n } :=
  ⟨(b ++ List.replicate n 0).take n, by simp⟩

theorem copyBytes_append {n : ℕ} (k : { l : List UInt8 // l.length = n }) (b : List UInt8) :
    copyBytes n (k.val ++ b) = k := by
  refine Subtype.ext ?_
  change (k.val ++ b ++ List.replicate n 0).take n = k.val
  rw [List.append_assoc, List.take_append_of_le_length k.property.ge,
    List.take_of_length_le k.property.le]

theorem copyBytes_append_drop {n : ℕ} {b : List UInt8} (h : n ≤ b.length) :
    (copyBytes n b).val ++ b.drop n = b := by
  change (b ++ List.replicate n 0).take n ++ b.drop n = b
  rw [List.take_append_of_le_length h, List.take_append_drop]

/-- A `[24]byte`. -/
def Nonce : Type := { n : List UInt8 // n.length = 24 }
  deriving DecidableEq

/-- `box.Overhead`. -/
def overhead : ℕ := 16

/-- The 32 bytes with which a body starts. -/
def copyKey (b : List UInt8) : Bytes32 := copyBytes 32 b

/-- The 24 bytes with which it starts. -/
def copyNonce (b : List UInt8) : Nonce := copyBytes 24 b

theorem copyKey_append (k : Bytes32) (b : List UInt8) : copyKey (k.val ++ b) = k :=
  copyBytes_append k b

theorem copyKey_append_drop {b : List UInt8} (h : 32 ≤ b.length) :
    (copyKey b).val ++ b.drop 32 = b := copyBytes_append_drop h

/-- `golang.org/x/crypto/nacl/box`: public keys, and messages from the holder of one private key to
the holder of another one. -/
structure NaclBox where
  pub : Bytes32 → Bytes32
  sealBox : List UInt8 → Nonce → Bytes32 → Bytes32 → List UInt8
  openBox : List UInt8 → Nonce → Bytes32 → Bytes32 → Option (List UInt8)
  length_sealBox : ∀ m n p k, (sealBox m n p k).length = m.length + overhead
  openBox_sealBox : ∀ m n k l, openBox (sealBox m n (pub l) k) n (pub k) l = some m

/-- The challenge of `handshake`. -/
def challenge (box : NaclBox) (ephPriv : Bytes32) (nonce : Nonce) : Frame where
  typ := frameChallenge
  body := (box.pub ephPriv).val ++ nonce.val
  body_le := by
    rw [List.length_append, (box.pub ephPriv).property, nonce.property]
    decide

/-- The answer of `authenticate` to a challenge. -/
def answer (box : NaclBox) (priv pub : Bytes32) (f : Frame) : Option Frame :=
  if f.typ ≠ frameChallenge ∨ f.body.length ≠ 32 + 24 then none
  else
    let serverEph := copyKey f.body
    let nonce := copyNonce (f.body.drop 32)
    some
      { typ := frameAuth
        body := pub.val ++ box.sealBox nonce.val nonce serverEph priv
        body_le := by
          rw [List.length_append, box.length_sealBox, pub.property, nonce.property]
          decide }

/-- What `handshake` makes of the answer: the key of the client. -/
def checkAuth (box : NaclBox) (ephPriv : Bytes32) (nonce : Nonce) (f : Frame) : Option Bytes32 :=
  if f.typ ≠ frameAuth ∨ f.body.length < 32 + overhead then none
  else
    let clientPub := copyKey f.body
    match box.openBox (f.body.drop 32) nonce clientPub ephPriv with
    | none => none
    | some opened =>
      if opened.length ≠ 24 ∨ opened ≠ nonce.val then none else some clientPub

/-- The key is the one the frame starts with, and the box opened for it. -/
theorem checkAuth_eq_some {box : NaclBox} {ephPriv : Bytes32} {nonce : Nonce} {f : Frame}
    {k : Bytes32} (h : checkAuth box ephPriv nonce f = some k) :
    k = copyKey f.body ∧ (box.openBox (f.body.drop 32) nonce k ephPriv).isSome = true := by
  rw [checkAuth] at h
  split_ifs at h with hbad
  cases hopen : box.openBox (f.body.drop 32) nonce (copyKey f.body) ephPriv with
  | none => simp [hopen] at h
  | some opened =>
    simp only [hopen] at h
    split_ifs at h
    obtain rfl := Option.some.inj h
    exact ⟨rfl, by rw [hopen]; rfl⟩

/-! ### The server -/

/-- `outFrame`. -/
structure OutFrame where
  typ : UInt8
  body : List UInt8
  deriving DecidableEq

/-- The size of the queue of a connection. -/
def sendqCap : ℕ := 256

/-- Where `serveConn` is after the handshake. -/
inductive ServeStage where
  /-- Before the registration. -/
  | register
  /-- In the read loop. -/
  | reading
  /-- In `forward`, before the lookup of `dst`. -/
  | lookup (dst : Bytes32) (payload : List UInt8)
  /-- In `forward`, with the connection that was found. -/
  | enqueue (target : ℕ) (payload : List UInt8)
  /-- The read loop has returned, and the deferred function is to run. -/
  | cleanup
  /-- The deferred function has released the lock. -/
  | closing
  | ended
  deriving DecidableEq

/-- The deferred function has gone through `conns`. -/
def ServeStage.cleaned : ServeStage → Bool
  | .closing | .ended => true
  | .register | .reading | .lookup .. | .enqueue .. | .cleanup => false

/-- No frame is being forwarded. -/
def ServeStage.idle : ServeStage → Bool
  | .lookup .. | .enqueue .. => false
  | .register | .reading | .cleanup | .closing | .ended => true

/-- `serverConn`, with where its goroutines are. -/
structure ServerConn where
  key : Bytes32
  conn : Conn
  sendq : List OutFrame
  done : Bool
  stage : ServeStage
  /-- The writer has not returned. -/
  writing : Bool
  /-- The frames that were read so far. -/
  frames : List Frame

namespace ServerConn

/-- `close`. -/
def close (c : ServerConn) : ServerConn := { c with done := true, conn := c.conn.close }

/-- A non-blocking send to the queue. -/
def offer (c : ServerConn) (f : OutFrame) : ServerConn :=
  if c.sendq.length < sendqCap then { c with sendq := c.sendq ++ [f] } else c

/-- One turn of the read loop, up to the lookup of `forward`. -/
def read (c : ServerConn) (f : Frame) : ServerConn :=
  let c := { c with frames := c.frames ++ [f] }
  if f.typ = framePing then c.offer ⟨framePong, []⟩
  else if f.typ = frameSend then
    if f.body.length < 32 then c
    else { c with stage := .lookup (copyKey f.body) (f.body.drop 32) }
  else c

section Read

variable {c : ServerConn} {f : Frame}

theorem offer_eq (c : ServerConn) (f : OutFrame) :
    ∃ q, c.offer f = { c with sendq := q } ∧ ∀ g ∈ q, g ∈ c.sendq ∨ g = f := by
  rw [offer]
  split_ifs
  · refine ⟨_, rfl, fun g hg => ?_⟩
    simpa using hg
  · exact ⟨c.sendq, rfl, fun g hg => .inl hg⟩

/-- **What a turn of the read loop does**: it goes on to the lookup if the frame is to someone. -/
theorem read_spec (c : ServerConn) (f : Frame) :
    ∃ q t, c.read f = { c with frames := c.frames ++ [f], sendq := q, stage := t } ∧
      (∀ g ∈ q, g ∈ c.sendq ∨ g.typ = framePong) ∧
      (t = c.stage ∨ f.typ = frameSend ∧ ∃ dst payload, f.body = dst.val ++ payload ∧
        t = .lookup dst payload) := by
  rw [read]
  split_ifs with hping hsend hlen
  · obtain ⟨q, hq, hmem⟩ := offer_eq { c with frames := c.frames ++ [f] } ⟨framePong, []⟩
    refine ⟨q, c.stage, hq, fun g hg => ?_, .inl rfl⟩
    rcases hmem g hg with hg | rfl
    · exact .inl hg
    · exact .inr rfl
  · exact ⟨c.sendq, c.stage, rfl, fun g hg => .inl hg, .inl rfl⟩
  · exact ⟨c.sendq, _, rfl, fun g hg => .inl hg, .inr ⟨hsend, copyKey f.body, f.body.drop 32,
      (copyKey_append_drop (Nat.not_lt.mp hlen)).symm, rfl⟩⟩
  · exact ⟨c.sendq, c.stage, rfl, fun g hg => .inl hg, .inl rfl⟩

end Read

/-- One turn of the writer that finds a frame in the queue. -/
def write (c : ServerConn) (r₁ r₂ : WriteResult) : ServerConn :=
  match c.sendq with
  | [] => c
  | f :: rest =>
    match writeFrame c.conn f.typ f.body r₁ r₂ with
    | (.ok _, conn) => { c with conn := conn, sendq := rest }
    | (.error _, conn) => { ({ c with conn := conn, sendq := rest } : ServerConn).close with
        writing := false }

theorem write_keeps (c : ServerConn) (r₁ r₂ : WriteResult) :
    (c.write r₁ r₂).key = c.key ∧ (c.write r₁ r₂).stage = c.stage := by
  rw [write]
  split
  · exact ⟨rfl, rfl⟩
  · split <;> exact ⟨rfl, rfl⟩

end ServerConn

/-- A connection, from the beginning of its handshake. -/
inductive Serving where
  | handshake (conn : Conn) (ephPriv : Bytes32) (nonce : Nonce)
  | failed
  | serving (c : ServerConn)

namespace Serving

/-- The connection, once `handshake` has returned a key. -/
def conn? : Serving → Option ServerConn
  | .serving c => some c
  | .handshake .. | .failed => none

/-- Change the connection. -/
def map (f : ServerConn → ServerConn) : Serving → Serving
  | .serving c => .serving (f c)
  | .handshake conn ephPriv nonce => .handshake conn ephPriv nonce
  | .failed => .failed

theorem conn?_map (f : ServerConn → ServerConn) (c : Serving) :
    (c.map f).conn? = c.conn?.map f := by cases c <;> rfl

end Serving

/-- A `frameRecv` that was queued to a connection, and the read that caused it. -/
structure Delivery where
  target : ℕ
  body : List UInt8
  /-- The connection on which the frame was read, and its number there. -/
  cause : ℕ × ℕ
  deriving DecidableEq

/-- `Server`. Connections have numbers, in the order in which they come in. -/
structure Server where
  framesForwarded : ℕ
  bytesForwarded : ℕ
  framesDropped : ℕ
  conns : Bytes32 → Option ℕ
  all : List Serving
  /-- What was queued so far. -/
  queued : List Delivery
  /-- The registrations so far, the last one first. -/
  registrations : List (Bytes32 × ℕ)

/-- The steps. -/
inductive ServerOp where
  /-- A connection comes in. What is written on it may be cut off, as everywhere below. -/
  | accept (ephPriv : Bytes32) (nonce : Nonce) (r₁ r₂ : WriteResult)
  /-- `handshake` reads its frame on the `i`-th connection. -/
  | auth (i : ℕ) (f : Frame) (r₁ r₂ : WriteResult)
  /-- It gets none. -/
  | authFail (i : ℕ)
  | register (i : ℕ)
  | read (i : ℕ) (f : Frame)
  /-- `readFrame` fails. -/
  | readFail (i : ℕ)
  | lookup (i : ℕ)
  | enqueue (i : ℕ)
  /-- The deferred function, up to the release of the lock. -/
  | unregister (i : ℕ)
  /-- The deferred calls of `close`. -/
  | close (i : ℕ)
  | write (i : ℕ) (r₁ r₂ : WriteResult)
  /-- The writer finds `done` closed. -/
  | stopWriter (i : ℕ)

namespace Server

/-- `NewServer`. -/
def start : Server := ⟨0, 0, 0, fun _ => none, [], [], []⟩

/-- The `i`-th connection, if it has completed the handshake. -/
def serving (s : Server) (i : ℕ) : Option ServerConn := s.all[i]?.bind Serving.conn?

/-- Change the `i`-th connection. -/
def modify (s : Server) (i : ℕ) (f : ServerConn → ServerConn) : Server :=
  { s with all := s.all.modify i (Serving.map f) }

/-- The `i`-th connection goes on if it is at the stage `t`. -/
def onConn (s : Server) (i : ℕ) (t : ServeStage) (f : ServerConn → Server) : Server :=
  match s.serving i with
  | some c => if c.stage = t then f c else s
  | none => s

/-- The connection that is registered for `key` is closed. -/
def closeOld (s : Server) (key : Bytes32) : Server :=
  match s.conns key with
  | some old => s.modify old .close
  | none => s

/-- The registration of a connection, under the lock. -/
def register (s : Server) (i : ℕ) (c : ServerConn) : Server :=
  { (s.closeOld c.key).modify i fun c => { c with stage := .reading, writing := true } with
    conns := Function.update s.conns c.key (some i)
    registrations := (c.key, i) :: s.registrations }

/-- The lookup of `forward`, under the lock. -/
def lookup (s : Server) (i : ℕ) (dst : Bytes32) (payload : List UInt8) : Server :=
  match s.conns dst with
  | none => s.modify i fun c => { c with stage := .reading }
  | some target => s.modify i fun c => { c with stage := .enqueue target payload }

/-- The rest of `forward`. -/
def enqueue (s : Server) (i : ℕ) (c : ServerConn) (target : ℕ) (payload : List UInt8) : Server :=
  let body := c.key.val ++ payload
  let s := s.modify i fun c => { c with stage := .reading }
  match s.serving target with
  | none => s
  | some t =>
    if t.sendq.length < sendqCap then
      { s.modify target (·.offer ⟨frameRecv, body⟩) with
        framesForwarded := s.framesForwarded + 1
        bytesForwarded := s.bytesForwarded + payload.length
        queued := s.queued ++ [⟨target, body, (i, c.frames.length - 1)⟩] }
    else { s with framesDropped := s.framesDropped + 1 }

/-- The deferred function, under the lock. -/
def unregister (s : Server) (i : ℕ) (c : ServerConn) : Server :=
  { s.modify i fun c => { c with stage := .closing } with
    conns := if s.conns c.key = some i then Function.update s.conns c.key none else s.conns }

/-- What becomes of a connection whose `handshake` has read a frame. -/
def auth (box : NaclBox) (conn : Conn) (ephPriv : Bytes32) (nonce : Nonce) (f : Frame)
    (r₁ r₂ : WriteResult) : Serving :=
  match checkAuth box ephPriv nonce f with
  | none => .failed
  | some key =>
    match writeFrame conn frameOK [] r₁ r₂ with
    | (.error _, _) => .failed
    | (.ok _, conn) => .serving ⟨key, conn, [], false, .register, false, []⟩

/-- A new connection. -/
def accept (box : NaclBox) (ephPriv : Bytes32) (nonce : Nonce) (r₁ r₂ : WriteResult) : Serving :=
  match writeFrame ⟨[], false⟩ frameChallenge (challenge box ephPriv nonce).body r₁ r₂ with
  | (.error _, _) => .failed
  | (.ok _, conn) => .handshake conn ephPriv nonce

/-- One step. -/
def step (box : NaclBox) (s : Server) : ServerOp → Server
  | .accept ephPriv nonce r₁ r₂ => { s with all := s.all ++ [accept box ephPriv nonce r₁ r₂] }
  | .auth i f r₁ r₂ =>
    match s.all[i]? with
    | some (.handshake conn ephPriv nonce) =>
      { s with all := s.all.set i (auth box conn ephPriv nonce f r₁ r₂) }
    | _ => s
  | .authFail i =>
    match s.all[i]? with
    | some (.handshake ..) => { s with all := s.all.set i .failed }
    | _ => s
  | .register i => s.onConn i .register fun c => s.register i c
  | .read i f => s.onConn i .reading fun _ => s.modify i (·.read f)
  | .readFail i => s.onConn i .reading fun _ =>
    s.modify i fun c => { c with stage := .cleanup }
  | .lookup i =>
    match s.serving i with
    | some c =>
      match c.stage with
      | .lookup dst payload => s.lookup i dst payload
      | _ => s
    | none => s
  | .enqueue i =>
    match s.serving i with
    | some c =>
      match c.stage with
      | .enqueue target payload => s.enqueue i c target payload
      | _ => s
    | none => s
  | .unregister i => s.onConn i .cleanup fun c => s.unregister i c
  | .close i => s.onConn i .closing fun _ =>
    s.modify i fun c => { c.close with stage := .ended }
  | .write i r₁ r₂ => s.modify i fun c => if c.writing then c.write r₁ r₂ else c
  | .stopWriter i => s.modify i fun c => if c.done then { c with writing := false } else c

end Server

/-! ### Changes of one connection -/

namespace Server

/-- What the state has, and what going on leads to, the step leads to. -/
theorem onConn_induction {P : Server → Prop} {s : Server} {i : ℕ} {t : ServeStage}
    {f : ServerConn → Server} (hs : P s)
    (hf : ∀ c, s.serving i = some c → c.stage = t → P (f c)) : P (s.onConn i t f) := by
  rw [onConn]
  cases hi : s.serving i with
  | none => exact hs
  | some c =>
    by_cases hp : c.stage = t
    · simp only [if_pos hp]
      exact hf c hi hp
    · simp only [if_neg hp]
      exact hs

theorem exists_of_rel_left {α : Type*} {R : α → α → Prop} {o : Option α} {a : α}
    (h : Option.Rel R (some a) o) : ∃ b, o = some b ∧ R a b := by
  cases h with
  | some hab => exact ⟨_, rfl, hab⟩

theorem exists_of_rel_right {α : Type*} {R : α → α → Prop} {o : Option α} {b : α}
    (h : Option.Rel R o (some b)) : ∃ a, o = some a ∧ R a b := by
  cases h with
  | some hab => exact ⟨_, rfl, hab⟩

theorem rel_mono {α : Type*} {R S : α → α → Prop} {o o' : Option α} (h : ∀ a b, R a b → S a b)
    (hR : Option.Rel R o o') : Option.Rel S o o' := by
  cases hR with
  | none => exact .none
  | some hab => exact .some (h _ _ hab)

section Modify

variable {s : Server} {i j : ℕ} {f : ServerConn → ServerConn}

@[simp] theorem length_modify (s : Server) (i : ℕ) (f : ServerConn → ServerConn) :
    (s.modify i f).all.length = s.all.length := List.length_modify _ _ _

@[simp] theorem serving_modify_self : (s.modify i f).serving i = (s.serving i).map f := by
  rw [serving, serving, modify, List.getElem?_modify]
  cases s.all[i]? with
  | none => rfl
  | some c => simp [Serving.conn?_map]

theorem serving_modify_of_ne (h : j ≠ i) : (s.modify i f).serving j = s.serving j := by
  rw [serving, serving, modify, List.getElem?_modify]
  cases s.all[j]? with
  | none => rfl
  | some c => simp [Ne.symm h]

/-- What the `i`-th connection is related to, the connections of the new state are related to. -/
theorem rel_modify {R : ServerConn → ServerConn → Prop} (hrefl : ∀ c, R c c)
    (hf : ∀ c, s.serving i = some c → R c (f c)) (j : ℕ) :
    Option.Rel R (s.serving j) ((s.modify i f).serving j) := by
  by_cases hj : j = i
  · subst hj
    rw [serving_modify_self]
    cases hc : s.serving j with
    | none => exact .none
    | some c => exact .some (hf c hc)
  · rw [serving_modify_of_ne hj]
    cases s.serving j with
    | none => exact .none
    | some c => exact .some (hrefl c)

theorem rel_trans {R : ServerConn → ServerConn → Prop} (htrans : ∀ a b c, R a b → R b c → R a c)
    {o₁ o₂ o₃ : Option ServerConn} (h₁ : Option.Rel R o₁ o₂) (h₂ : Option.Rel R o₂ o₃) :
    Option.Rel R o₁ o₃ := by
  cases h₁ with
  | none =>
    cases h₂ with
    | none => exact .none
  | some hab =>
    cases h₂ with
    | some hbc => exact .some (htrans _ _ _ hab hbc)

/-- What the changed connection has, and the other ones had, all have. -/
theorem forall_serving_modify {P : ℕ → ServerConn → Prop}
    (hi : ∀ c, s.serving i = some c → P i (f c))
    (hne : ∀ j c, j ≠ i → s.serving j = some c → P j c) :
    ∀ j c, (s.modify i f).serving j = some c → P j c := by
  intro j c hj
  by_cases hji : j = i
  · subst hji
    rw [serving_modify_self] at hj
    obtain ⟨c, hc, rfl⟩ := Option.map_eq_some_iff.mp hj
    exact hi c hc
  · rw [serving_modify_of_ne hji] at hj
    exact hne j c hji hj

/-- A connection that is not through with its handshake does not count. -/
theorem serving_concat {c : Serving} (hc : c.conn? = none) :
    ({ s with all := s.all ++ [c] } : Server).serving = s.serving := by
  funext j
  rw [serving, serving, List.getElem?_append]
  split_ifs with hj
  · rfl
  · rw [List.getElem?_eq_none (Nat.not_lt.mp hj)]
    cases hget : [c][j - s.all.length]? with
    | none => rfl
    | some c' =>
      rw [List.mem_singleton.mp (List.mem_of_getElem? hget)]
      exact hc

/-- A handshake ends. -/
theorem serving_set {c c' : Serving} (hi : s.all[i]? = some c) :
    ({ s with all := s.all.set i c' } : Server).serving =
      Function.update s.serving i c'.conn? := by
  funext j
  by_cases hj : j = i
  · subst hj
    rw [Function.update_self, serving, List.getElem?_set_self (List.getElem?_eq_some_iff.mp hi).1]
    rfl
  · rw [Function.update_of_ne hj, serving, List.getElem?_set_ne (Ne.symm hj)]
    rfl

theorem serving_of_handshake {conn : Conn} {ephPriv : Bytes32} {nonce : Nonce}
    (hi : s.all[i]? = some (.handshake conn ephPriv nonce)) : s.serving i = none := by
  rw [serving, hi]
  rfl

end Modify

/-! ### What a step can do -/

/-- A connection goes on without forwarding anything. -/
structure Quiet (c c' : ServerConn) : Prop where
  key : c'.key = c.key
  frames : c'.frames = c.frames
  sendq : c'.sendq ⊆ c.sendq
  stage : c'.stage = c.stage ∨ c'.stage.idle = true

/-- It goes on, if it is registered. -/
structure Steady (c c' : ServerConn) : Prop where
  key : c'.key = c.key
  cleaned : c.stage.cleaned = true → c'.stage.cleaned = true
  register : c'.stage = .register ↔ c.stage = .register
  done : c.done = true → c'.done = true

theorem Steady.refl (c : ServerConn) : Steady c c := ⟨rfl, id, Iff.rfl, id⟩

theorem Steady.trans (c₁ c₂ c₃ : ServerConn) (h₁ : Steady c₁ c₂) (h₂ : Steady c₂ c₃) :
    Steady c₁ c₃ where
  key := h₂.key.trans h₁.key
  cleaned h := h₂.cleaned (h₁.cleaned h)
  register := h₂.register.trans h₁.register
  done h := h₂.done (h₁.done h)

theorem Steady.offer (c : ServerConn) (f : OutFrame) : Steady c (c.offer f) := by
  obtain ⟨q, hq, -⟩ := c.offer_eq f
  rw [hq]
  exact ⟨rfl, id, Iff.rfl, id⟩

/-- Both. -/
structure Tame (c c' : ServerConn) : Prop extends Quiet c c', Steady c c'

theorem Tame.refl (c : ServerConn) : Tame c c :=
  ⟨⟨rfl, rfl, List.Subset.refl _, .inl rfl⟩, id, Iff.rfl, id⟩

theorem Tame.close (c : ServerConn) : Tame c c.close :=
  ⟨⟨rfl, rfl, List.Subset.refl _, .inl rfl⟩, id, Iff.rfl, fun _ => rfl⟩

/-- The goroutine of `serveConn` goes on, after the registration and before the cleanup. -/
theorem Steady.goto {c : ServerConn} {t : ServeStage} (hc : c.stage.cleaned = false)
    (hr : c.stage ≠ .register) (ht : t ≠ .register) : Steady c { c with stage := t } where
  key := rfl
  cleaned h := absurd h (by simp [hc])
  register := iff_of_false ht hr
  done := id

theorem Steady.read {c : ServerConn} (hc : c.stage = .reading) (f : Frame) :
    Steady c (c.read f) := by
  obtain ⟨q, t, hread, -, ht⟩ := c.read_spec f
  have htr : t ≠ .register := by
    rcases ht with rfl | ⟨-, _, _, -, rfl⟩
    · simp [hc]
    · simp
  rw [hread]
  exact ⟨rfl, by simp [hc, ServeStage.cleaned], iff_of_false htr (by simp [hc]), id⟩

theorem Tame.goto {c : ServerConn} {t : ServeStage} (hc : c.stage.cleaned = false)
    (hr : c.stage ≠ .register) (ht : t ≠ .register) (hidle : t.idle = true) :
    Tame c { c with stage := t } :=
  ⟨⟨rfl, rfl, List.Subset.refl _, .inr hidle⟩, (Steady.goto hc hr ht).cleaned,
    iff_of_false ht hr, id⟩

theorem Tame.write (c : ServerConn) (r₁ r₂ : WriteResult) : Tame c (c.write r₁ r₂) := by
  rw [ServerConn.write]
  split
  · exact .refl c
  · next f rest hq =>
    have hsub : rest ⊆ c.sendq := by
      rw [hq]
      exact List.subset_cons_self f rest
    split
    · exact ⟨⟨rfl, rfl, hsub, .inl rfl⟩, id, Iff.rfl, id⟩
    · exact ⟨⟨rfl, rfl, hsub, .inl rfl⟩, id, Iff.rfl, fun _ => rfl⟩

@[simp] theorem length_closeOld (s : Server) (key : Bytes32) :
    (s.closeOld key).all.length = s.all.length := by
  rw [closeOld]
  split
  · exact length_modify _ _ _
  · rfl

theorem serving_closeOld {s : Server} {key : Bytes32} {j : ℕ} : (s.closeOld key).serving j =
      if s.conns key = some j then (s.serving j).map .close else s.serving j := by
  rw [closeOld]
  cases hold : s.conns key with
  | none => simp
  | some old =>
    by_cases hj : j = old
    · subst hj
      simp
    · rw [if_neg (by simpa using Ne.symm hj)]
      exact serving_modify_of_ne hj

section Register

variable {s : Server} {i j : ℕ} {c : ServerConn}

theorem rel_closeOld (key : Bytes32) :
    Option.Rel Tame (s.serving j) ((s.closeOld key).serving j) := by
  rw [serving_closeOld]
  cases s.serving j with
  | none =>
    rw [Option.map_none, ite_self]
    exact .none
  | some c =>
    split_ifs
    · exact .some (.close c)
    · exact .some (.refl c)

theorem conns_register (k : Bytes32) :
    (s.register i c).conns k = if k = c.key then some i else s.conns k := by
  rw [register]
  exact Function.update_apply _ _ _ _

/-- Only the entry of the connection itself is deleted. -/
theorem conns_unregister (k : Bytes32) : (s.unregister i c).conns k = s.conns k ∨
      s.conns k = some i ∧ (s.unregister i c).conns k = none := by
  rw [unregister]
  split_ifs with hcur
  · by_cases hk : k = c.key
    · exact .inr ⟨hk ▸ hcur, by simp [hk]⟩
    · exact .inl (Function.update_of_ne hk _ _)
  · exact .inl rfl

theorem queued_register : (s.register i c).queued = s.queued := by
  change (s.closeOld c.key).queued = s.queued
  rw [closeOld]
  split <;> rfl

/-- **A registration**: the connection starts to read, -/
theorem serving_register_self (hi : s.serving i = some c) :
    ∃ c', (s.register i c).serving i = some c' ∧ Quiet c c' ∧ c'.stage = .reading := by
  obtain ⟨c', hc', ht⟩ := exists_of_rel_left (hi ▸ rel_closeOld (j := i) c.key)
  refine ⟨{ c' with stage := .reading, writing := true }, ?_, ⟨ht.key, ht.frames, ht.sendq,
    .inr rfl⟩, rfl⟩
  have hself : (s.register i c).serving i = ((s.closeOld c.key).serving i).map
      fun c => { c with stage := .reading, writing := true } := serving_modify_self
  rw [hself, hc']
  rfl

/-- and the one that was registered before is closed. -/
theorem serving_register_of_ne (hj : j ≠ i) :
    Option.Rel Tame (s.serving j) ((s.register i c).serving j) ∧
      (s.conns c.key = some j → ∀ c', (s.register i c).serving j = some c' → c'.done = true) := by
  have hne : (s.register i c).serving j = (s.closeOld c.key).serving j := serving_modify_of_ne hj
  rw [hne]
  refine ⟨rel_closeOld c.key, fun hold c' hc' => ?_⟩
  rw [serving_closeOld, if_pos hold] at hc'
  obtain ⟨c₀, -, rfl⟩ := Option.map_eq_some_iff.mp hc'
  rfl

theorem rel_register (hi : s.serving i = some c) (j : ℕ) :
    Option.Rel Quiet (s.serving j) ((s.register i c).serving j) := by
  by_cases hj : j = i
  · subst hj
    obtain ⟨c', hc', hq, -⟩ := serving_register_self hi
    rw [hi, hc']
    exact .some hq
  · exact rel_mono (fun _ _ ht => ht.toQuiet) (serving_register_of_ne hj).1

end Register

/-- What a step can do. -/
inductive Effect (box : NaclBox) (s : Server) (op : ServerOp) : Server → Prop where
  /-- Connections go on without forwarding anything. -/
  | tame {s' : Server} (hconns : s'.conns = s.conns) (hreg : s'.registrations = s.registrations)
    (hqueued : s'.queued = s.queued) (hlen : s.all.length ≤ s'.all.length)
    (hrel : ∀ j, Option.Rel Tame (s.serving j) (s'.serving j)) : Effect box s op s'
  /-- A client is let in. -/
  | letIn {s' : Server} {i : ℕ} {conn : Conn} {ephPriv key : Bytes32} {nonce : Nonce} {f : Frame}
    {r₁ r₂ : WriteResult} (hop : op = .auth i f r₁ r₂)
    (hi : s.all[i]? = some (.handshake conn ephPriv nonce))
    (hkey : checkAuth box ephPriv nonce f = some key) (hconns : s'.conns = s.conns)
    (hreg : s'.registrations = s.registrations) (hqueued : s'.queued = s.queued)
    (hlen : s.all.length ≤ s'.all.length)
    (hserving : ∃ conn', s'.serving = Function.update s.serving i
      (some ⟨key, conn', [], false, .register, false, []⟩)) : Effect box s op s'
  | register {i : ℕ} {c : ServerConn} (hi : s.serving i = some c) (hc : c.stage = .register) :
    Effect box s op (s.register i c)
  | read {i : ℕ} {c : ServerConn} (f : Frame) (hi : s.serving i = some c)
    (hc : c.stage = .reading) : Effect box s op (s.modify i (·.read f))
  | found {i : ℕ} {c : ServerConn} {dst : Bytes32} {payload : List UInt8} {target : ℕ}
    (hi : s.serving i = some c) (hc : c.stage = .lookup dst payload)
    (htarget : s.conns dst = some target) :
    Effect box s op (s.modify i fun c => { c with stage := .enqueue target payload })
  | queued {i : ℕ} {c t : ServerConn} {target : ℕ} {payload : List UInt8} (ff bf : ℕ)
    (hi : s.serving i = some c) (hc : c.stage = .enqueue target payload)
    (ht : s.serving target = some t) (hfull : t.sendq.length < sendqCap) :
    Effect box s op
      { (s.modify i fun c => { c with stage := .reading }).modify target
          (·.offer ⟨frameRecv, c.key.val ++ payload⟩) with
        framesForwarded := ff
        bytesForwarded := bf
        queued := s.queued ++ [⟨target, c.key.val ++ payload, (i, c.frames.length - 1)⟩] }
  | unregister {i : ℕ} {c : ServerConn} (hi : s.serving i = some c) (hc : c.stage = .cleanup) :
    Effect box s op (s.unregister i c)

namespace Effect

variable {box : NaclBox} {s : Server} {op : ServerOp} {i : ℕ} {f : ServerConn → ServerConn}

/-- A step that no connection after its handshake sees. -/
theorem of_serving {s' : Server} (hconns : s'.conns = s.conns)
    (hreg : s'.registrations = s.registrations) (hqueued : s'.queued = s.queued)
    (hlen : s.all.length ≤ s'.all.length) (hserving : s'.serving = s.serving) :
    Effect box s op s' := by
  refine .tame hconns hreg hqueued hlen fun j => ?_
  rw [hserving]
  cases s.serving j with
  | none => exact .none
  | some c => exact .some (.refl c)

theorem refl : Effect box s op s := .of_serving rfl rfl rfl le_rfl rfl

theorem modify (hf : ∀ c, s.serving i = some c → Tame c (f c)) : Effect box s op (s.modify i f) :=
  .tame rfl rfl rfl (length_modify s i f).ge (rel_modify .refl hf)

theorem onConn {t : ServeStage} {f : ServerConn → Server}
    (hf : ∀ c, s.serving i = some c → c.stage = t → Effect box s op (f c)) :
    Effect box s op (s.onConn i t f) := onConn_induction .refl hf

end Effect

theorem conn?_accept (box : NaclBox) (ephPriv : Bytes32) (nonce : Nonce) (r₁ r₂ : WriteResult) :
    (accept box ephPriv nonce r₁ r₂).conn? = none := by
  rw [accept]
  split <;> rfl

/-- What becomes of a handshake: it fails, or the client is let in. -/
theorem conn?_auth (box : NaclBox) (conn : Conn) (ephPriv : Bytes32) (nonce : Nonce) (f : Frame)
    (r₁ r₂ : WriteResult) : (auth box conn ephPriv nonce f r₁ r₂).conn? = none ∨
      ∃ key conn', checkAuth box ephPriv nonce f = some key ∧
        (auth box conn ephPriv nonce f r₁ r₂).conn? =
          some ⟨key, conn', [], false, .register, false, []⟩ := by
  rw [auth]
  split
  · exact .inl rfl
  · next key hkey =>
    split
    · exact .inl rfl
    · next conn' _ => exact .inr ⟨key, conn', hkey, rfl⟩

/-- A handshake fails. -/
theorem Effect.handshake {box : NaclBox} {s : Server} {op : ServerOp} {i : ℕ} {c c' : Serving}
    (hi : s.all[i]? = some c) (hc : c.conn? = none) (hc' : c'.conn? = none) :
    Effect box s op { s with all := s.all.set i c' } := by
  refine .of_serving rfl rfl rfl (by simp) ?_
  rw [serving_set hi, hc']
  refine Function.update_eq_self_iff.mpr ?_
  rw [serving, hi, Option.bind_some, hc]

theorem effect_lookup {box : NaclBox} {s : Server} {op : ServerOp} {i : ℕ} {c : ServerConn}
    {dst : Bytes32} {payload : List UInt8} (hi : s.serving i = some c)
    (hc : c.stage = .lookup dst payload) : Effect box s op (s.lookup i dst payload) := by
  rw [lookup]
  split
  · refine .modify fun c' hi' => ?_
    obtain rfl := Option.some.inj (hi.symm.trans hi')
    exact .goto (by rw [hc]; rfl) (by simp [hc]) (by simp) rfl
  · next htarget => exact .found hi hc htarget

/-- A frame that finds the queue full is dropped. -/
theorem effect_enqueue {box : NaclBox} {s : Server} {op : ServerOp} {i target : ℕ}
    {c : ServerConn} {payload : List UInt8} (hi : s.serving i = some c)
    (hc : c.stage = .enqueue target payload) : Effect box s op (s.enqueue i c target payload) := by
  have hgoto : ∀ c', s.serving i = some c' → Tame c' { c' with stage := .reading } := by
    intro c' hi'
    obtain rfl := Option.some.inj (hi.symm.trans hi')
    exact .goto (by rw [hc]; rfl) (by simp [hc]) (by simp) rfl
  rw [enqueue]
  split
  · exact .modify hgoto
  · next t ht =>
    split_ifs with hfull
    · obtain ⟨t', ht', hq⟩ : ∃ t', s.serving target = some t' ∧ t'.sendq = t.sendq := by
        by_cases htarget : target = i
        · subst htarget
          rw [serving_modify_self, hi] at ht
          obtain rfl := Option.some.inj ht
          exact ⟨c, hi, rfl⟩
        · rw [serving_modify_of_ne htarget] at ht
          exact ⟨t, ht, rfl⟩
      exact .queued _ _ hi hc ht' (by rwa [hq])
    · exact .tame rfl rfl rfl (length_modify s i _).ge (rel_modify .refl hgoto)

/-- **What a step can do.** -/
theorem effect_step (box : NaclBox) (s : Server) (op : ServerOp) :
    Effect box s op (s.step box op) := by
  cases op with
  | accept ephPriv nonce r₁ r₂ =>
    exact .of_serving rfl rfl rfl (by simp [step])
      (serving_concat (conn?_accept box ephPriv nonce r₁ r₂))
  | auth i f r₁ r₂ =>
    rw [step]
    split
    · next conn ephPriv nonce hi =>
      rcases conn?_auth box conn ephPriv nonce f r₁ r₂ with hnone | ⟨key, conn', hkey, hsome⟩
      · exact .handshake hi rfl hnone
      · exact .letIn rfl hi hkey rfl rfl rfl (by simp) ⟨conn', by rw [serving_set hi, hsome]⟩
    · exact .refl
  | authFail i =>
    rw [step]
    split
    · next hi => exact .handshake hi rfl rfl
    · exact .refl
  | register i =>
    rw [step]
    exact .onConn fun c hi hc => .register hi hc
  | read i f =>
    rw [step]
    exact .onConn fun c hi hc => .read f hi hc
  | readFail i =>
    rw [step]
    refine .onConn fun c hi hc => .modify fun c' hi' => ?_
    obtain rfl := Option.some.inj (hi.symm.trans hi')
    exact .goto (by rw [hc]; rfl) (by simp [hc]) (by simp) rfl
  | lookup i =>
    rw [step]
    split
    · next c hi =>
      split
      · next hc => exact effect_lookup hi hc
      · exact .refl
    · exact .refl
  | enqueue i =>
    rw [step]
    split
    · next c hi =>
      split
      · next hc => exact effect_enqueue hi hc
      · exact .refl
    · exact .refl
  | unregister i =>
    rw [step]
    exact .onConn fun c hi hc => .unregister hi hc
  | close i =>
    rw [step]
    refine .onConn fun c hi hc => .modify fun c' hi' => ?_
    obtain rfl := Option.some.inj (hi.symm.trans hi')
    exact ⟨⟨rfl, rfl, List.Subset.refl _, .inr rfl⟩, fun _ => rfl, by simp [hc], fun _ => rfl⟩
  | write i r₁ r₂ =>
    refine .modify fun c _ => ?_
    split_ifs
    · exact .write c r₁ r₂
    · exact .refl c
  | stopWriter i =>
    refine .modify fun c _ => ?_
    split_ifs
    · exact ⟨⟨rfl, rfl, List.Subset.refl _, .inl rfl⟩, id, Iff.rfl, id⟩
    · exact .refl c

section RelSteady

variable {s : Server} {i target : ℕ} {c : ServerConn}

theorem rel_steady_read (hi : s.serving i = some c) (hc : c.stage = .reading) (f : Frame) (j : ℕ) :
    Option.Rel Steady (s.serving j) ((s.modify i (·.read f)).serving j) := by
  refine rel_modify .refl (fun c' hi' => ?_) j
  obtain rfl := Option.some.inj (hi.symm.trans hi')
  exact .read hc f

theorem rel_steady_goto (hi : s.serving i = some c) (hc : c.stage.cleaned = false)
    (hr : c.stage ≠ .register) {t : ServeStage} (ht : t ≠ .register) (j : ℕ) :
    Option.Rel Steady (s.serving j)
      ((s.modify i fun c => { c with stage := t }).serving j) := by
  refine rel_modify .refl (fun c' hi' => ?_) j
  obtain rfl := Option.some.inj (hi.symm.trans hi')
  exact .goto hc hr ht

theorem rel_steady_queued {payload : List UInt8} (hi : s.serving i = some c)
    (hc : c.stage = .enqueue target payload) (f : OutFrame) (j : ℕ) :
    Option.Rel Steady (s.serving j)
      (((s.modify i fun c => { c with stage := .reading }).modify target (·.offer f)).serving j) :=
  rel_trans Steady.trans (rel_steady_goto hi (by rw [hc]; rfl) (by simp [hc]) (by simp) j)
    (rel_modify .refl (fun c' _ => .offer c' f) j)

end RelSteady

/-- Unless a client is let in or a connection registered, the connections go on as they are. -/
theorem Effect.rel_steady {box : NaclBox} {s s' : Server} {op : ServerOp}
    (he : Effect box s op s') : (∀ j, Option.Rel Steady (s.serving j) (s'.serving j)) ∨
      (∃ i f r₁ r₂ c, op = .auth i f r₁ r₂ ∧ s.serving i = none ∧ c.key = copyKey f.body ∧
        c.stage = .register ∧ c.sendq = [] ∧
        s'.serving = Function.update s.serving i (some c)) ∨
      ∃ i c, s.serving i = some c ∧ s' = s.register i c := by
  cases he with
  | tame _ _ _ _ hrel => exact .inl fun j => rel_mono (fun _ _ ht => ht.toSteady) (hrel j)
  | letIn hop hi hkey _ _ _ _ hserving =>
    obtain ⟨conn', hserving⟩ := hserving
    exact .inr (.inl ⟨_, _, _, _, _, hop, serving_of_handshake hi, (checkAuth_eq_some hkey).1, rfl,
      rfl, hserving⟩)
  | register hi _ => exact .inr (.inr ⟨_, _, hi, rfl⟩)
  | read f hi hc => exact .inl (rel_steady_read hi hc f)
  | found hi hc _ => exact .inl (rel_steady_goto hi (by rw [hc]; rfl) (by simp [hc]) (by simp))
  | queued _ _ hi hc _ _ => exact .inl (rel_steady_queued hi hc _)
  | unregister hi hc => exact .inl (rel_steady_goto hi (by rw [hc]; rfl) (by simp [hc]) (by simp))

/-- No connection is forgotten. -/
theorem Effect.length_le {box : NaclBox} {s s' : Server} {op : ServerOp}
    (he : Effect box s op s') : s.all.length ≤ s'.all.length := by
  cases he with
  | tame _ _ _ hlen _ => exact hlen
  | letIn _ _ _ _ _ _ hlen _ => exact hlen
  | register _ _ => simp [Server.register]
  | read _ _ _ => simp
  | found _ _ _ => simp
  | queued _ _ _ _ _ _ => simp
  | unregister _ _ => simp [Server.unregister]

end Server

end Relay

end OverMesh
