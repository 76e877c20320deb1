import OverMesh.Internal.Runs
import OverMesh.Key
import OverMesh.Relay.Frames

/-!
# The relay client

`client.go` of `internal/relay`: one connection to a relay at a time, on which `Send` and the
keepalive pinger write frames under the client's lock. A write that fails leaves a part of a frame
behind. The pinger closes the connection then, `Send` returns the error and leaves it open.

A record beside the client has for every connection the frames that were written on it, each with
the number of bytes that went out. Attempts that put nothing on the connection are not in it.

## Main definitions

* `Client`, `Client.send`, `Client.ping`
* `Traffic`, `Traffic.step` — the client with the record of its connections
* `Unbroken` — a step puts nothing on a connection on which a frame of a `Send` was cut off

## Main results

* `intact_run_iff` — **the relay reads exactly the frames that went out whole, just when nothing is
  put on a connection after a frame of a `Send` that was cut off**, wherever pings were cut off
* `send_after_cut` — a frame sent after one that was cut off is read as part of that one
-/

namespace OverMesh

open Key Runs

namespace Relay

/-- `Client`, without its settings. -/
structure Client where
  conn : Option Conn
  up : Bool
  closed : Bool
  deriving DecidableEq

/-- Why `Send` fails. -/
inductive SendError where
  | notConnected
  | frame (e : FrameError)
  deriving DecidableEq

/-- The text of an error. -/
def SendError.message (write : String) : SendError → String
  | .notConnected => "relay: not connected"
  | .frame e => e.message write

namespace Client

/-- `NewClient`, before the first session. -/
def new : Client := ⟨none, false, false⟩

/-- The end of the setup of a session, once `dial` and `authenticate` have returned a connection. -/
def connect (c : Client) (conn : Conn) : Client :=
  if c.closed then c else { c with conn := some conn, up := true }

/-- The body of a frame to `dst`. -/
def sendBody (dst : Bytes32) (payload : List UInt8) : List UInt8 := dst.val ++ payload

/-- `Send`. It looks at the connection twice, before and after the body is made; calls are taken one
after the other here, so both find the same. -/
def send (c : Client) (dst : Bytes32) (payload : List UInt8) (r₁ r₂ : WriteResult) :
    Except SendError Unit × Client :=
  match c.up, c.conn with
  | true, some conn =>
    match writeFrame conn frameSend (sendBody dst payload) r₁ r₂ with
    | (.error e, conn) => (.error (.frame e), { c with conn := some conn })
    | (.ok _, conn) => (.ok (), { c with conn := some conn })
  | _, _ => (.error .notConnected, c)

/-- `Send` writes its frame. -/
def Ready (c : Client) (body : List UInt8) : Prop := c.up = true ∧ body.length ≤ maxFrameLen

instance (c : Client) (body : List UInt8) : Decidable (c.Ready body) :=
  inferInstanceAs (Decidable (_ ∧ _))

theorem send_of_ready {c : Client} {dst : Bytes32} {payload : List UInt8} {conn : Conn}
    (h : c.Ready (sendBody dst payload)) (hconn : c.conn = some conn) (r₁ r₂ : WriteResult) :
    (c.send dst payload r₁ r₂).2 =
      { c with conn := some (writeFrame conn frameSend (sendBody dst payload) r₁ r₂).2 } := by
  rw [send, h.1, hconn]
  dsimp only
  rcases writeFrame conn frameSend (sendBody dst payload) r₁ r₂ with ⟨_ | _, conn'⟩ <;> rfl

/-- Otherwise it changes nothing. -/
theorem send_of_not_ready {c : Client} {dst : Bytes32} {payload : List UInt8}
    (h : ¬ c.Ready (sendBody dst payload)) (r₁ r₂ : WriteResult) :
    (c.send dst payload r₁ r₂).2 = c := by
  obtain ⟨conn, up, closed⟩ := c
  cases up with
  | false => rfl
  | true =>
    cases conn with
    | none => rfl
    | some conn =>
      have hlarge : (sendBody dst payload).length > maxFrameLen :=
        Nat.not_le.mp fun hle => h ⟨rfl, hle⟩
      simp only [send]
      rw [writeFrame_of_tooLarge hlarge]

/-- One tick of the keepalive pinger. -/
def ping (c : Client) (r₁ r₂ : WriteResult) : Client :=
  match c.conn with
  | none => c
  | some conn =>
    match writeFrame conn framePing [] r₁ r₂ with
    | (.error _, conn) => { c with conn := some conn.close }
    | (.ok _, conn) => { c with conn := some conn }

/-- A tick writes one frame on the connection, which is closed unless all of it went out. -/
theorem ping_spec {c : Client} {conn : Conn} (hconn : c.conn = some conn) (r₁ r₂ : WriteResult) :
    ∃ conn', c.ping r₁ r₂ = { c with conn := some conn' } ∧
      conn'.out = (writeFrame conn framePing [] r₁ r₂).2.out ∧
      (conn.closed = true → conn'.closed = true) ∧
      (conn'.closed = false → r₁ = .all ∧ r₂ = .all) := by
  have hclosed := closed_writeFrame conn framePing [] r₁ r₂
  rw [ping, hconn]
  dsimp only
  rcases hwrite : writeFrame conn framePing [] r₁ r₂ with ⟨_ | _, conn'⟩
  · exact ⟨conn'.close, rfl, rfl, fun _ => rfl, by simp [Conn.close]⟩
  · rw [hwrite] at hclosed
    refine ⟨conn', rfl, rfl, fun h => hclosed.trans h, ?_⟩
    intro hopen
    have hspec := writeFrame_spec ⟨framePing, [], Nat.zero_le _⟩ (hclosed.symm.trans hopen) r₁ r₂
    by_contra hcut
    rw [if_neg hcut, hwrite] at hspec
    cases hspec

/-- The deferred `Close` of a session. -/
def hangUp (c : Client) : Client := { c with conn := c.conn.map Conn.close }

/-- What `run` does when a session has returned. -/
def lost (c : Client) : Client := { c with up := false, conn := none }

/-- `Close`. -/
def close (c : Client) : Client := { c with closed := true, conn := c.conn.map Conn.close }

end Client

/-! ### The record -/

/-- The client, the frames written on its connection with the number of bytes that went out, and the
connections before. -/
structure Traffic where
  client : Client
  sent : List (Frame × ℕ)
  past : List (Conn × List (Frame × ℕ))

/-- The steps. -/
inductive ClientOp where
  | connect
  | send (dst : Bytes32) (payload : List UInt8) (r₁ r₂ : WriteResult)
  | ping (r₁ r₂ : WriteResult)
  | hangUp
  | lost
  | close

/-- The frame a step writes. -/
def ClientOp.frame : ClientOp → Option Frame
  | .send dst payload _ _ =>
    if h : (Client.sendBody dst payload).length ≤ maxFrameLen then
      some ⟨frameSend, Client.sendBody dst payload, h⟩
    else none
  | .ping _ _ => some ⟨framePing, [], Nat.zero_le _⟩
  | _ => none

namespace Traffic

/-- The connections and what was written on them. -/
def links (t : Traffic) : List (Conn × List (Frame × ℕ)) :=
  (t.client.conn.map fun conn => (conn, t.sent)).toList ++ t.past

/-- The bytes that went out on the current connection. -/
def outLength (c : Client) : ℕ := (c.conn.map (·.out.length)).getD 0

/-- The record after a step of the client. -/
def record (t : Traffic) (f : Option Frame) (c : Client) : Traffic where
  client := c
  sent := match f with
    | some f =>
      if outLength t.client < outLength c then
        t.sent ++ [(f, outLength c - outLength t.client)]
      else t.sent
    | none => t.sent
  past := t.past

/-- One step. A session ends only after its connection is closed, and starts with a fresh one. -/
def step (t : Traffic) (op : ClientOp) : Traffic :=
  match op with
  | .connect =>
    if t.client.conn.isSome then t
    else ⟨t.client.connect ⟨[], false⟩, [], t.past⟩
  | .send dst payload r₁ r₂ => t.record op.frame (t.client.send dst payload r₁ r₂).2
  | .ping r₁ r₂ => t.record op.frame (t.client.ping r₁ r₂)
  | .hangUp => { t with client := t.client.hangUp }
  | .lost =>
    match t.client.conn with
    | some conn =>
      if conn.closed then ⟨t.client.lost, [], (conn, t.sent) :: t.past⟩ else t
    | none => { t with client := t.client.lost }
  | .close => { t with client := t.client.close }

/-- A client that was just made. -/
def start : Traffic := ⟨.new, [], []⟩

end Traffic

/-- What the relay gets to see of a connection: its stream is that of the frames written on it, at
most the last of them cut off, and the read loop reads exactly those that are whole. A connection on
which a ping was cut off is closed. -/
def Intact (link : Conn × List (Frame × ℕ)) : Prop :=
  link.1.out = frames.written link.2 ∧ frames.Framed link.2 ∧
    (∀ w ∈ link.2, frames.whole w = false → w.1.typ = frameSend ∨ link.1.closed = true) ∧
    frames.decodeAll link.1.out = ((link.2.takeWhile frames.whole).map Prod.fst,
      frames.written (link.2.dropWhile frames.whole))

instance (link : Conn × List (Frame × ℕ)) : Decidable (Intact link) :=
  inferInstanceAs (Decidable (_ ∧ _ ∧ _ ∧ _))

/-- How many bytes a step writes, if the connection is open. -/
def ClientOp.writes (c : Client) : ClientOp → ℕ
  | .send dst payload r₁ r₂ =>
    if c.Ready (Client.sendBody dst payload) then
      bytesOut r₁ r₂ (Client.sendBody dst payload).length
    else 0
  | .ping r₁ r₂ => bytesOut r₁ r₂ 0
  | .connect | .hangUp | .lost | .close => 0

namespace Traffic

/-- How many bytes a step puts on the connection. -/
def puts (t : Traffic) (op : ClientOp) : ℕ :=
  if t.client.conn.any (!·.closed) then op.writes t.client else 0

/-- The step puts nothing on the connection if a frame of a `Send` was cut off on it. -/
def Unbroken (t : Traffic) (op : ClientOp) : Prop :=
  0 < t.puts op → ∀ w ∈ t.sent, w.1.typ = frameSend → frames.whole w = true

instance (t : Traffic) (op : ClientOp) : Decidable (t.Unbroken op) :=
  inferInstanceAs (Decidable (_ → _))

end Traffic

/-! ### Runs -/

theorem intact_iff {link : Conn × List (Frame × ℕ)} : Intact link ↔
    link.1.out = frames.written link.2 ∧ frames.Framed link.2 ∧
      ∀ w ∈ link.2, frames.whole w = false → w.1.typ = frameSend ∨ link.1.closed = true := by
  constructor
  · rintro ⟨hout, hframed, hcut, -⟩
    exact ⟨hout, hframed, hcut⟩
  · rintro ⟨hout, hframed, hcut⟩
    refine ⟨hout, hframed, hcut, ?_⟩
    rw [hout]
    exact Framing.Codec.decodeAll_written hframed

/-- The record of one connection after a write. -/
def addSent (sent : List (Frame × ℕ)) (f : Frame) (before after : ℕ) : List (Frame × ℕ) :=
  if before < after then sent ++ [(f, after - before)] else sent

/-- **A write on an open connection.** If it is cut off, it is that of a `Send`, or the connection
is closed. -/
theorem intact_write_iff {conn conn' : Conn} {sent : List (Frame × ℕ)} (h : Intact (conn, sent))
    (hopen : conn.closed = false) {f : Frame} {k : ℕ} (hk : k ≤ f.bytes.length)
    (hout : conn'.out = conn.out ++ f.bytes.take k)
    (hcut : k < f.bytes.length → f.typ = frameSend ∨ conn'.closed = true) :
    Intact (conn', addSent sent f conn.out.length conn'.out.length) ↔
      (0 < k → ∀ w ∈ sent, w.1.typ = frameSend → frames.whole w = true) := by
  obtain ⟨hrec, hframed, hsends⟩ := intact_iff.mp h
  -- on an open connection only frames of `Send` can have been cut off
  have hsends : ∀ w ∈ sent, frames.whole w = false → w.1.typ = frameSend := by
    intro w hw hwhole
    exact (hsends w hw hwhole).resolve_right (by simp [hopen])
  have hlen : conn'.out.length = conn.out.length + k := by
    rw [hout, List.length_append, List.length_take, Nat.min_eq_left hk]
  rw [hlen, addSent, intact_iff]
  split_ifs with hpos
  · rw [Nat.add_sub_cancel_left, Framing.Codec.framed_concat_iff]
    have hwritten : conn'.out = frames.written (sent ++ [(f, k)]) := by
      rw [hout, Framing.Codec.written_append, Framing.Codec.written_singleton, ← hrec]
      rfl
    have hlast : ∀ w ∈ sent ++ [(f, k)], frames.whole w = false →
        w.1.typ = frameSend ∨ conn'.closed = true := by
      intro w hw hwhole
      rcases List.mem_append.mp hw with hw | hw
      · exact .inl (hsends w hw hwhole)
      · obtain rfl := List.mem_singleton.mp hw
        rw [Framing.Codec.whole, decide_eq_false_iff_not, Nat.not_le] at hwhole
        exact hcut hwhole
    constructor
    · rintro ⟨-, hall, -⟩ - w hw -
      exact hall w hw
    · intro hall
      refine ⟨hwritten, fun w hw => ?_, hlast⟩
      by_contra hwhole
      exact hwhole (hall (by omega) w hw (hsends w hw (Bool.eq_false_of_not_eq_true hwhole)))
  · obtain rfl : k = 0 := by omega
    rw [List.take_zero, List.append_nil] at hout
    refine iff_of_true ⟨hout.trans hrec, hframed, ?_⟩ fun h => absurd h (lt_irrefl 0)
    exact fun w hw hwhole => .inl (hsends w hw hwhole)

namespace Traffic

/-- Every connection is intact. -/
def Inv (t : Traffic) : Prop := ∀ link ∈ t.links, Intact link

variable {t : Traffic}

theorem inv_iff :
    t.Inv ↔ (∀ conn ∈ t.client.conn, Intact (conn, t.sent)) ∧ ∀ link ∈ t.past, Intact link := by
  rw [Inv, links]
  cases t.client.conn <;> simp

/-- `writeFrame` on the current connection. -/
theorem inv_record_iff (h : t.Inv) {f : Frame} {conn conn' : Conn} {c : Client}
    (hconn : t.client.conn = some conn) (hc : c.conn = some conn') {r₁ r₂ : WriteResult}
    (hout : conn'.out = (writeFrame conn f.typ f.body r₁ r₂).2.out)
    (hclosed : conn.closed = true → conn'.closed = true)
    (hcut : bytesOut r₁ r₂ f.body.length < 3 + f.body.length →
      f.typ = frameSend ∨ conn'.closed = true) :
    (t.record (some f) c).Inv ↔ (conn.closed = false → 0 < bytesOut r₁ r₂ f.body.length →
      ∀ w ∈ t.sent, w.1.typ = frameSend → frames.whole w = true) := by
  obtain ⟨hcur, hpast⟩ := inv_iff.mp h
  have hinv : (t.record (some f) c).Inv ↔
      Intact (conn', addSent t.sent f conn.out.length conn'.out.length) := by
    have hsent : (t.record (some f) c).sent =
        addSent t.sent f conn.out.length conn'.out.length := by
      simp only [record, outLength, addSent, hconn, hc, Option.map_some, Option.getD_some]
    rw [inv_iff, hsent]
    show (∀ conn ∈ c.conn, _) ∧ (∀ link ∈ t.past, Intact link) ↔ _
    rw [and_iff_left hpast, hc]
    simp
  rw [hinv]
  cases hb : conn.closed with
  | true =>
    -- nothing goes out on a closed connection
    obtain ⟨hrec, hframed, -⟩ := intact_iff.mp (hcur conn hconn)
    rw [writeFrame_of_closed hb] at hout
    rw [hout, addSent, if_neg (lt_irrefl _)]
    refine iff_of_true (intact_iff.mpr ⟨hout.trans hrec, hframed, ?_⟩) fun h => Bool.noConfusion h
    exact fun _ _ _ => .inr (hclosed hb)
  | false =>
    rw [writeFrame_spec f hb] at hout
    have hle : bytesOut r₁ r₂ f.body.length ≤ f.bytes.length := by
      rw [Frame.length_bytes]
      exact bytesOut_le _ _ _
    rw [intact_write_iff (hcur conn hconn) hb hle hout (by rwa [Frame.length_bytes])]
    exact ⟨fun h _ => h, fun h => h rfl⟩

/-- A step that leaves the client alone is not on record. -/
theorem record_self (t : Traffic) (f : Option Frame) : t.record f t.client = t := by
  cases f <;> simp [record]

theorem puts_of_none (h : t.client.conn = none) (op : ClientOp) : t.puts op = 0 := by
  rw [puts, h]
  rfl

theorem unbroken_of_puts {op : ClientOp} (h : t.puts op = 0) : t.Unbroken op :=
  fun hpos => absurd hpos (by omega)

/-- The connection is there. -/
theorem unbroken_iff {conn : Conn} (hconn : t.client.conn = some conn) (op : ClientOp) :
    t.Unbroken op ↔ (conn.closed = false → 0 < op.writes t.client →
      ∀ w ∈ t.sent, w.1.typ = frameSend → frames.whole w = true) := by
  rw [Unbroken, puts, hconn, Option.any_some]
  cases conn.closed <;> simp

theorem inv_send_iff (h : t.Inv) (dst : Bytes32) (payload : List UInt8) (r₁ r₂ : WriteResult) :
    (t.step (.send dst payload r₁ r₂)).Inv ↔ t.Unbroken (.send dst payload r₁ r₂) := by
  rw [step]
  by_cases hready : t.client.Ready (Client.sendBody dst payload)
  · have hframe : (ClientOp.send dst payload r₁ r₂).frame =
        some ⟨frameSend, Client.sendBody dst payload, hready.2⟩ := dif_pos hready.2
    cases hconn : t.client.conn with
    | none =>
      have hsame : (t.client.send dst payload r₁ r₂).2 = t.client := by
        rw [Client.send, hready.1, hconn]
      rw [hsame, record_self]
      exact iff_of_true h (unbroken_of_puts (puts_of_none hconn _))
    | some conn =>
      have hclosed := closed_writeFrame conn frameSend (Client.sendBody dst payload) r₁ r₂
      rw [Client.send_of_ready hready hconn, hframe, inv_record_iff h hconn rfl rfl
        (fun hb => hclosed.trans hb) fun _ => .inl rfl]
      rw [unbroken_iff hconn, ClientOp.writes, if_pos hready]
  · rw [Client.send_of_not_ready hready, record_self]
    refine iff_of_true h (unbroken_of_puts ?_)
    rw [puts, ClientOp.writes, if_neg hready, ite_self]

theorem inv_ping_iff (h : t.Inv) (r₁ r₂ : WriteResult) :
    (t.step (.ping r₁ r₂)).Inv ↔ t.Unbroken (.ping r₁ r₂) := by
  rw [step]
  cases hconn : t.client.conn with
  | none =>
    have hsame : t.client.ping r₁ r₂ = t.client := by rw [Client.ping, hconn]
    rw [hsame, record_self]
    exact iff_of_true h (unbroken_of_puts (puts_of_none hconn _))
  | some conn =>
    obtain ⟨conn', hping, hout, hclosed, hall⟩ := Client.ping_spec hconn r₁ r₂
    have hcut : bytesOut r₁ r₂ 0 < 3 + 0 → framePing = frameSend ∨ conn'.closed = true := by
      intro hcut
      by_contra hopen
      obtain ⟨rfl, rfl⟩ := hall (Bool.eq_false_of_not_eq_true fun h => hopen (.inr h))
      exact lt_irrefl _ hcut
    rw [hping]
    rw [unbroken_iff hconn]
    exact inv_record_iff (f := ⟨framePing, [], Nat.zero_le _⟩) h hconn rfl hout hclosed hcut

/-- Closing the connection does not change what is on it. -/
theorem inv_of_close (h : t.Inv) {c : Client} (hc : c.conn = t.client.conn.map Conn.close) :
    ({ t with client := c } : Traffic).Inv := by
  obtain ⟨hcur, hpast⟩ := inv_iff.mp h
  refine inv_iff.mpr ⟨?_, hpast⟩
  intro conn hconn
  obtain ⟨conn', hconn', rfl⟩ := Option.map_eq_some_iff.mp (hc.symm.trans hconn)
  obtain ⟨hout, hframed, -⟩ := intact_iff.mp (hcur conn' hconn')
  exact intact_iff.mpr ⟨hout, hframed, fun _ _ _ => .inr rfl⟩

theorem inv_connect (h : t.Inv) : (t.step .connect).Inv := by
  rw [step]
  split_ifs with hsome
  · exact h
  · refine inv_iff.mpr ⟨?_, (inv_iff.mp h).2⟩
    intro conn hconn
    have hfresh : conn = ⟨[], false⟩ := by
      simp only [Client.connect] at hconn
      split_ifs at hconn
      · rw [hconn] at hsome
        exact absurd rfl hsome
      · exact (Option.some.inj hconn).symm
    rw [hfresh]
    exact intact_iff.mpr ⟨rfl, Framing.Codec.framed_nil, by simp⟩

theorem inv_lost (h : t.Inv) : (t.step .lost).Inv := by
  obtain ⟨hcur, hpast⟩ := inv_iff.mp h
  rw [step]
  split
  · next conn hconn =>
    split_ifs
    · refine inv_iff.mpr ⟨by simp [Client.lost], ?_⟩
      rintro link (_ | ⟨_, hlink⟩)
      · exact hcur conn hconn
      · exact hpast link hlink
    · exact h
  · exact inv_iff.mpr ⟨by simp [Client.lost], hpast⟩

/-- **One step**: the exact condition. -/
theorem inv_step_iff (t : Traffic) (op : ClientOp) (h : t.Inv) :
    (t.step op).Inv ↔ t.Unbroken op := by
  have hidle : t.puts op = 0 → (t.step op).Inv → ((t.step op).Inv ↔ t.Unbroken op) :=
    fun hputs hinv => iff_of_true hinv (unbroken_of_puts hputs)
  cases op with
  | send dst payload r₁ r₂ => exact inv_send_iff h dst payload r₁ r₂
  | ping r₁ r₂ => exact inv_ping_iff h r₁ r₂
  | hangUp => exact hidle (ite_self 0) (inv_of_close h rfl)
  | close => exact hidle (ite_self 0) (inv_of_close h rfl)
  | connect => exact hidle (ite_self 0) (inv_connect h)
  | lost => exact hidle (ite_self 0) (inv_lost h)

theorem inv_start : start.Inv := inv_iff.mpr ⟨by simp [start, Client.new], by simp [start]⟩

end Traffic

/-- **The relay reads what went out whole.** After every beginning of a run the stream of every
connection is the frames written on it, of which at most the last one was cut off, with nothing
after it, and the read loop of the relay reads exactly the others, just when no step puts anything
on a connection on which a frame of a `Send` was cut off. -/
theorem intact_run_iff (ops : List ClientOp) :
    (∀ ops', ops' <+: ops → ∀ link ∈ (run Traffic.step .start ops').links, Intact link) ↔
      Along Traffic.step Traffic.Unbroken .start ops :=
  forall_prefix_iff_along (J := fun _ => True) trivial Traffic.inv_start (fun _ _ _ => trivial)
    (fun t op _ h => Traffic.inv_step_iff t op h) ops

/-! ### A frame after one that was cut off -/

/-- The key whose bytes are all `b`. -/
def sampleDst (b : UInt8) : Bytes32 := ⟨List.replicate 32 b, List.length_replicate⟩

/-- A ping is cut off and the connection closed. On a second one a frame of a `Send` is cut off, and
nothing is sent after it. -/
theorem intact_ping_cut :
    List.Forall Intact (run Traffic.step .start
      [.connect, .send (sampleDst 1) [7, 7] .all .all, .ping (.cut 2) .all,
        .send (sampleDst 1) [8] .all .all, .hangUp, .lost, .connect,
        .send (sampleDst 2) [9] .all .all, .send (sampleDst 2) [9] .all (.cut 4)]).links :=
  List.forall_iff_forall_mem.mpr
    ((intact_run_iff _).mpr (by decide +kernel) _ (List.prefix_refl _))

/-- **A frame sent after one that was cut off** is read as part of that one. Of the first frame only
the header goes out, so that the relay takes the header of the second frame for the beginning of a
key. -/
theorem send_after_cut :
    ¬ ∀ link ∈ (run Traffic.step .start
      [.connect, .send (sampleDst 1) [7, 7] .all (.cut 0),
        .send (sampleDst 2) [8, 8] .all .all]).links, Intact link := by
  decide +kernel

end Relay

end OverMesh
