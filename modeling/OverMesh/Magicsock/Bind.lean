import OverMesh.Internal.Channel
import OverMesh.Internal.Netip
import Mathlib.Data.Nat.Basic

/-!
# One socket for WireGuard and STUN

`bind.go` of `internal/magicsock`. One UDP socket carries WireGuard and the connectivity checks of
ICE, and `receive` tells them apart by their shape: what `stun.IsMessage` accepts goes to the
virtual connection that the ICE mux reads, and anything else is handed to WireGuard.

`receive` blocks in a read. What happens meanwhile on other goroutines, the mux reading from its
connection and `Close`, is an input, as is what the read gives and which of two ready cases the
`select` of `deliver` takes. WireGuard calls `receive` again and again, each time with a buffer
whose contents are left over from earlier packets.

`Open` sets `pc` and `muxway` and `Close` clears them, both under the lock. A call that runs has
them in variables of its own, so that here the connection outlives `Close` and only the flag `pc`
goes. WireGuard waits for its readers before it opens the bind again.

The relay's inbox, sending and the endpoint strings have no place here.

## Main definitions

* `isMessage` — `stun.IsMessage`
* `Bind.receiveLoop`, `Bind.receive` — a call, with the reads it makes
* `Bind.calls` — call after call
* `wireGuardIndex?` — WireGuard messages, with the index they carry

## Main results

* `receive_wireGuard_iff` — a WireGuard message is handed on unless its index is the magic cookie,
  and what is handed on is exactly what is not STUN, in order
-/

namespace OverMesh

open Netip Channel

namespace Magicsock

/-! ### Shapes -/

/-- `binary.BigEndian.Uint32` of the bytes 4 to 8. -/
def cookie (b : List UInt8) : ℕ :=
  ((b.drop 4).take 4).foldl (fun acc x => acc * 256 + x.toNat) 0

/-- `stun.IsMessage`. -/
def isMessage (b : List UInt8) : Bool := 20 ≤ b.length && cookie b == 0x2112A442

/-- The index that a WireGuard message carries after its type and three zero bytes, least
significant byte first. -/
def wireGuardIndex? : List UInt8 → Option ℕ
  | typ :: r :: r' :: r'' :: a :: b :: c :: d :: _ =>
    if (1 ≤ typ ∧ typ ≤ 4) ∧ r = 0 ∧ r' = 0 ∧ r'' = 0 then
      some (a.toNat + b.toNat * 2 ^ 8 + c.toNat * 2 ^ 16 + d.toNat * 2 ^ 24)
    else none
  | _ => none

/-- The index bytes are where STUN has its magic cookie. -/
theorem isMessage_iff_of_index {b : List UInt8} {i : ℕ} (h : wireGuardIndex? b = some i) :
    isMessage b = true ↔ 20 ≤ b.length ∧ i = 0x42A41221 := by
  rw [wireGuardIndex?.eq_def] at h
  split at h
  · next typ r r' r'' a b c d rest =>
    split at h
    · have hi := Option.some.inj h
      have ha := a.toNat_lt
      have hb := b.toNat_lt
      have hc := c.toNat_lt
      have hd := d.toNat_lt
      rw [isMessage, Bool.and_eq_true, decide_eq_true_iff, beq_iff_eq]
      refine and_congr_right fun _ => ?_
      show ((((0 * 256 + a.toNat) * 256 + b.toNat) * 256 + c.toNat) * 256 + d.toNat = _) ↔ _
      omega
    · exact absurd h (by simp)
  · exact absurd h (by simp)

/-! ### The connection of the mux -/

/-- `muxPacket`. -/
structure MuxPacket where
  data : List UInt8
  addr : Addr × ℕ
  deriving DecidableEq

/-- `muxConn`, whose channel is never closed. -/
structure MuxConn where
  ch : Chan MuxPacket
  done : Bool
  ch_open : ch.closed = false

/-- `newMuxConn`. -/
def newMuxConn : MuxConn := ⟨Chan.make 64, false, rfl⟩

namespace MuxConn

/-- `deliver`. When there is room and the connection is closed, either case may be taken. -/
def deliver (m : MuxConn) (takeDone : Bool) (data : List UInt8) (addr : Addr × ℕ) : MuxConn :=
  if m.done && takeDone then m
  else { m with
    ch := (m.ch.trySend ⟨data, addr⟩).2
    ch_open := Chan.closed_trySend.trans m.ch_open }

/-- `ReadFrom` of the mux, as far as it takes a packet from the channel. -/
def readFrom (m : MuxConn) : MuxConn :=
  { m with ch := m.ch.recv, ch_open := Chan.closed_recv.trans m.ch_open }

/-- `close`. -/
def close (m : MuxConn) : MuxConn := { m with done := true }

end MuxConn

/-! ### Reads -/

section Reads

variable {room : ℕ}

/-- A datagram that WireGuard's buffers have room for, with its source. -/
structure Datagram (room : ℕ) where
  data : List UInt8
  addr : Addr
  port : ℕ
  data_le : data.length ≤ room

/-- What WireGuard is to be given of a datagram: the bytes, and the endpoint it came from. -/
def Datagram.packet (d : Datagram room) : List UInt8 × Addr × ℕ := (d.data, d.addr.unmap, d.port)

/-- What the mux is to be given of it. -/
def Datagram.muxPacket (d : Datagram room) : MuxPacket := ⟨d.data, d.addr, d.port⟩

/-- `packets[0]`, the buffer WireGuard passes. -/
structure Packets (room : ℕ) where
  buf : List UInt8
  length_eq : buf.length = room

/-- A read overwrites the beginning of the buffer. -/
def Packets.read (p : Packets room) (d : Datagram room) : Packets room where
  buf := d.data ++ p.buf.drop d.data.length
  length_eq := by
    rw [List.length_append, List.length_drop, p.length_eq]
    exact Nat.add_sub_cancel' d.data_le

theorem Packets.take_read (p : Packets room) (d : Datagram room) :
    (p.read d).buf.take d.data.length = d.data := List.take_left

/-- Errors of a read and of `receive`. -/
inductive ReadError where
  /-- `net.ErrClosed`. -/
  | closed
  | other (err : String)
  deriving DecidableEq

/-- What other goroutines do while a read blocks. -/
inductive Meanwhile where
  | muxRead
  | close
  deriving DecidableEq

/-- A turn of the loop of `receive`: what happens before the read returns, what it gives, and what
the `select` of `deliver` takes. -/
structure Turn (room : ℕ) where
  meanwhile : List Meanwhile
  read : Except ReadError (Datagram room)
  takeDone : Bool

/-- The datagrams that arrive, in order. -/
def datagrams (ts : List (Turn room)) : List (Datagram room) :=
  ts.filterMap fun t => t.read.toOption

end Reads

/-! ### The bind -/

/-- `Bind`, as far as `receive` reads and changes it. -/
structure Bind where
  /-- The socket is open. -/
  pc : Bool
  muxway : MuxConn
  wgPkts : UInt64

/-- What a call of `receive` leaves behind. -/
structure Received (room : ℕ) where
  /-- The size and the endpoint it returns, or an error; nothing while it is still blocked. -/
  result : Option (Except ReadError (ℕ × Addr × ℕ))
  bind : Bind
  packets : Packets room
  /-- The turns that are left. -/
  rest : List (Turn room)

/-- The packet that WireGuard finds in its buffer after the call. -/
def Received.returned {room : ℕ} (r : Received room) : Option (List UInt8 × Addr × ℕ) :=
  r.result.bind fun res => res.toOption.map fun x => (r.packets.buf.take x.1, x.2)

namespace Bind

variable {room : ℕ}

/-- `Open` on a closed bind, once the socket is there. -/
def opened (b : Bind) : Bind := { b with pc := true, muxway := newMuxConn }

/-- `Close`. -/
def close (b : Bind) : Bind := { b with pc := false, muxway := b.muxway.close }

/-- One step of another goroutine. -/
def meanwhile (b : Bind) : Meanwhile → Bind
  | .muxRead => { b with muxway := b.muxway.readFrom }
  | .close => b.close

/-- The loop of `receive`. -/
def receiveLoop (b : Bind) (packets : Packets room) : List (Turn room) → Received room
  | [] => ⟨none, b, packets, []⟩
  | t :: ts =>
    let b := t.meanwhile.foldl meanwhile b
    match t.read with
    | .error err => ⟨some (.error err), b, packets, ts⟩
    | .ok d =>
      let packets := packets.read d
      let n := d.data.length
      if isMessage (packets.buf.take n) then
        receiveLoop { b with
          muxway := b.muxway.deliver t.takeDone (packets.buf.take n) (d.addr, d.port) } packets ts
      else ⟨some (.ok (n, d.addr.unmap, d.port)), { b with wgPkts := b.wgPkts + 1 }, packets, ts⟩

/-- `receive`. -/
def receive (b : Bind) (packets : Packets room) (ts : List (Turn room)) : Received room :=
  if b.pc then b.receiveLoop packets ts else ⟨some (.error .closed), b, packets, ts⟩

/-- What a number of calls hand to WireGuard, one for each buffer. -/
structure Calls (room : ℕ) where
  returned : List (List UInt8 × Addr × ℕ)
  bind : Bind
  rest : List (Turn room)

/-- WireGuard calls `receive` with one buffer after the other. -/
def calls (b : Bind) : List (Packets room) → List (Turn room) → Calls room
  | [], ts => ⟨[], b, ts⟩
  | p :: ps, ts =>
    let r := b.receive p ts
    let q := r.bind.calls ps r.rest
    ⟨r.returned.toList ++ q.returned, q.bind, q.rest⟩

/-! #### One turn -/

section Turns

variable {b : Bind} {packets : Packets room} {t : Turn room} {ts : List (Turn room)}

theorem receiveLoop_error {err : ReadError} (h : t.read = .error err) :
    b.receiveLoop packets (t :: ts) =
      ⟨some (.error err), t.meanwhile.foldl meanwhile b, packets, ts⟩ := by
  rw [receiveLoop, h]

/-- A STUN message is passed on, and the loop goes on. -/
theorem receiveLoop_stun {d : Datagram room} (h : t.read = .ok d) (hd : isMessage d.data = true) :
    b.receiveLoop packets (t :: ts) =
      receiveLoop { t.meanwhile.foldl meanwhile b with
        muxway := (t.meanwhile.foldl meanwhile b).muxway.deliver t.takeDone d.data
          (d.addr, d.port) } (packets.read d) ts := by
  rw [receiveLoop, h]
  show (if isMessage ((packets.read d).buf.take d.data.length) then _ else _) = _
  rw [packets.take_read d, if_pos hd]

/-- Anything else is returned. -/
theorem receiveLoop_other {d : Datagram room} (h : t.read = .ok d)
    (hd : ¬ isMessage d.data = true) : b.receiveLoop packets (t :: ts) =
      ⟨some (.ok (d.data.length, d.addr.unmap, d.port)),
        { t.meanwhile.foldl meanwhile b with wgPkts := (t.meanwhile.foldl meanwhile b).wgPkts + 1 },
        packets.read d, ts⟩ := by
  rw [receiveLoop, h]
  show (if isMessage ((packets.read d).buf.take d.data.length) then _ else _) = _
  rw [packets.take_read d, if_neg hd]

/-- It is then in the buffer. -/
theorem returned_other {d : Datagram room} (h : t.read = .ok d) (hd : ¬ isMessage d.data = true) :
    (b.receiveLoop packets (t :: ts)).returned = some d.packet := by
  rw [receiveLoop_other h hd]
  show some ((packets.read d).buf.take d.data.length, _) = some d.packet
  rw [packets.take_read d]
  rfl

end Turns

/-! #### A call -/

/-- What of the datagrams is for WireGuard. -/
def surfaced (ts : List (Turn room)) : List (List UInt8 × Addr × ℕ) :=
  ((datagrams ts).filter fun d => !isMessage d.data).map Datagram.packet

section Split

variable {t : Turn room} {ts : List (Turn room)}

theorem surfaced_append (ts ts' : List (Turn room)) :
    surfaced (ts ++ ts') = surfaced ts ++ surfaced ts' := by
  rw [surfaced, datagrams, List.filterMap_append, List.filter_append, List.map_append]
  rfl

theorem datagrams_error {err : ReadError} (h : t.read = .error err) : datagrams [t] = [] := by
  rw [datagrams, List.filterMap_cons, h]
  rfl

theorem datagrams_ok {d : Datagram room} (h : t.read = .ok d) : datagrams [t] = [d] := by
  rw [datagrams, List.filterMap_cons, h]
  rfl

theorem surfaced_stun {d : Datagram room} (h : t.read = .ok d) (hd : isMessage d.data = true) :
    surfaced [t] = [] := by
  rw [surfaced, datagrams_ok h, List.filter_cons_of_neg (by simp [hd])]
  rfl

theorem surfaced_other {d : Datagram room} (h : t.read = .ok d) (hd : ¬ isMessage d.data = true) :
    surfaced [t] = [d.packet] := by
  rw [surfaced, datagrams_ok h, List.filter_cons_of_pos (by simp [hd])]
  rfl

/-- What is for WireGuard is not STUN. -/
theorem isMessage_of_mem_surfaced {x : List UInt8 × Addr × ℕ} (h : x ∈ surfaced ts) :
    isMessage x.1 = false := by
  obtain ⟨d, hd, rfl⟩ := List.mem_map.mp h
  show isMessage d.data = false
  simpa using (List.mem_filter.mp hd).2

end Split

/-- **A call** takes some of the turns, at least one if there is any, and returns what of them is
for WireGuard, which is one packet or none. -/
theorem receiveLoop_spec (b : Bind) (packets : Packets room) (ts : List (Turn room)) :
    ∃ taken, ts = taken ++ (b.receiveLoop packets ts).rest ∧
      (b.receiveLoop packets ts).returned.toList = surfaced taken ∧ (ts ≠ [] → taken ≠ []) := by
  induction ts generalizing b packets with
  | nil => exact ⟨[], rfl, rfl, id⟩
  | cons t ts ih =>
    cases hr : t.read with
    | error err =>
      refine ⟨[t], ?_, ?_, fun _ => List.cons_ne_nil _ _⟩
      · rw [receiveLoop_error hr]
        rfl
      · rw [receiveLoop_error hr, surfaced, datagrams_error hr]
        rfl
    | ok d =>
      by_cases hd : isMessage d.data = true
      · rw [receiveLoop_stun hr hd]
        obtain ⟨taken, hts, hret, -⟩ := ih _ (packets.read d)
        refine ⟨t :: taken, congrArg (t :: ·) hts, ?_, fun _ => List.cons_ne_nil _ _⟩
        rw [hret, ← List.singleton_append, surfaced_append, surfaced_stun hr hd, List.nil_append]
      · refine ⟨[t], ?_, ?_, fun _ => List.cons_ne_nil _ _⟩
        · rw [receiveLoop_other hr hd]
          rfl
        · rw [returned_other hr hd, surfaced_other hr hd]
          rfl

/-- A WireGuard message that is next is what the call returns, unless it is taken for STUN. -/
theorem returned_eq_iff {b : Bind} (hopen : b.pc = true) (packets : Packets room) {t : Turn room}
    (ts : List (Turn room)) {d : Datagram room} (h : t.read = .ok d) :
    (b.receive packets (t :: ts)).returned = some d.packet ↔ ¬ isMessage d.data = true := by
  rw [receive, if_pos hopen]
  refine ⟨fun hret hd => ?_, fun hd => returned_other h hd⟩
  -- had it been taken for STUN, a later datagram with the same bytes would have been too
  obtain ⟨taken, -, hsurf, -⟩ := receiveLoop_spec b packets (t :: ts)
  rw [hret] at hsurf
  have hmem : d.packet ∈ surfaced taken := by
    rw [← hsurf]
    exact List.mem_singleton_self _
  have hnot : isMessage d.data = false := isMessage_of_mem_surfaced hmem
  rw [hd] at hnot
  exact Bool.noConfusion hnot

/-! #### Call after call -/

theorem pc_meanwhile {b : Bind} {os : List Meanwhile} (h : Meanwhile.close ∉ os) :
    (os.foldl meanwhile b).pc = b.pc := by
  induction os generalizing b with
  | nil => rfl
  | cons o os ih =>
    have hos : Meanwhile.close ∉ os := fun hm => h (List.mem_cons_of_mem _ hm)
    cases o with
    | muxRead => exact ih hos
    | close => exact absurd List.mem_cons_self h

/-- The bind stays open as long as nobody closes it. -/
theorem pc_receiveLoop {b : Bind} (packets : Packets room) {ts : List (Turn room)}
    (h : ∀ t ∈ ts, Meanwhile.close ∉ t.meanwhile) : (b.receiveLoop packets ts).bind.pc = b.pc := by
  induction ts generalizing b packets with
  | nil => rfl
  | cons t ts ih =>
    have ht := pc_meanwhile (b := b) (h t List.mem_cons_self)
    cases hr : t.read with
    | error err =>
      rw [receiveLoop_error hr]
      exact ht
    | ok d =>
      by_cases hd : isMessage d.data = true
      · rw [receiveLoop_stun hr hd, ih _ fun t' ht' => h t' (List.mem_cons_of_mem _ ht')]
        exact ht
      · rw [receiveLoop_other hr hd]
        exact ht

/-- A call of `receive`: on a closed bind it takes nothing and returns nothing. -/
theorem receive_spec (b : Bind) (packets : Packets room) (ts : List (Turn room)) :
    ∃ taken, ts = taken ++ (b.receive packets ts).rest ∧
      (b.receive packets ts).returned.toList = surfaced taken ∧
      (b.pc = true → ts ≠ [] → taken ≠ []) := by
  rw [receive]
  by_cases hopen : b.pc = true
  · rw [if_pos hopen]
    obtain ⟨taken, hts, hret, hne⟩ := receiveLoop_spec b packets ts
    exact ⟨taken, hts, hret, fun _ => hne⟩
  · rw [if_neg hopen]
    exact ⟨[], rfl, rfl, fun h => absurd h hopen⟩

/-- **Calls hand on exactly what is not STUN**, in order, of the turns they take; and with a call
for each turn, on a bind that is open and stays so, they take all. -/
theorem calls_spec (b : Bind) (ps : List (Packets room)) (ts : List (Turn room)) :
    ∃ taken, ts = taken ++ (b.calls ps ts).rest ∧ (b.calls ps ts).returned = surfaced taken ∧
      (b.pc = true → ts.length ≤ ps.length → (∀ t ∈ ts, Meanwhile.close ∉ t.meanwhile) →
        (b.calls ps ts).rest = []) := by
  induction ps generalizing b ts with
  | nil =>
    refine ⟨[], rfl, rfl, fun _ hlen _ => ?_⟩
    exact List.length_eq_zero_iff.mp (Nat.le_zero.mp hlen)
  | cons p ps ih =>
    obtain ⟨taken, hts, hret, hne⟩ := b.receive_spec p ts
    obtain ⟨taken', hts', hret', hrest⟩ := ih (b.receive p ts).bind (b.receive p ts).rest
    refine ⟨taken ++ taken', ?_, ?_, fun hopen hlen hclose => ?_⟩
    · rw [List.append_assoc]
      exact hts.trans (congrArg (taken ++ ·) hts')
    · rw [surfaced_append, ← hret, ← hret']
      rfl
    · refine hrest ?_ ?_ fun t ht => hclose t ?_
      · rw [receive, if_pos hopen, pc_receiveLoop p hclose]
        exact hopen
      · have hlens := congrArg List.length hts
        rw [List.length_append] at hlens
        rw [List.length_cons] at hlen
        by_cases hnil : ts = []
        · have h0 : ts.length = 0 := congrArg List.length hnil
          omega
        · have := List.length_pos_iff.mpr (hne hopen hnil)
          omega
      · rw [hts]
        exact List.mem_append_right _ ht

end Bind

/-! ### WireGuard's messages -/

/-- **A WireGuard message is handed on** with the address it came from, unless it is long enough and
its index has the bytes of STUN's magic cookie; and what calls hand on, of the turns they take, is
exactly what is not STUN, in order. -/
theorem receive_wireGuard_iff {room : ℕ} {b : Bind} (hopen : b.pc = true) :
    (∀ (packets : Packets room) (t : Turn room) (ts : List (Turn room)) (d : Datagram room) (i : ℕ),
      t.read = .ok d → wireGuardIndex? d.data = some i →
      ((b.receive packets (t :: ts)).returned = some (d.data, d.addr.unmap, d.port) ↔
        ¬ (20 ≤ d.data.length ∧ i = 0x42A41221))) ∧
    ∀ (ps : List (Packets room)) (ts : List (Turn room)),
      ∃ taken, ts = taken ++ (b.calls ps ts).rest ∧
        (b.calls ps ts).returned =
          ((datagrams taken).filter fun d => !isMessage d.data).map Datagram.packet ∧
        (ts.length ≤ ps.length → (∀ t ∈ ts, Meanwhile.close ∉ t.meanwhile) → taken = ts) := by
  refine ⟨fun packets t ts d i hread hidx => ?_, fun ps ts => ?_⟩
  · rw [← isMessage_iff_of_index hidx]
    exact Bind.returned_eq_iff hopen packets ts hread
  · obtain ⟨taken, hts, hret, hall⟩ := b.calls_spec ps ts
    refine ⟨taken, hts, hret, fun hlen hclose => ?_⟩
    rw [hall hopen hlen hclose, List.append_nil] at hts
    exact hts.symm

/-- A handshake initiation with the given index bytes, from an IPv4 address that a dual-stack socket
reports as an IPv6 one. -/
def initiation (index : List UInt8) (h : index.length = 4) : Datagram 148 where
  data := [1, 0, 0, 0] ++ index ++ List.replicate 140 7
  addr := .v6 0xffffc0000209#128 ""
  port := 41641
  data_le := by simp [h]

/-- A bind that has just been opened. -/
def justOpened : Bind := Bind.opened ⟨false, newMuxConn, 0⟩

/-- The buffer of the first call. -/
def zeroed : Packets 148 := ⟨List.replicate 148 0, rfl⟩

theorem receive_wireGuard_initiation :
    (justOpened.receive zeroed [⟨[.muxRead], .ok (initiation [9, 9, 9, 9] rfl), false⟩]).returned =
      some ((initiation [9, 9, 9, 9] rfl).data, .v4 0xc0000209#32, 41641) :=
  ((receive_wireGuard_iff rfl).1 zeroed _ [] (initiation [9, 9, 9, 9] rfl) 0x09090909 rfl
    (by decide +kernel)).mpr fun h => absurd h.2 (by decide)

/-- An initiation whose sender index happens to be `0x42a41221` goes to the ICE mux, and WireGuard
never sees it. -/
theorem receive_wireGuard_swallowed :
    wireGuardIndex? (initiation [0x21, 0x12, 0xA4, 0x42] rfl).data = some 0x42A41221 ∧
      (justOpened.receive zeroed
        [⟨[], .ok (initiation [0x21, 0x12, 0xA4, 0x42] rfl), false⟩]).result = none ∧
      (justOpened.receive zeroed
        [⟨[], .ok (initiation [0x21, 0x12, 0xA4, 0x42] rfl), false⟩]).bind.muxway.ch.buf =
        [(initiation [0x21, 0x12, 0xA4, 0x42] rfl).muxPacket] := by
  decide +kernel

end Magicsock

end OverMesh
