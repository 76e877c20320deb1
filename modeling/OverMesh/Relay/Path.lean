import OverMesh.Relay.Connected

/-!
# The path through a relay

A payload that is given to `Send` is framed with the key of the recipient, read by the relay, framed
again with the key of the sender, and read by the recipient. Both streams arrive in pieces. The two
kinds of frames have the same length, so that what the relay can read it can also write.

## Main definitions

* `readFrameFrom`, `readAll` — `readFrame` and the read loops, on a stream in pieces
* `ServerConn.forwards` — what the relay makes of a frame
* `Client.onFrame` — what the recipient makes of one
* `Message` — a payload that fits a frame

## Main results

* `readFrameFrom_flatten` — the pieces make no difference
* `serving_forward` — a frame goes from the read loop of one connection to the queue of another one
* `relay_round_trip` — **the recipient gets exactly what was sent to it**, in order and with the
  key of the sender
-/

namespace OverMesh

open Key

namespace Relay

/-! ### Reading from pieces -/

/-- `readFrame` on a stream that arrives in pieces. -/
def readFrameFrom (ps : List (List UInt8)) : Except ReadError (Frame × List (List UInt8)) :=
  match Framing.readFull 3 ps with
  | none => .error .short
  | some (hdr, ps) =>
    let n := uint16 (hdr.getD 1 0) (hdr.getD 2 0)
    if h : n > maxFrameLen then .error (.oversized n)
    else
      match hbody : Framing.readFull n ps with
      | none => .error .short
      | some (body, ps) =>
        .ok (⟨hdr.getD 0 0, body, by
          obtain ⟨-, rfl, -⟩ := Framing.readFull_eq_some hbody
          rw [List.length_take]
          omega⟩, ps)

/-- **The pieces make no difference.** -/
theorem readFrameFrom_flatten (ps : List (List UInt8)) :
    (readFrameFrom ps).map (fun r => (r.1, r.2.flatten)) = readFrame ps.flatten := by
  rw [readFrameFrom]
  split
  · next hnone =>
    have hshort := Framing.readFull_eq_none hnone
    rcases hflat : ps.flatten with _ | ⟨a, _ | ⟨b, _ | ⟨c, rest⟩⟩⟩
    · rfl
    · rfl
    · rfl
    · rw [hflat] at hshort
      simp at hshort
      omega
  · next hdr ps₁ hsome =>
    obtain ⟨hlen, rfl, hdrop⟩ := Framing.readFull_eq_some hsome
    rcases hflat : ps.flatten with _ | ⟨a, _ | ⟨b, _ | ⟨c, rest⟩⟩⟩ <;> rw [hflat] at hlen hdrop
    · simp at hlen
    · simp at hlen
    · simp at hlen
    · have hrest : ps₁.flatten = rest := hdrop
      simp only [readFrame, List.take_succ_cons, List.take_zero, List.getD_cons_zero,
        List.getD_cons_succ]
      split_ifs with hover hshort
      · rfl
      · split
        · rfl
        · next hbody =>
          have hle : uint16 b c ≤ ps₁.flatten.length := (Framing.readFull_eq_some hbody).1
          rw [hrest] at hle
          omega
      · split
        · next hbody =>
          have hlt : ps₁.flatten.length < uint16 b c := Framing.readFull_eq_none hbody
          rw [hrest] at hlt
          omega
        · next body ps₂ hbody =>
          obtain ⟨-, rfl, hdrop₂⟩ := Framing.readFull_eq_some hbody
          simp only [Except.map, hdrop₂, hrest]
          rfl

/-- A read loop, up to its first error. Every frame takes some bytes. -/
def readAll (ps : List (List UInt8)) : List Frame :=
  Framing.readLoop (fun ps => (readFrameFrom ps).toOption) ps.flatten.length ps

theorem readAll_eq (ps : List (List UInt8)) : readAll ps = (frames.decodeAll ps.flatten).1 := by
  refine Framing.readLoop_eq (fun ps => ?_) _ ps
  change _ = (readFrame ps.flatten).toOption
  rw [← readFrameFrom_flatten]
  cases readFrameFrom ps <;> rfl

/-- **A sequence of frames is read back.** -/
theorem readAll_bytes {fs : List Frame} {ps : List (List UInt8)}
    (h : ps.flatten = fs.flatMap Frame.bytes) : readAll ps = fs := by
  have hall : frames.decodeAll (fs.flatMap Frame.bytes ++ []) = (fs, []) :=
    Framing.Codec.decodeAll_flatMap Framing.Codec.decode_nil
  rw [List.append_nil] at hall
  rw [readAll_eq, h]
  exact congrArg Prod.fst hall

/-! ### The two ends and the relay -/

/-- The largest payload. -/
def maxPayload : ℕ := 4064

/-- A payload that fits a frame, and its recipient. -/
structure Message where
  dst : Bytes32
  payload : List UInt8
  length_le : payload.length ≤ maxPayload

namespace Message

theorem length_le_maxFrameLen (m : Message) (k : Bytes32) :
    (k.val ++ m.payload).length ≤ maxFrameLen := by
  have h := m.length_le
  rw [List.length_append, k.property]
  simp only [maxPayload, maxFrameLen] at *
  omega

/-- The frame on its way to the relay. -/
def sent (m : Message) : Frame := ⟨frameSend, m.dst.val ++ m.payload, m.length_le_maxFrameLen m.dst⟩

/-- The frame on its way from the relay. -/
def received (m : Message) (src : Bytes32) : Frame :=
  ⟨frameRecv, src.val ++ m.payload, m.length_le_maxFrameLen src⟩

end Message

/-- `writeFrame` for each frame of a queue, when every write succeeds. -/
def writeAll (w : Conn) (fs : List OutFrame) : Conn :=
  fs.foldl (fun w f => (writeFrame w f.typ f.body .all .all).2) w

/-- Several calls of `Send`, when every write succeeds. -/
def Client.sendAll (c : Client) (ms : List (Bytes32 × List UInt8)) : Client :=
  ms.foldl (fun c m => (c.send m.1 m.2 .all .all).2) c

/-- What the read loop of a connection of the relay makes of a frame: to whom it is forwarded, and
what is queued there. -/
def ServerConn.forwards (c : ServerConn) (f : Frame) : Option (Bytes32 × OutFrame) :=
  match (({ c with stage := .reading } : ServerConn).read f).stage with
  | .lookup dst payload => some (dst, ⟨frameRecv, c.key.val ++ payload⟩)
  | _ => none

/-- What is queued for one recipient. -/
def ServerConn.queueFor (c : ServerConn) (dst : Bytes32) (fs : List Frame) : List OutFrame :=
  fs.filterMap fun f => (c.forwards f).bind fun r => if r.1 = dst then some r.2 else none

/-- What the read loop of a client makes of a frame: the arguments of `onPacket`. -/
def Client.onFrame (f : Frame) : Option (Bytes32 × List UInt8) :=
  if f.typ = frameRecv then
    if f.body.length < 32 then none else some (copyKey f.body, f.body.drop 32)
  else none

theorem writeAll_eq {w : Conn} (h : w.closed = false) (fs : List Frame) :
    writeAll w (fs.map fun f => ⟨f.typ, f.body⟩) =
      { w with out := w.out ++ fs.flatMap Frame.bytes } := by
  induction fs generalizing w with
  | nil => simp [writeAll]
  | cons f fs ih =>
    have hwrite := congrArg Prod.snd (writeFrame_spec f h .all .all)
    rw [bytesOut, ← f.length_bytes, List.take_length] at hwrite
    rw [List.map_cons, writeAll, List.foldl_cons, hwrite]
    refine (ih (w := { w with out := w.out ++ f.bytes }) h).trans ?_
    rw [List.flatMap_cons, List.append_assoc]

theorem send_message {w : Conn} (h : w.closed = false) (m : Message) :
    Client.send ⟨some w, true, false⟩ m.dst m.payload .all .all =
      (.ok (), ⟨some { w with out := w.out ++ m.sent.bytes }, true, false⟩) := by
  have hwrite := writeFrame_spec m.sent h .all .all
  rw [bytesOut, ← Frame.length_bytes, List.take_length] at hwrite
  have hsend : writeFrame w frameSend (Client.sendBody m.dst m.payload) .all .all =
      (.ok (), { w with out := w.out ++ m.sent.bytes }) := hwrite
  simp only [Client.send, hsend]

theorem sendAll_eq {w : Conn} (h : w.closed = false) (ms : List Message) :
    Client.sendAll ⟨some w, true, false⟩ (ms.map fun m => (m.dst, m.payload)) =
      ⟨some { w with out := w.out ++ (ms.map Message.sent).flatMap Frame.bytes }, true, false⟩ := by
  induction ms generalizing w with
  | nil => simp [Client.sendAll]
  | cons m ms ih =>
    rw [List.map_cons, Client.sendAll, List.foldl_cons, send_message h]
    refine (ih (w := { w with out := w.out ++ m.sent.bytes }) h).trans ?_
    rw [List.map_cons, List.flatMap_cons, List.append_assoc]

/-- A frame is forwarded if it is to someone. -/
theorem forwards_eq (c : ServerConn) (f : Frame) :
    c.forwards f = if f.typ = frameSend ∧ 32 ≤ f.body.length then
      some (copyKey f.body, ⟨frameRecv, c.key.val ++ f.body.drop 32⟩) else none := by
  rw [ServerConn.forwards, ServerConn.read]
  by_cases hping : f.typ = framePing
  · obtain ⟨q, hq, -⟩ := ServerConn.offer_eq
      { c with stage := .reading, frames := c.frames ++ [f] } ⟨framePong, []⟩
    have hsend : ¬ (f.typ = frameSend ∧ 32 ≤ f.body.length) := by
      rintro ⟨hsend, -⟩
      rw [hping] at hsend
      cases hsend
    rw [if_pos hping, if_neg hsend, hq]
  · rw [if_neg hping]
    by_cases hsend : f.typ = frameSend
    · by_cases hlen : f.body.length < 32
      · simp [hsend, hlen]
      · simp [hsend, hlen, Nat.not_lt.mp hlen]
    · simp [hsend]

theorem forwards_sent (c : ServerConn) (m : Message) :
    c.forwards m.sent = some (m.dst, ⟨frameRecv, c.key.val ++ m.payload⟩) := by
  have hlen : 32 ≤ m.sent.body.length := by
    rw [Message.sent, List.length_append, m.dst.property]
    omega
  rw [forwards_eq, if_pos ⟨rfl, hlen⟩]
  rw [show copyKey m.sent.body = m.dst from copyKey_append _ _,
    show m.sent.body.drop 32 = m.payload from List.drop_left' m.dst.property]

/-- **What the relay can read it can write.** -/
theorem writeFrame_forwards {c : ServerConn} {f : Frame} {dst : Bytes32} {g : OutFrame}
    (h : c.forwards f = some (dst, g)) {w : Conn} (hw : w.closed = false) :
    (writeFrame w g.typ g.body .all .all).1 = .ok () := by
  rw [forwards_eq] at h
  split_ifs at h with hsend
  obtain ⟨rfl, rfl⟩ := Prod.mk.inj (Option.some.inj h)
  have hle : (c.key.val ++ f.body.drop 32).length ≤ maxFrameLen := by
    have := f.body_le
    rw [List.length_append, List.length_drop, c.key.property]
    omega
  exact congrArg Prod.fst (writeFrame_spec ⟨frameRecv, c.key.val ++ f.body.drop 32, hle⟩ hw
    .all .all)

theorem onFrame_received (m : Message) (src : Bytes32) :
    Client.onFrame (m.received src) = some (src, m.payload) := by
  have hlen : ¬ (m.received src).body.length < 32 := by
    rw [Message.received, List.length_append, src.property]
    omega
  have htyp : (m.received src).typ = frameRecv := rfl
  rw [Client.onFrame, if_pos htyp, if_neg hlen]
  rw [show copyKey (m.received src).body = src from copyKey_append _ _,
    show (m.received src).body.drop 32 = m.payload from List.drop_left' src.property]

/-- **A payload that is too large is refused** before anything is written. -/
theorem send_of_maxPayload_lt {payload : List UInt8} (h : maxPayload < payload.length) (c : Client)
    (dst : Bytes32) (r₁ r₂ : WriteResult) :
    (c.send dst payload r₁ r₂).2 = c ∧ (c.send dst payload r₁ r₂).1.isOk = false := by
  have hlarge : (Client.sendBody dst payload).length > maxFrameLen := by
    rw [Client.sendBody, List.length_append, dst.property]
    simp only [maxPayload, maxFrameLen] at *
    omega
  obtain ⟨conn, up, closed⟩ := c
  cases up with
  | false => exact ⟨rfl, rfl⟩
  | true =>
    cases conn with
    | none => exact ⟨rfl, rfl⟩
    | some conn =>
      simp only [Client.send, writeFrame_of_tooLarge hlarge]
      exact ⟨trivial, rfl⟩

/-! ### The path -/

/-- The queue of a recipient. -/
theorem queueFor_sent (c : ServerConn) (dst : Bytes32) (ms : List Message) :
    c.queueFor dst (ms.map Message.sent) =
      ((ms.filter (·.dst = dst)).map (·.received c.key)).map fun f => ⟨f.typ, f.body⟩ := by
  induction ms with
  | nil => rfl
  | cons m ms ih =>
    rw [ServerConn.queueFor] at ih ⊢
    rw [List.map_cons, List.filterMap_cons, ih, forwards_sent, Option.bind_some, List.filter_cons]
    by_cases hdst : m.dst = dst
    · simp [hdst, Message.received]
    · simp [hdst]

/-- The read loop goes on to the lookup of a frame that is forwarded. -/
theorem read_of_forwards {c : ServerConn} {f : Frame} {dst : Bytes32} {g : OutFrame}
    (h : c.forwards f = some (dst, g)) :
    ∃ payload, g = ⟨frameRecv, c.key.val ++ payload⟩ ∧
      c.read f = { c with frames := c.frames ++ [f], stage := .lookup dst payload } := by
  rw [forwards_eq] at h
  split_ifs at h with hsend
  obtain ⟨rfl, rfl⟩ := Prod.mk.inj (Option.some.inj h)
  have hping : f.typ ≠ framePing := by
    rw [hsend.1]
    decide
  refine ⟨f.body.drop 32, rfl, ?_⟩
  rw [ServerConn.read, if_neg hping, if_pos hsend.1, if_neg (Nat.not_lt.mpr hsend.2)]

open Server in
/-- **A frame goes from one connection to the queue of another one**, when nothing comes between. -/
theorem serving_forward {box : NaclBox} {s : Server} {i j : ℕ} {c t : ServerConn} {f : Frame}
    {dst : Bytes32} {g : OutFrame} (hi : s.serving i = some c) (hc : c.stage = .reading)
    (hf : c.forwards f = some (dst, g)) (hdst : s.conns dst = some j)
    (ht : s.serving j = some t) (hroom : t.sendq.length < sendqCap) :
    ∃ t', (Runs.run (Server.step box) s [.read i f, .lookup i, .enqueue i]).serving j = some t' ∧
      t'.sendq = t.sendq ++ [g] := by
  obtain ⟨payload, rfl, hread⟩ := read_of_forwards hf
  have hstep : s.step box (.read i f) = s.modify i (·.read f) := by
    rw [Server.step, onConn, hi]
    exact if_pos hc
  -- neither the read nor the lookup changes a queue
  obtain ⟨t₁, ht₁, hq₁⟩ := exists_of_rel_left (ht ▸ rel_modify (i := i) (f := fun c => c.read f)
    (R := fun c c' => c'.sendq = c.sendq) (fun _ => rfl) (fun c' hi' => by
      obtain rfl := Option.some.inj (hi.symm.trans hi')
      rw [hread]) j)
  have hi₁ : (s.modify i (·.read f)).serving i =
      some { c with frames := c.frames ++ [f], stage := .lookup dst payload } := by
    rw [serving_modify_self, hi, Option.map_some, hread]
  have hwaits := waits_lookup box hi₁ rfl hdst
  obtain ⟨t₂, ht₂, hq₂⟩ : ∃ t₂, ((s.modify i (·.read f)).step box (.lookup i)).serving j = some t₂ ∧
      t₂.sendq = t₁.sendq := by
    rw [step_lookup hi₁ rfl hdst]
    exact exists_of_rel_left (ht₁ ▸ rel_modify (i := i)
      (f := fun c => { c with stage := .enqueue j payload })
      (R := fun c c' => c'.sendq = c.sendq) (fun _ => rfl) (fun _ _ => rfl) j)
  rw [Runs.run_cons, hstep, Runs.run_cons, Runs.run_cons, Runs.run_nil, ← hq₁, ← hq₂]
  exact serving_enqueue box hwaits ht₂ (by rwa [hq₂, hq₁])

/-- **The path through the relay.** Whatever the pieces in which the two streams arrive, the
recipient gets exactly the payloads that were sent to it, in order and with the key of the sender. A
sequence of frames is read back, what the relay forwards it can write, and a payload that does not
fit is refused before anything is written. -/
theorem relay_round_trip (c : ServerConn) (dst : Bytes32) :
    (∀ (ms : List Message) (ps ps' : List (List UInt8)),
      Client.sendAll ⟨some ⟨[], false⟩, true, false⟩ (ms.map fun m => (m.dst, m.payload)) =
        ⟨some ⟨ps.flatten, false⟩, true, false⟩ →
      writeAll ⟨[], false⟩ (c.queueFor dst (readAll ps)) = ⟨ps'.flatten, false⟩ →
      (readAll ps').filterMap Client.onFrame =
        (ms.filter (·.dst = dst)).map fun m => (c.key, m.payload)) ∧
    (∀ (fs : List Frame) (ps : List (List UInt8)),
      writeAll ⟨[], false⟩ (fs.map fun f => ⟨f.typ, f.body⟩) = ⟨ps.flatten, false⟩ →
        readAll ps = fs) ∧
    (∀ (f : Frame) (g : OutFrame) (w : Conn), c.forwards f = some (dst, g) → w.closed = false →
      (writeFrame w g.typ g.body .all .all).1 = .ok ()) ∧
    ∀ (cl : Client) (payload : List UInt8) (r₁ r₂ : WriteResult), maxPayload < payload.length →
      (cl.send dst payload r₁ r₂).2 = cl ∧ (cl.send dst payload r₁ r₂).1.isOk = false := by
  refine ⟨?_, ?_, fun f g w hf hw => writeFrame_forwards hf hw, fun cl payload r₁ r₂ h =>
    send_of_maxPayload_lt h cl dst r₁ r₂⟩
  · intro ms ps ps' hsend hwrite
    rw [sendAll_eq rfl] at hsend
    have hps : ps.flatten = (ms.map Message.sent).flatMap Frame.bytes := by
      simpa using (Conn.mk.inj (Option.some.inj (Client.mk.inj hsend).1)).1.symm
    rw [readAll_bytes hps, queueFor_sent, writeAll_eq rfl] at hwrite
    have hps' : ps'.flatten =
        ((ms.filter (·.dst = dst)).map (·.received c.key)).flatMap Frame.bytes := by
      simpa using (Conn.mk.inj hwrite).1.symm
    rw [readAll_bytes hps', List.filterMap_map]
    refine List.filterMap_eq_map_iff_forall_eq_some.mpr fun m _ => ?_
    exact onFrame_received m c.key
  · intro fs ps hwrite
    rw [writeAll_eq rfl] at hwrite
    exact readAll_bytes (by simpa using (Conn.mk.inj hwrite).1.symm)

end Relay

end OverMesh
