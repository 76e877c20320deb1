import OverMesh.Magicsock.Lifecycle
import OverMesh.Relay.Path

/-!
# From peer to peer through the relay

WireGuard sends to a relay endpoint by `Send` of the bind, which gives every buffer to the relay
client. The relay puts what it reads into the queue of the recipient, along with what it reads from
other peers. On the other side the client of the recipient gives what it reads to
`DeliverRelayPacket`, and WireGuard fetches it with `receiveRelay`, with the endpoint of the peer
that sent it. Nothing on the path ever blocks: what does not fit the queue or the inbox is dropped.

## Main definitions

* `sendRelay` — `Send` to a relay endpoint
* `queueStep` — what happens to the queue of the recipient at the relay
* `RelayPacket.surfaced` — a packet as `receiveRelay` returns it

## Main results

* `written_run`, `BindState.surfaced_run` — what leaves the queue and the inbox over a run
* `surfaced_of_relayed` — **what WireGuard gets from the relay is what the peer sent**, in order
-/

namespace OverMesh

open Channel Key Relay Runs

namespace Magicsock

/-! ### Sending -/

/-- What one call of `Send` is given for a relay endpoint. -/
structure RelayBatch where
  dst : Bytes32
  bufs : List { buf : List UInt8 // buf.length ≤ maxPayload }

namespace RelayBatch

/-- The payloads, each with its recipient. -/
def messages (batch : RelayBatch) : List Message :=
  batch.bufs.map fun buf => ⟨batch.dst, buf.val, buf.property⟩

/-- What a peer is sent: the buffers of the batches that are for it. -/
theorem payload_messages (batches : List RelayBatch) (dst : Bytes32) :
    ((batches.flatMap messages).filter (·.dst = dst)).map (·.payload) =
      ((batches.filter (·.dst = dst)).flatMap (·.bufs)).map (·.val) := by
  induction batches with
  | nil => rfl
  | cons batch batches ih =>
    rw [List.flatMap_cons, List.filter_append, List.map_append, ih, List.filter_cons]
    by_cases hdst : batch.dst = dst
    · simp [messages, hdst, List.filter_map, Function.comp_def]
    · simp [messages, hdst, List.filter_map, Function.comp_def]

end RelayBatch

/-- `Send` to a relay endpoint, with what the writes of each buffer do. The first error ends it, and
is not reported. -/
def sendRelay (c : Client) (dst : Bytes32) : List (List UInt8 × WriteResult × WriteResult) → Client
  | [] => c
  | (buf, r₁, r₂) :: bufs =>
    match c.send dst buf r₁ r₂ with
    | (.ok (), c) => sendRelay c dst bufs
    | (.error _, c) => c

/-- Several calls of `Send`, when every write succeeds. -/
def sendBatches (c : Client) (batches : List RelayBatch) : Client :=
  batches.foldl (fun c batch =>
    sendRelay c batch.dst (batch.bufs.map fun buf => (buf.val, .all, .all))) c

/-- They write one frame for each buffer. -/
theorem sendRelay_eq {w : Relay.Conn} (h : w.closed = false) (batch : RelayBatch) :
    sendRelay ⟨some w, true, false⟩ batch.dst (batch.bufs.map fun buf => (buf.val, .all, .all)) =
      ⟨some { w with out := w.out ++ (batch.messages.map Message.sent).flatMap Frame.bytes }, true,
        false⟩ := by
  obtain ⟨dst, bufs⟩ := batch
  induction bufs generalizing w with
  | nil => simp [sendRelay, RelayBatch.messages]
  | cons buf bufs ih =>
    have hsend := send_message h ⟨dst, buf.val, buf.property⟩
    rw [List.map_cons, sendRelay, hsend]
    refine (ih (w := { w with out := w.out ++ (Message.sent _).bytes }) h).trans ?_
    simp [RelayBatch.messages]

theorem sendBatches_eq {w : Relay.Conn} (h : w.closed = false) (batches : List RelayBatch) :
    sendBatches ⟨some w, true, false⟩ batches =
      ⟨some { w with
        out := w.out ++ ((batches.flatMap RelayBatch.messages).map Message.sent).flatMap
          Frame.bytes }, true, false⟩ := by
  induction batches generalizing w with
  | nil => simp [sendBatches]
  | cons batch batches ih =>
    rw [sendBatches, List.foldl_cons, sendRelay_eq h]
    refine (ih (w := { w with out := w.out ++ _ }) h).trans ?_
    simp

/-! ### The queue of the relay -/

/-- What happens to the connection of the recipient at the relay: a frame is offered to its queue,
by `forward` for any peer or in answer to a ping, or the writer takes one. -/
inductive QueueOp where
  | offer (f : Frame)
  | write

/-- The frame that is offered. -/
def QueueOp.frame? : QueueOp → Option Frame
  | .offer f => some f
  | .write => none

/-- A frame as it is queued. -/
def outFrame (f : Frame) : OutFrame := ⟨f.typ, f.body⟩

theorem outFrame_injective : Function.Injective outFrame := by
  rintro ⟨typ, body, h⟩ ⟨typ', body', h'⟩ heq
  obtain ⟨rfl, rfl⟩ := OutFrame.mk.inj heq
  rfl

/-- One step, when the writes succeed. -/
def queueStep (c : ServerConn) : QueueOp → ServerConn
  | .offer f => c.offer (outFrame f)
  | .write => c.write .all .all

/-- The queue has room for what is offered. -/
def QueueRoom (c : ServerConn) (o : QueueOp) : Prop :=
  o.frame? ≠ none → c.sendq.length < sendqCap

instance (c : ServerConn) (o : QueueOp) : Decidable (QueueRoom c o) :=
  inferInstanceAs (Decidable (_ → _))

/-- What has gone into the queue was written, or is in it. -/
def Queued (c : ServerConn) (taken : List Frame) : Prop :=
  c.conn.closed = false ∧ ∃ written queued, taken = written ++ queued ∧
    c.conn.out = written.flatMap Frame.bytes ∧ c.sendq = queued.map outFrame

/-- **What a step can do with the queue**: what is offered goes in behind the rest, or is dropped if
there is no room. -/
theorem Queued.step {c : ServerConn} {taken : List Frame} (h : Queued c taken) (o : QueueOp) :
    Queued (queueStep c o) (taken ++ o.frame?.toList) ∨
      Queued (queueStep c o) taken ∧ ¬ QueueRoom c o := by
  obtain ⟨hopen, written, queued, rfl, hout, hq⟩ := h
  cases o with
  | offer f =>
    rw [queueStep, ServerConn.offer]
    split_ifs with hroom
    · refine .inl ⟨hopen, written, queued ++ [f], List.append_assoc _ _ _, hout, ?_⟩
      simp [hq]
    · refine .inr ⟨⟨hopen, written, queued, rfl, hout, hq⟩, fun h => hroom (h ?_)⟩
      simp [QueueOp.frame?]
  | write =>
    left
    rw [queueStep, ServerConn.write, QueueOp.frame?, Option.toList_none, List.append_nil]
    cases queued with
    | nil =>
      rw [hq]
      exact ⟨hopen, written, [], rfl, hout, hq⟩
    | cons f queued =>
      have hwrite := writeFrame_spec f hopen .all .all
      rw [if_pos ⟨rfl, rfl⟩, bytesOut, ← Frame.length_bytes, List.take_length] at hwrite
      rw [hq, List.map_cons]
      dsimp only [outFrame]
      rw [hwrite]
      refine ⟨hopen, written ++ [f], queued, by simp, ?_, rfl⟩
      rw [List.flatMap_append, ← hout]
      simp

/-- **What has gone into the queue** over a run. -/
theorem queued_run {c : ServerConn} {taken : List Frame} (h : Queued c taken)
    (ops : List QueueOp) : ∃ more, Queued (run queueStep c ops) (taken ++ more) ∧
      more.Sublist (ops.filterMap QueueOp.frame?) ∧
      (Along queueStep QueueRoom c ops → more = ops.filterMap QueueOp.frame?) :=
  exists_taken (fun _ _ o h => h.step o) h ops

/-- **What is written from an empty queue** are some of the frames that are offered, in order, and
all of them if there always was room and none is left. -/
theorem written_run {c : ServerConn} (hconn : c.conn = ⟨[], false⟩) (hempty : c.sendq = [])
    (ops : List QueueOp) : ∃ written,
      (run queueStep c ops).conn.out = written.flatMap Frame.bytes ∧
      written.Sublist (ops.filterMap QueueOp.frame?) ∧
      (Along queueStep QueueRoom c ops → (run queueStep c ops).sendq = [] →
        written = ops.filterMap QueueOp.frame?) := by
  have hstart : Queued c [] := ⟨by rw [hconn], [], [], rfl, by rw [hconn]; rfl, hempty⟩
  obtain ⟨_, ⟨-, written, queued, rfl, hout, hsendq⟩, hsub, hall⟩ := queued_run hstart ops
  refine ⟨written, hout, (List.sublist_append_left _ _).trans hsub, fun halong hsent => ?_⟩
  rw [hsendq, List.map_eq_nil_iff] at hsent
  rw [← hall halong, hsent, List.append_nil]

/-- The frame has the key of this sender. -/
def fromKey (k : Bytes32) (f : Frame) : Bool := (Client.onFrame f).any (·.1 = k)

/-- What a sender's frames are read as. -/
theorem filterMap_onFrame_filter (k : Bytes32) (fs : List Frame) :
    (fs.filterMap Client.onFrame).filter (·.1 = k) =
      (fs.filter (fromKey k)).filterMap Client.onFrame := by
  induction fs with
  | nil => rfl
  | cons f fs ih =>
    cases hf : Client.onFrame f with
    | none => simp [fromKey, hf, ih]
    | some p =>
      by_cases hp : p.1 = k
      · simp [fromKey, hf, hp, ih]
      · simp [fromKey, hf, hp, ih]

/-- What is read from a frame is no longer than a payload. -/
theorem length_onFrame {f : Frame} {p : Bytes32 × List UInt8} (h : Client.onFrame f = some p) :
    p.2.length ≤ maxPayload := by
  rw [Client.onFrame] at h
  split_ifs at h with htyp hlen
  obtain rfl := Option.some.inj h
  have hle := f.body_le
  simp only [List.length_drop, maxFrameLen, maxPayload] at *
  omega

/-! ### The inbox -/

/-- The packet that a step delivers. -/
def BindOp.packet? : BindOp → Option RelayPacket
  | .deliver src data => some ⟨src, data⟩
  | .opens _ | .closes | .ready | .receiveRelay | .select _ _ => none

/-- A packet as WireGuard is to get it. -/
def RelayPacket.surfaced (room : ℕ) (pkt : RelayPacket) : List UInt8 × BindEndpoint :=
  (pkt.data.take room, .relay pkt.src)

/-- A packet in full. -/
def RelayPacket.whole (pkt : RelayPacket) : List UInt8 × BindEndpoint :=
  (pkt.data, .relay pkt.src)

/-- The endpoint leads to this peer. -/
def ofPeer (k : Bytes32) (x : List UInt8 × BindEndpoint) : Bool := x.2 = .relay k

namespace BindState

/-- The inbox has room for what is delivered. -/
def HasRoom (b : BindState) (o : BindOp) : Prop :=
  o.packet? ≠ none → b.relayInbox.buf.length < b.relayInbox.cap

instance (b : BindState) (o : BindOp) : Decidable (b.HasRoom o) :=
  inferInstanceAs (Decidable (_ → _))

/-- What has come out of the inbox is what WireGuard got. -/
structure Inbox (room : ℕ) (b : BindState) : Prop where
  not_closed : b.relayInbox.closed = false
  surfaced : b.surfaced = b.relayInbox.received.map (RelayPacket.surfaced room)

variable {b : BindState} {room : ℕ}

theorem inbox_openBind (b : BindState) (listens : Bool) :
    (b.openBind listens).relayInbox = b.relayInbox ∧
      (b.openBind listens).surfaced = b.surfaced := by
  rw [openBind]
  split_ifs
  all_goals exact ⟨rfl, rfl⟩

theorem inbox_close (b : BindState) :
    b.close.relayInbox = b.relayInbox ∧ b.close.surfaced = b.surfaced := by
  unfold close
  dsimp only
  split_ifs
  all_goals exact ⟨rfl, rfl⟩

/-- A step that has nothing to do with the inbox. -/
theorem Inbox.unchanged (h : b.Inbox room) {b' : BindState}
    (hb : b'.relayInbox = b.relayInbox ∧ b'.surfaced = b.surfaced) :
    b'.Inbox room ∧ b'.relayInbox.accepted = b.relayInbox.accepted ++ [] := by
  obtain ⟨hin, hout⟩ := hb
  refine ⟨⟨?_, ?_⟩, ?_⟩
  · rw [hin, h.not_closed]
  · rw [hin, hout, h.surfaced]
  · rw [hin, List.append_nil]

/-- A packet that `select` takes is the first one, and goes to WireGuard as it is. -/
theorem inbox_select (h : b.Inbox room) (i : ℕ) (takeClosed : Bool) :
    (b.select room i takeClosed).Inbox room ∧
      (b.select room i takeClosed).relayInbox.accepted = b.relayInbox.accepted := by
  rw [select]
  split
  · split
    · split_ifs
      · exact ⟨⟨h.not_closed, h.surfaced⟩, rfl⟩
      · exact ⟨h, rfl⟩
    · next pkt rest hbuf =>
      split_ifs
      · exact ⟨⟨h.not_closed, h.surfaced⟩, rfl⟩
      · refine ⟨⟨Chan.closed_recv.trans h.not_closed, ?_⟩, Chan.accepted_recv⟩
        have hrecv : b.relayInbox.recv.received = b.relayInbox.received ++ [pkt] := by
          rw [Chan.recv, hbuf]
        show b.surfaced ++ _ = b.relayInbox.recv.received.map _
        rw [hrecv, List.map_append, h.surfaced]
        rfl
  · exact ⟨h, rfl⟩

/-- **What a step can do with the inbox**: what is delivered goes in behind the rest, or is dropped
if there is no room. -/
theorem inbox_step (h : b.Inbox room) (o : BindOp) : (b.step room o).Inbox room ∧
    ((b.step room o).relayInbox.accepted = b.relayInbox.accepted ++ o.packet?.toList ∨
      (b.step room o).relayInbox.accepted = b.relayInbox.accepted ∧ ¬ b.HasRoom o) := by
  cases o with
  | opens listens => exact (h.unchanged (inbox_openBind b listens)).imp_right .inl
  | closes => exact (h.unchanged (inbox_close b)).imp_right .inl
  | ready => exact ⟨⟨h.not_closed, h.surfaced⟩, .inl (List.append_nil _).symm⟩
  | receiveRelay =>
    rw [step, receiveRelay]
    split <;> exact ⟨⟨h.not_closed, h.surfaced⟩, .inl (List.append_nil _).symm⟩
  | select i takeClosed =>
    obtain ⟨hinbox, haccepted⟩ := inbox_select h i takeClosed
    exact ⟨hinbox, .inl (haccepted.trans (List.append_nil _).symm)⟩
  | deliver src data =>
    rw [step, deliverRelayPacket]
    by_cases hroom : b.relayInbox.buf.length < b.relayInbox.cap
    · have hsend : b.relayInbox.trySend ⟨src, data⟩ = (true, { b.relayInbox with
          buf := b.relayInbox.buf ++ [⟨src, data⟩], missed := false }) := by
        rw [Chan.trySend, if_neg (by simp [h.not_closed]), if_pos hroom]
      rw [hsend]
      exact ⟨⟨h.not_closed, h.surfaced⟩, .inl (List.append_assoc _ _ _).symm⟩
    · have hsend : b.relayInbox.trySend ⟨src, data⟩ =
          (false, { b.relayInbox with missed := true }) := by
        rw [Chan.trySend, if_neg (by simp [h.not_closed]), if_neg hroom]
      rw [hsend]
      refine ⟨⟨h.not_closed, h.surfaced⟩, .inr ⟨rfl, fun hhas => hroom (hhas ?_)⟩⟩
      exact Option.some_ne_none _

theorem inbox_new : new.Inbox room := ⟨rfl, rfl⟩

/-- **What has gone into the inbox** over a run are some of the packets, in order, and all of them
if there always was room. -/
theorem accepted_run (h : b.Inbox room) (ops : List BindOp) :
    ∃ taken, ((run (step room) b ops).Inbox room ∧
        (run (step room) b ops).relayInbox.accepted = b.relayInbox.accepted ++ taken) ∧
      taken.Sublist (ops.filterMap BindOp.packet?) ∧
      (Along (step room) HasRoom b ops → taken = ops.filterMap BindOp.packet?) := by
  refine exists_taken
    (P := fun (b : BindState) taken => b.Inbox room ∧ b.relayInbox.accepted = taken) ?_ ⟨h, rfl⟩ ops
  rintro b _ o ⟨h, rfl⟩
  obtain ⟨hinbox, haccepted | ⟨haccepted, hfull⟩⟩ := inbox_step h o
  · exact .inl ⟨hinbox, haccepted⟩
  · exact .inr ⟨⟨hinbox, haccepted⟩, hfull⟩

/-- **What WireGuard gets** are whole packets, if they fit its buffers: some of those that were
delivered, in order, and with those in the inbox all of them if there always was room. -/
theorem surfaced_run {ops : List BindOp}
    (hfits : ∀ pkt ∈ ops.filterMap BindOp.packet?, pkt.data.length ≤ room) :
    ∃ received, (run (step room) new ops).surfaced = received.map RelayPacket.whole ∧
      received.Sublist (ops.filterMap BindOp.packet?) ∧
      (Along (step room) HasRoom new ops →
        received ++ (run (step room) new ops).relayInbox.buf = ops.filterMap BindOp.packet?) := by
  obtain ⟨_, ⟨hinbox, rfl⟩, hsub, hall⟩ := accepted_run (inbox_new : new.Inbox room) ops
  have hreceived := (List.sublist_append_left _ _).trans hsub
  refine ⟨_, ?_, hreceived, hall⟩
  rw [hinbox.surfaced]
  refine List.map_congr_left fun pkt hpkt => ?_
  rw [RelayPacket.surfaced, List.take_of_length_le (hfits pkt (hreceived.subset hpkt))]
  rfl

end BindState

/-! ### The path -/

open BindState

/-- What is queued at the relay for a peer's batches. -/
theorem queueFor_batches (c : ServerConn) (dst : Bytes32) {batches : List RelayBatch}
    {ps : List (List UInt8)} (hsend : sendBatches ⟨some ⟨[], false⟩, true, false⟩ batches =
      ⟨some ⟨ps.flatten, false⟩, true, false⟩) :
    c.queueFor dst (readAll ps) =
      (((batches.flatMap RelayBatch.messages).filter (·.dst = dst)).map
        (·.received c.key)).map outFrame := by
  rw [sendBatches_eq rfl] at hsend
  have hps : ps.flatten =
      ((batches.flatMap RelayBatch.messages).map Message.sent).flatMap Frame.bytes := by
    simpa using (Relay.Conn.mk.inj (Option.some.inj (Client.mk.inj hsend).1)).1.symm
  rw [readAll_bytes hps, queueFor_sent]
  rfl

/-- What the recipient's client reads them as. -/
theorem onFrame_batches (c : ServerConn) (dst : Bytes32) (batches : List RelayBatch) :
    (((batches.flatMap RelayBatch.messages).filter (·.dst = dst)).map
        (·.received c.key)).filterMap Client.onFrame =
      ((batches.filter (·.dst = dst)).flatMap (·.bufs)).map fun buf => (c.key, buf.val) := by
  rw [List.filterMap_map]
  calc _ = ((batches.flatMap RelayBatch.messages).filter (·.dst = dst)).map
        fun m => (c.key, m.payload) :=
        List.filterMap_eq_map_iff_forall_eq_some.mpr fun m _ => onFrame_received m c.key
    _ = (((batches.flatMap RelayBatch.messages).filter (·.dst = dst)).map (·.payload)).map
        fun payload => (c.key, payload) := by rw [List.map_map]; rfl
    _ = _ := by
      rw [RelayBatch.payload_messages, List.map_map]
      rfl

/-- What is fetched of a sender, by its packets. -/
theorem filter_surfaced (k : Bytes32) (pkts : List RelayPacket) :
    (pkts.map RelayPacket.whole).filter (ofPeer k) =
      ((pkts.map fun pkt => (pkt.src, pkt.data)).filter (·.1 = k)).map
        fun p => (p.2, BindEndpoint.relay p.1) := by
  rw [List.filter_map, List.filter_map, List.map_map]
  congr 1
  refine List.filter_congr fun pkt _ => ?_
  simp [ofPeer, RelayPacket.whole]

/-- **What WireGuard gets from the relay is what the peer sent.** A peer sends batches of buffers,
and the relay reads them and offers those that are for the node to the queue of its connection, as
far as it is the one that is registered, along with the frames of other peers. The node's client
gives each frame that the relay writes to the bind. However the streams are split, and whatever else
is done with the bind meanwhile, what WireGuard gets with the endpoint that leads back to the peer
are some of the buffers that the peer sent to this node, unchanged and in order. If all were
offered, neither the queue nor the inbox is ever full, and the queue has been written, they have all
been fetched or wait in the inbox. -/
theorem surfaced_of_relayed {room : ℕ} (hroom : maxPayload ≤ room) (c : ServerConn) (dst : Bytes32)
    (batches : List RelayBatch) (ps ps' : List (List UInt8))
    (hsend : sendBatches ⟨some ⟨[], false⟩, true, false⟩ batches =
      ⟨some ⟨ps.flatten, false⟩, true, false⟩)
    {target : ServerConn} (hconn : target.conn = ⟨[], false⟩) (hempty : target.sendq = [])
    (qops : List QueueOp)
    (hoffers : (((qops.filterMap QueueOp.frame?).filter (fromKey c.key)).map outFrame).Sublist
      (c.queueFor dst (readAll ps)))
    (hwrite : (run queueStep target qops).conn.out = ps'.flatten)
    (ops : List BindOp) (hops : (ops.filterMap BindOp.packet?).map (fun p => (p.src, p.data)) =
      (readAll ps').filterMap Client.onFrame) :
    ((run (step room) new ops).surfaced.filter (ofPeer c.key)).Sublist
        (((batches.filter (·.dst = dst)).flatMap (·.bufs)).map
          fun buf => (buf.val, .relay c.key)) ∧
      (((qops.filterMap QueueOp.frame?).filter (fromKey c.key)).map outFrame =
          c.queueFor dst (readAll ps) →
        Along queueStep QueueRoom target qops →
        (run queueStep target qops).sendq = [] →
        Along (step room) HasRoom new ops →
          ((run (step room) new ops).surfaced ++
            (run (step room) new ops).relayInbox.buf.map RelayPacket.whole).filter
              (ofPeer c.key) =
            ((batches.filter (·.dst = dst)).flatMap (·.bufs)).map
              fun buf => (buf.val, .relay c.key)) := by
  obtain ⟨written, hout, hwritten, hwrites⟩ := written_run hconn hempty qops
  rw [readAll_bytes (hwrite.symm.trans hout)] at hops
  -- what is delivered fits the buffers of WireGuard
  have hfits : ∀ pkt ∈ ops.filterMap BindOp.packet?, pkt.data.length ≤ room := by
    intro pkt hpkt
    have hmem : (pkt.src, pkt.data) ∈
        (ops.filterMap BindOp.packet?).map fun p => (p.src, p.data) :=
      List.mem_map_of_mem hpkt
    rw [hops] at hmem
    obtain ⟨f, -, hf⟩ := List.mem_filterMap.mp hmem
    exact (length_onFrame hf).trans hroom
  obtain ⟨received, hsurfaced, hreceived, hall⟩ := surfaced_run hfits
  have hbufs : ((batches.filter (·.dst = dst)).flatMap (·.bufs)).map
        (fun buf => (buf.val, BindEndpoint.relay c.key)) =
      ((((batches.flatMap RelayBatch.messages).filter (·.dst = dst)).map
        (·.received c.key)).filterMap Client.onFrame).map
          fun p => (p.2, BindEndpoint.relay p.1) := by
    rw [onFrame_batches, List.map_map]
    rfl
  have hinj := List.map_injective_iff.mpr outFrame_injective
  rw [queueFor_batches c dst hsend] at hoffers ⊢
  rw [hsurfaced, ← List.map_append, filter_surfaced, filter_surfaced, hbufs]
  constructor
  · -- from the inbox back to the queue, and from there to what was offered
    obtain ⟨fs, hfs, hmine⟩ := List.sublist_map_iff.mp hoffers
    have hfrom := (hwritten.filter (fromKey c.key)).trans (hinj hmine ▸ hfs)
    have hpackets := hreceived.map fun pkt => (pkt.src, pkt.data)
    rw [hops] at hpackets
    refine List.Sublist.map _ ((hpackets.filter _).trans ?_)
    rw [filterMap_onFrame_filter]
    exact hfrom.filterMap _
  · intro hmine halong hsent halong'
    rw [hall halong', hops, filterMap_onFrame_filter, hwrites halong hsent, hinj hmine]

/-- The recipient, and a buffer for it. -/
def sampleBatch : RelayBatch := ⟨sampleDst 2, [⟨[1, 2, 3], by decide⟩]⟩

/-- The connection of a node at the relay. -/
def sampleConn (i : UInt8) : ServerConn := ⟨sampleDst i, ⟨[], false⟩, [], false, .reading, true, []⟩

/-- The frame that is offered to the recipient, between frames of its own. -/
def sampleQueue : List QueueOp :=
  [.offer ⟨framePong, [], by decide⟩, .offer ((⟨sampleDst 2, [1, 2, 3], by decide⟩ :
    Message).received (sampleDst 1)), .write, .write]

/-- What happens to the bind: a packet comes before it is open, and is fetched once it is. -/
def sampleFetch : List BindOp :=
  [.deliver (sampleDst 1) [1, 2, 3], .opens true, .receiveRelay, .select 0 false]

theorem surfaced_sampleBatch :
    ((run (step 65535) new sampleFetch).surfaced ++
      (run (step 65535) new sampleFetch).relayInbox.buf.map RelayPacket.whole).filter
        (ofPeer (sampleDst 1)) = [([1, 2, 3], .relay (sampleDst 1))] := by
  have hconn : (sampleConn 2).conn = ⟨[], false⟩ := rfl
  have hread : readAll [(sampleBatch.messages.map Message.sent).flatMap Frame.bytes] =
      sampleBatch.messages.map Message.sent := readAll_bytes (by simp)
  have hoffers : ((sampleQueue.filterMap QueueOp.frame?).filter (fromKey (sampleDst 1))).map
      outFrame = (sampleConn 1).queueFor (sampleDst 2)
        (readAll [(sampleBatch.messages.map Message.sent).flatMap Frame.bytes]) := by
    rw [hread]
    decide +kernel
  have hread' : readAll [(run queueStep (sampleConn 2) sampleQueue).conn.out] =
      sampleQueue.filterMap QueueOp.frame? := readAll_bytes (by decide +kernel)
  refine (surfaced_of_relayed (by decide) (sampleConn 1) (sampleDst 2) [sampleBatch]
    [(sampleBatch.messages.map Message.sent).flatMap Frame.bytes]
    [(run queueStep (sampleConn 2) sampleQueue).conn.out] ?_ hconn rfl sampleQueue
    (hoffers ▸ List.Sublist.refl _) ?_ sampleFetch ?_).2 hoffers ?_ ?_ ?_
  · rw [sendBatches_eq rfl]
    simp
  · simp
  · rw [hread']
    decide +kernel
  · decide +kernel
  · decide +kernel
  · decide +kernel

end Magicsock

end OverMesh
