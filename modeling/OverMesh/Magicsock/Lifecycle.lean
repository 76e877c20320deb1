import OverMesh.Internal.Channel
import OverMesh.Internal.Runs
import OverMesh.Magicsock.Endpoint

/-!
# Opening and closing the bind

`bind.go` of `internal/magicsock`, except for `receive`. WireGuard opens the bind, closes it and
opens it again, while other goroutines wait: for the bind to be open, for a packet from the relay,
for a packet of the ICE mux. Whoever waits has taken a channel under the lock and waits for it to be
closed, and both `Open` and `Close` put new channels in the place of old ones. So there are two ways
to go wrong, to close a channel twice and to forget one that somebody waits for.

The relay client gives what it reads to `DeliverRelayPacket`, which never blocks, and WireGuard
fetches it with `receiveRelay`. The inbox is made once and outlives `Close`.

A call holds the lock from beginning to end, except for `receiveRelay`, which takes the channel
first and then waits. Whether the socket can be had is an input, and so is the choice that a
`select` makes between two cases that are ready.

## Main definitions

* `BindState.step` — what goroutines do with a bind
* `BindState.Sound` — what holds between the calls

## Main results

* `released_iff` — **nobody is forgotten and nobody is released too early**: a wait for `Ready` ends
  just when the bind is open at some time after it began, one for the relay just when it is closed
-/

namespace OverMesh

open Channel Key Runs

namespace Magicsock

/-! ### The bind -/

/-- `relayPacket`. -/
structure RelayPacket where
  src : Bytes32
  data : List UInt8
  deriving DecidableEq

/-- A call of `receiveRelay`. -/
inductive RelayCall where
  /-- It waits in its `select`, with the channel it took. -/
  | waiting (closedC : ℕ)
  /-- It has returned `net.ErrClosed`. -/
  | closed
  /-- It has returned a packet, as it is in the buffer, with its endpoint. -/
  | packet (data : List UInt8) (ep : BindEndpoint)
  deriving DecidableEq

/-- `Bind`, as far as `Open`, `Close` and the relay path use it. -/
structure BindState where
  /-- `pc`, by a number. -/
  pc : Option ℕ
  mux : Bool
  /-- The channel `done` of `muxway`. -/
  muxway : Option ℕ
  openDone : Option ℕ
  ready : ℕ
  relayInbox : Chan RelayPacket
  /-- The channels that are only ever closed. -/
  chans : Heap Unit
  /-- The sockets that are open, and the number of the next one. -/
  sockets : List ℕ
  nextSocket : ℕ
  /-- The calls of `receiveRelay`, and the channels that calls of `Ready` have returned. -/
  calls : List RelayCall
  waiters : List ℕ
  /-- What the calls of `receiveRelay` have returned, in order. -/
  surfaced : List (List UInt8 × BindEndpoint)

namespace BindState

/-- `NewBind`. -/
def new : BindState where
  pc := none
  mux := false
  muxway := none
  openDone := none
  ready := 0
  relayInbox := .make 256
  chans := Heap.empty.alloc (.make 0)
  sockets := []
  nextSocket := 0
  calls := []
  waiters := []
  surfaced := []

/-- Whether a channel is closed. -/
def closed (b : BindState) (ch : ℕ) : Bool := (b.chans.get ch).closed

/-- `Open`. The socket may not be there to have. -/
def openBind (b : BindState) (listens : Bool) : BindState :=
  if b.pc.isSome then b
  else if listens then
    let chans := (b.chans.alloc (.make 0)).alloc (.make 0)
    { b with
      pc := some b.nextSocket
      mux := true
      muxway := some b.chans.next
      openDone := some (b.chans.next + 1)
      sockets := b.nextSocket :: b.sockets
      nextSocket := b.nextSocket + 1
      chans := if b.closed b.ready then chans else chans.modify b.ready .close }
  else b

/-- `muxConn.close`, which closes the channel once. -/
def closeOnce (chans : Heap Unit) (ch : ℕ) : Heap Unit :=
  if (chans.get ch).closed then chans else chans.modify ch .close

/-- `Close`. The mux closes its connection too. -/
def close (b : BindState) : BindState :=
  let b := if b.mux then { b with mux := false, chans := b.muxway.elim b.chans (closeOnce b.chans) }
    else b
  let b := { b with muxway := none, chans := b.muxway.elim b.chans (closeOnce b.chans) }
  let b := { b with pc := none, sockets := b.pc.elim b.sockets b.sockets.erase }
  let b := { b with openDone := none, chans := b.openDone.elim b.chans (b.chans.modify · .close) }
  if b.closed b.ready then
    { b with ready := b.chans.next, chans := b.chans.alloc (.make 0) }
  else b

/-- `receiveRelay`, up to its `select`. -/
def receiveRelay (b : BindState) : BindState :=
  match b.openDone with
  | none => { b with calls := b.calls ++ [.closed] }
  | some closedC => { b with calls := b.calls ++ [.waiting closedC] }

/-- The `select` of a call. Without a packet and with the channel open it goes on waiting; of two
cases that are ready it takes either. -/
def select (b : BindState) (room i : ℕ) (takeClosed : Bool) : BindState :=
  match b.calls[i]? with
  | some (.waiting closedC) =>
    match b.relayInbox.buf with
    | [] => if b.closed closedC then { b with calls := b.calls.set i .closed } else b
    | pkt :: _ =>
      if b.closed closedC && takeClosed then { b with calls := b.calls.set i .closed }
      else { b with
        calls := b.calls.set i (.packet (pkt.data.take room) (.relay pkt.src))
        relayInbox := b.relayInbox.recv
        surfaced := b.surfaced ++ [(pkt.data.take room, .relay pkt.src)] }
  | _ => b

/-- `DeliverRelayPacket`. -/
def deliverRelayPacket (b : BindState) (src : Bytes32) (data : List UInt8) : BindState :=
  { b with relayInbox := (b.relayInbox.trySend ⟨src, data⟩).2 }

end BindState

/-- What goroutines do with a bind. -/
inductive BindOp where
  | opens (listens : Bool)
  | closes
  /-- `Ready`, by a goroutine that then waits. -/
  | ready
  | receiveRelay
  /-- A call of `receiveRelay` gets to run. -/
  | select (i : ℕ) (takeClosed : Bool)
  | deliver (src : Bytes32) (data : List UInt8)
  deriving DecidableEq

namespace BindState

/-- A step, when the buffers of WireGuard have `room` bytes. -/
def step (room : ℕ) (b : BindState) : BindOp → BindState
  | .opens listens => b.openBind listens
  | .closes => b.close
  | .ready => { b with waiters := b.waiters ++ [b.ready] }
  | .receiveRelay => b.receiveRelay
  | .select i takeClosed => b.select room i takeClosed
  | .deliver src data => b.deliverRelayPacket src data

/-! ### Closing channels -/

section Closing

variable {chans : Heap Unit} {i j : ℕ}

theorem closed_modify_close :
    ((chans.modify i .close).get j).closed = ((chans.get j).closed || decide (j = i)) := by
  by_cases h : j = i
  · rw [h, Heap.get_modify_self, Chan.closed_close]
    simp
  · rw [Heap.get_modify_of_ne h]
    simp [h]

theorem faults_modify_close (hfaults : ∀ ch, (chans.get ch).faults = [])
    (h : (chans.get i).closed = false) (ch : ℕ) : ((chans.modify i .close).get ch).faults = [] := by
  by_cases hi : ch = i
  · rw [hi, Heap.get_modify_self, Chan.faults_close h]
    exact hfaults i
  · rw [Heap.get_modify_of_ne hi]
    exact hfaults ch

theorem closeOnce_of_open (h : (chans.get i).closed = false) :
    closeOnce chans i = chans.modify i .close := by
  rw [closeOnce, if_neg (by simp [h])]

/-- The second time nothing is closed. -/
theorem closeOnce_modify_close : closeOnce (chans.modify i .close) i = chans.modify i .close := by
  rw [closeOnce, if_pos (by simp)]

end Closing

/-! ### What holds between the calls -/

/-- The bind is closed, and `ready` is armed. -/
structure Idle (b : BindState) : Prop where
  pc : b.pc = none
  mux : b.mux = false
  muxway : b.muxway = none
  openDone : b.openDone = none
  sockets : b.sockets = []
  ready : b.closed b.ready = false

/-- The bind is open, with its socket and its channels. -/
structure Up (b : BindState) (s m d : ℕ) : Prop where
  pc : b.pc = some s
  mux : b.mux = true
  muxway : b.muxway = some m
  openDone : b.openDone = some d
  sockets : b.sockets = [s]
  ready : b.closed b.ready = true
  muxway_open : b.closed m = false
  openDone_open : b.closed d = false
  ne : m ≠ d
  muxway_lt : m < b.chans.next
  openDone_lt : d < b.chans.next

/-- What holds between the calls: the fields go together, and **whoever waits on an open channel
waits on one that the bind still has**. -/
structure Sound (b : BindState) : Prop where
  shape : b.Idle ∨ ∃ s m d, b.Up s m d
  faultless : ∀ ch, (b.chans.get ch).faults = []
  ready_lt : b.ready < b.chans.next
  calls : ∀ ch, RelayCall.waiting ch ∈ b.calls → b.openDone = some ch ∨ b.closed ch = true
  calls_lt : ∀ ch, RelayCall.waiting ch ∈ b.calls → ch < b.chans.next
  waiters : ∀ ch ∈ b.waiters, ch = b.ready ∨ b.closed ch = true
  waiters_lt : ∀ ch ∈ b.waiters, ch < b.chans.next

variable {b : BindState} {s m d : ℕ}

/-! #### The calls -/

theorem openBind_of_up (h : b.Up s m d) (listens : Bool) : b.openBind listens = b := by
  rw [openBind, if_pos (by simp [h.pc])]

/-- What `Open` makes of a closed bind. -/
def opened (b : BindState) : BindState :=
  { b with
    pc := some b.nextSocket
    mux := true
    muxway := some b.chans.next
    openDone := some (b.chans.next + 1)
    sockets := [b.nextSocket]
    nextSocket := b.nextSocket + 1
    chans := ((b.chans.alloc (.make 0)).alloc (.make 0)).modify b.ready .close }

theorem openBind_of_idle (h : b.Idle) : b.openBind true = b.opened := by
  rw [openBind, if_neg (by simp [h.pc]), if_pos rfl]
  simp only [h.ready, h.sockets, Bool.false_eq_true, if_false]
  rfl

theorem openBind_false : b.openBind false = b := by simp [openBind]

theorem close_of_idle (h : b.Idle) : b.close = b := by
  obtain ⟨hpc, hmux, hmuxway, hdone, hsockets, hready⟩ := h
  obtain ⟨pc, mux, muxway, openDone, ready, inbox, chans, sockets, next, calls, waiters, out⟩ := b
  subst hpc hmux hmuxway hdone hsockets
  exact if_neg (by simpa using hready)

/-- What `Close` makes of an open one. -/
def closedFrom (b : BindState) (m d : ℕ) : BindState :=
  { b with
    pc := none
    mux := false
    muxway := none
    openDone := none
    sockets := []
    ready := b.chans.next
    chans := ((b.chans.modify m .close).modify d .close).alloc (.make 0) }

theorem close_of_up (h : b.Up s m d) : b.close = b.closedFrom m d := by
  obtain ⟨hpc, hmux, hmuxway, hdone, hsockets, hready, hm, hd, hne, -, -⟩ := h
  obtain ⟨pc, mux, muxway, openDone, ready, inbox, chans, sockets, next, calls, waiters, out⟩ := b
  subst hpc hmux hmuxway hdone hsockets
  have honce : closeOnce (closeOnce chans m) m = chans.modify m .close := by
    rw [closeOnce_of_open hm, closeOnce_modify_close]
  have hready' : (((chans.modify m .close).modify d .close).get ready).closed = true := by
    have : (chans.get ready).closed = true := hready
    rw [closed_modify_close, closed_modify_close, this]
    rfl
  simp only [close, closed, if_true, Option.elim_some, honce, hready', closedFrom]
  simp

/-! #### The channels after a call -/

theorem closed_opened {ch : ℕ} (h : ch < b.chans.next) :
    b.opened.closed ch = (b.closed ch || decide (ch = b.ready)) := by
  rw [closed, opened, closed_modify_close, Heap.get_alloc_of_ne (by simp; omega),
    Heap.get_alloc_of_ne (by omega)]
  rfl

/-- The channels that `Open` makes are open. -/
theorem closed_opened_new (h : b.ready < b.chans.next) :
    b.opened.closed b.chans.next = false ∧ b.opened.closed (b.chans.next + 1) = false := by
  have hnew : ((b.chans.alloc (.make 0)).alloc (.make 0)).get (b.chans.next + 1) = .make 0 :=
    Heap.get_alloc_self
  have hold : ((b.chans.alloc (.make 0)).alloc (.make 0)).get b.chans.next = .make 0 := by
    rw [Heap.get_alloc_of_ne (by simp), Heap.get_alloc_self]
  constructor
  · rw [closed, opened, closed_modify_close, hold, decide_eq_false (by omega)]
    rfl
  · rw [closed, opened, closed_modify_close, hnew, decide_eq_false (by omega)]
    rfl

theorem get_closedFrom {ch : ℕ} (h : ch ≠ b.chans.next) :
    (b.closedFrom m d).chans.get ch = ((b.chans.modify m .close).modify d .close).get ch :=
  Heap.get_alloc_of_ne (h := (b.chans.modify m .close).modify d .close) h

theorem get_closedFrom_new : (b.closedFrom m d).chans.get b.chans.next = .make 0 :=
  Heap.get_alloc_self (h := (b.chans.modify m .close).modify d .close)

theorem closed_closedFrom {ch : ℕ} (h : ch < b.chans.next) :
    (b.closedFrom m d).closed ch = (b.closed ch || decide (ch = m) || decide (ch = d)) := by
  rw [closed, get_closedFrom h.ne, closed_modify_close, closed_modify_close]
  rfl

/-! #### A step -/

theorem up_opened (h : b.ready < b.chans.next) :
    b.opened.Up b.nextSocket b.chans.next (b.chans.next + 1) where
  pc := rfl
  mux := rfl
  muxway := rfl
  openDone := rfl
  sockets := rfl
  ready := by
    rw [show b.opened.ready = b.ready from rfl, closed_opened h]
    simp
  muxway_open := (closed_opened_new h).1
  openDone_open := (closed_opened_new h).2
  ne := (Nat.lt_succ_self _).ne
  muxway_lt := by
    show b.chans.next < b.chans.next + 1 + 1
    omega
  openDone_lt := by
    show b.chans.next + 1 < b.chans.next + 1 + 1
    omega

theorem idle_closedFrom : (b.closedFrom m d).Idle :=
  ⟨rfl, rfl, rfl, rfl, rfl, congrArg Chan.closed get_closedFrom_new⟩

theorem sound_opened (h : b.Sound) (hidle : b.Idle) : b.opened.Sound where
  shape := .inr ⟨_, _, _, up_opened h.ready_lt⟩
  faultless := by
    refine faults_modify_close (fun ch => ?_) ?_
    · by_cases hch : ch = b.chans.next + 1
      · rw [hch]
        exact congrArg Chan.faults Heap.get_alloc_self
      · rw [Heap.get_alloc_of_ne hch]
        by_cases hch' : ch = b.chans.next
        · rw [hch', Heap.get_alloc_self]
          rfl
        · rw [Heap.get_alloc_of_ne hch']
          exact h.faultless ch
    · have hlt := h.ready_lt
      rw [Heap.get_alloc_of_ne (by simp; omega), Heap.get_alloc_of_ne (by omega)]
      exact hidle.ready
  ready_lt := by
    have hlt := h.ready_lt
    show b.ready < b.chans.next + 1 + 1
    omega
  calls ch hch := by
    right
    rw [closed_opened (h.calls_lt ch hch)]
    rcases h.calls ch hch with hdone | hclosed
    · rw [hidle.openDone] at hdone
      cases hdone
    · simp [hclosed]
  calls_lt ch hch := by
    have hlt := h.calls_lt ch hch
    show ch < b.chans.next + 1 + 1
    omega
  waiters ch hch := by
    right
    rw [closed_opened (h.waiters_lt ch hch)]
    rcases h.waiters ch hch with hready | hclosed
    · simp [hready]
    · simp [hclosed]
  waiters_lt ch hch := by
    have hlt := h.waiters_lt ch hch
    show ch < b.chans.next + 1 + 1
    omega

theorem sound_closedFrom (h : b.Sound) (hup : b.Up s m d) : (b.closedFrom m d).Sound where
  shape := .inl idle_closedFrom
  faultless ch := by
    have hd : ((b.chans.modify m .close).get d).closed = false := by
      rw [Heap.get_modify_of_ne hup.ne.symm]
      exact hup.openDone_open
    by_cases hch : ch = b.chans.next
    · rw [hch, get_closedFrom_new]
      rfl
    · rw [get_closedFrom hch]
      exact faults_modify_close (faults_modify_close h.faultless hup.muxway_open) hd ch
  ready_lt := Nat.lt_succ_self _
  calls ch hch := by
    right
    rw [closed_closedFrom (h.calls_lt ch hch)]
    rcases h.calls ch hch with hdone | hclosed
    · obtain rfl := Option.some.inj (hup.openDone.symm.trans hdone)
      simp
    · simp [hclosed]
  calls_lt ch hch := Nat.lt_succ_of_lt (h.calls_lt ch hch)
  waiters ch hch := by
    right
    rw [closed_closedFrom (h.waiters_lt ch hch)]
    rcases h.waiters ch hch with rfl | hclosed
    · simp [hup.ready]
    · simp [hclosed]
  waiters_lt ch hch := Nat.lt_succ_of_lt (h.waiters_lt ch hch)

/-- What the calls do that neither open nor close the bind: the channels stay as they are, and who
waits was waiting before or takes a channel of the bind. -/
structure Continues (b b' : BindState) : Prop where
  same : ∃ inbox calls waiters out, b' =
    { b with relayInbox := inbox, calls := calls, waiters := waiters, surfaced := out }
  calls : ∀ ch, RelayCall.waiting ch ∈ b'.calls →
    RelayCall.waiting ch ∈ b.calls ∨ b.openDone = some ch
  waiters : ∀ ch ∈ b'.waiters, ch ∈ b.waiters ∨ ch = b.ready

theorem Continues.refl (b : BindState) : b.Continues b :=
  ⟨⟨_, _, _, _, rfl⟩, fun _ => .inl, fun _ => .inl⟩

theorem Sound.continues {b' : BindState} (h : b.Sound) (hb : b.Continues b') : b'.Sound := by
  have hdone : ∀ ch, b.openDone = some ch → ch < b.chans.next := by
    intro ch hch
    rcases h.shape with hidle | ⟨s, m, d, hup⟩
    · rw [hidle.openDone] at hch
      cases hch
    · obtain rfl := Option.some.inj (hup.openDone.symm.trans hch)
      exact hup.openDone_lt
  obtain ⟨⟨inbox, calls, waiters, out, rfl⟩, hcalls, hwaiters⟩ := hb
  refine ⟨?_, h.faultless, h.ready_lt, fun ch hch => ?_, fun ch hch => ?_, fun ch hch => ?_,
    fun ch hch => ?_⟩
  · rcases h.shape with hidle | ⟨s, m, d, hup⟩
    · exact .inl { hidle with }
    · exact .inr ⟨s, m, d, { hup with }⟩
  · exact (hcalls ch hch).elim (h.calls ch) .inl
  · exact (hcalls ch hch).elim (h.calls_lt ch) (hdone ch)
  · exact (hwaiters ch hch).elim (h.waiters ch) .inl
  · rcases hwaiters ch hch with hold | rfl
    · exact h.waiters_lt ch hold
    · exact h.ready_lt

theorem continues_receiveRelay (b : BindState) : b.Continues b.receiveRelay := by
  rw [receiveRelay]
  split
  · exact ⟨⟨_, _, _, _, rfl⟩, fun ch hch => .inl (by simpa using hch), fun _ => .inl⟩
  · next closedC hdone =>
    refine ⟨⟨_, _, _, _, rfl⟩, fun ch hch => ?_, fun _ => .inl⟩
    rcases List.mem_append.mp hch with hch | hch
    · exact .inl hch
    · obtain rfl : ch = closedC := by simpa using hch
      exact .inr hdone

/-- A call that returns no longer waits. -/
theorem continues_select (b : BindState) (room i : ℕ) (takeClosed : Bool) :
    b.Continues (b.select room i takeClosed) := by
  have hset : ∀ (r : RelayCall) (ch : ℕ), r ≠ .waiting ch →
      RelayCall.waiting ch ∈ b.calls.set i r → RelayCall.waiting ch ∈ b.calls := by
    intro r ch hr hmem
    rcases List.mem_or_eq_of_mem_set hmem with hmem | heq
    · exact hmem
    · exact absurd heq.symm hr
  rw [select]
  split
  · split
    · split_ifs
      · exact ⟨⟨_, _, _, _, rfl⟩, fun ch hch => .inl (hset _ ch (by simp) hch), fun _ => .inl⟩
      · exact .refl b
    · split_ifs
      · exact ⟨⟨_, _, _, _, rfl⟩, fun ch hch => .inl (hset _ ch (by simp) hch), fun _ => .inl⟩
      · exact ⟨⟨_, _, _, _, rfl⟩, fun ch hch => .inl (hset _ ch (by simp) hch), fun _ => .inl⟩
  · exact .refl b

/-- **What a step can do with the channels**: nothing, or open a closed bind, or close an open
one. -/
theorem step_cases (h : b.Sound) (room : ℕ) (o : BindOp) :
    b.Continues (b.step room o) ∨ b.Idle ∧ b.step room o = b.opened ∨
      ∃ s m d, b.Up s m d ∧ b.step room o = b.closedFrom m d := by
  cases o with
  | opens listens =>
    rcases h.shape with hidle | ⟨s, m, d, hup⟩
    · cases listens with
      | false => exact .inl (by rw [step, openBind_false]; exact .refl b)
      | true => exact .inr (.inl ⟨hidle, openBind_of_idle hidle⟩)
    · exact .inl (by rw [step, openBind_of_up hup]; exact .refl b)
  | closes =>
    rcases h.shape with hidle | ⟨s, m, d, hup⟩
    · exact .inl (by rw [step, close_of_idle hidle]; exact .refl b)
    · exact .inr (.inr ⟨s, m, d, hup, close_of_up hup⟩)
  | ready =>
    refine .inl ⟨⟨_, _, _, _, rfl⟩, fun _ => .inl, fun ch hch => ?_⟩
    simpa [step] using hch
  | receiveRelay => exact .inl (continues_receiveRelay b)
  | select i takeClosed => exact .inl (continues_select b room i takeClosed)
  | deliver src data => exact .inl ⟨⟨_, _, _, _, rfl⟩, fun _ => .inl, fun _ => .inl⟩

theorem sound_step (room : ℕ) (o : BindOp) (h : b.Sound) : (b.step room o).Sound := by
  rcases step_cases h room o with hb | ⟨hidle, heq⟩ | ⟨s, m, d, hup, heq⟩
  · exact h.continues hb
  · rw [heq]
    exact sound_opened h hidle
  · rw [heq]
    exact sound_closedFrom h hup

theorem sound_new : new.Sound where
  shape := .inl ⟨rfl, rfl, rfl, rfl, rfl, rfl⟩
  faultless ch := by
    by_cases hch : ch = 0
    · rw [hch]
      rfl
    · exact congrArg Chan.faults (Heap.get_alloc_of_ne hch)
  ready_lt := Nat.one_pos
  calls _ hch := absurd hch List.not_mem_nil
  calls_lt _ hch := absurd hch List.not_mem_nil
  waiters _ hch := absurd hch List.not_mem_nil
  waiters_lt _ hch := absurd hch List.not_mem_nil

theorem sound_run (room : ℕ) (ops : List BindOp) : (run (step room) new ops).Sound :=
  run_induction sound_new (fun _ o h => sound_step room o h) ops

/-! ### Waiting -/

/-- A channel that is closed stays closed. -/
theorem closed_step (h : b.Sound) (room : ℕ) (o : BindOp) {ch : ℕ} (hlt : ch < b.chans.next)
    (hch : b.closed ch = true) :
    ch < (b.step room o).chans.next ∧ (b.step room o).closed ch = true := by
  rcases step_cases h room o with hb | ⟨-, heq⟩ | ⟨s, m, d, -, heq⟩
  · obtain ⟨inbox, calls, waiters, out, heq⟩ := hb.same
    rw [heq]
    exact ⟨hlt, hch⟩
  · rw [heq, closed_opened hlt, hch]
    refine ⟨?_, rfl⟩
    show ch < b.chans.next + 1 + 1
    omega
  · rw [heq, closed_closedFrom hlt, hch]
    exact ⟨Nat.lt_succ_of_lt hlt, rfl⟩

theorem closed_run (h : b.Sound) (room : ℕ) (ops : List BindOp) {ch : ℕ} (hlt : ch < b.chans.next)
    (hch : b.closed ch = true) : (run (step room) b ops).closed ch = true := by
  induction ops generalizing b with
  | nil => exact hch
  | cons o ops ih =>
    obtain ⟨hlt', hch'⟩ := closed_step h room o hlt hch
    exact ih (sound_step room o h) hlt' hch'

/-- The channel of a closed bind is the one that `Open` closes. -/
theorem ready_step (h : b.Sound) (room : ℕ) (o : BindOp) (hpc : b.pc = none) :
    (b.step room o).ready = b.ready := by
  rcases step_cases h room o with hb | ⟨-, heq⟩ | ⟨s, m, d, hup, -⟩
  · obtain ⟨inbox, calls, waiters, out, heq⟩ := hb.same
    rw [heq]
  · rw [heq]
    rfl
  · rw [hup.pc] at hpc
    cases hpc

/-- An open bind keeps its channel, or is closed with it. -/
theorem openDone_step (h : b.Sound) (room : ℕ) (o : BindOp) {ch : ℕ}
    (hdone : b.openDone = some ch) :
    (b.step room o).openDone = some ch ∨ (b.step room o).pc = none ∧
      ch < (b.step room o).chans.next ∧ (b.step room o).closed ch = true := by
  rcases step_cases h room o with hb | ⟨hidle, -⟩ | ⟨s, m, d, hup, heq⟩
  · obtain ⟨inbox, calls, waiters, out, heq⟩ := hb.same
    rw [heq]
    exact .inl hdone
  · rw [hidle.openDone] at hdone
    cases hdone
  · obtain rfl := Option.some.inj (hup.openDone.symm.trans hdone)
    rw [heq, closed_closedFrom hup.openDone_lt]
    exact .inr ⟨rfl, Nat.lt_succ_of_lt hup.openDone_lt, by simp⟩

theorem Sound.ready_closed (h : b.Sound) : b.closed b.ready = b.pc.isSome := by
  rcases h.shape with hidle | ⟨s, m, d, hup⟩
  · rw [hidle.ready, hidle.pc]
    rfl
  · rw [hup.ready, hup.pc]
    rfl

/-- A wait for `Ready` ends just when the bind is open at some time. -/
theorem ready_run_iff (h : b.Sound) (room : ℕ) (ops : List BindOp) :
    (run (step room) b ops).closed b.ready = true ↔
      ∃ p, p <+: ops ∧ (run (step room) b p).pc.isSome = true := by
  induction ops generalizing b with
  | nil =>
    rw [run_nil, h.ready_closed]
    simp [List.prefix_nil]
  | cons o ops ih =>
    rw [exists_prefix_cons_iff (P := fun b : BindState => b.pc.isSome = true)]
    by_cases hpc : b.pc.isSome = true
    · have hclosed : b.closed b.ready = true := h.ready_closed.trans hpc
      exact iff_of_true (closed_run h room (o :: ops) h.ready_lt hclosed) (.inl hpc)
    · rw [or_iff_right hpc, run_cons, ← ready_step h room o (by simpa using hpc)]
      exact ih (sound_step room o h)

/-- A wait for the relay ends without a packet just when the bind is closed at some time. -/
theorem openDone_run_iff (h : b.Sound) (room : ℕ) (ops : List BindOp) {ch : ℕ}
    (hdone : b.openDone = some ch) : (run (step room) b ops).closed ch = true ↔
      ∃ p, p <+: ops ∧ (run (step room) b p).pc = none := by
  induction ops generalizing b with
  | nil =>
    rcases h.shape with hidle | ⟨s, m, d, hup⟩
    · rw [hidle.openDone] at hdone
      cases hdone
    · obtain rfl := Option.some.inj (hup.openDone.symm.trans hdone)
      simp [List.prefix_nil, hup.openDone_open, hup.pc]
  | cons o ops ih =>
    have hup : b.pc ≠ none := by
      rcases h.shape with hidle | ⟨s, m, d, hup⟩
      · rw [hidle.openDone] at hdone
        cases hdone
      · simp [hup.pc]
    rw [exists_prefix_cons_iff (P := fun b : BindState => b.pc = none), or_iff_right hup,
      run_cons]
    rcases openDone_step h room o hdone with hkept | ⟨hpc, hlt, hclosed⟩
    · exact ih (sound_step room o h) hkept
    · exact iff_of_true (closed_run (sound_step room o h) room ops hlt hclosed)
        ⟨[], List.nil_prefix, hpc⟩

end BindState

open BindState

/-- **Nobody is forgotten, and nobody is released too early.** Whatever goroutines do with a bind
that is opened and closed any number of times, no channel is closed twice, no socket is left behind,
and whoever still waits does so on a channel that the bind still has. A goroutine that begins to
wait for `Ready` waits until the bind is open, and a call of `receiveRelay` that finds no packet
waits until it is closed: each of them is released just when that happens at some time after it took
its channel, also if it is undone again at once. -/
theorem released_iff (room : ℕ) (ops : List BindOp) :
    (∀ ch, ((run (step room) new ops).chans.get ch).faults = []) ∧
      (run (step room) new ops).sockets = (run (step room) new ops).pc.toList ∧
      (∀ ch ∈ (run (step room) new ops).waiters,
        ch = (run (step room) new ops).ready ∨
          (run (step room) new ops).closed ch = true) ∧
      (∀ ch, RelayCall.waiting ch ∈ (run (step room) new ops).calls →
        (run (step room) new ops).openDone = some ch ∨
          (run (step room) new ops).closed ch = true) ∧
      ∀ ops', ((run (step room) new (ops ++ ops')).closed
            (run (step room) new ops).ready = true ↔
          ∃ p, p <+: ops' ∧ (run (step room) new (ops ++ p)).pc.isSome = true) ∧
        ∀ ch, (run (step room) new ops).openDone = some ch →
          ((run (step room) new (ops ++ ops')).closed ch = true ↔
            ∃ p, p <+: ops' ∧ (run (step room) new (ops ++ p)).pc = none) := by
  have h := sound_run room ops
  refine ⟨h.faultless, ?_, h.waiters, h.calls, fun ops' => ?_⟩
  · rcases h.shape with hidle | ⟨s, m, d, hup⟩
    · rw [hidle.sockets, hidle.pc]
      rfl
    · rw [hup.sockets, hup.pc]
      rfl
  · simp only [run_append]
    exact ⟨ready_run_iff h room ops', fun ch hdone => openDone_run_iff h room ops' hdone⟩

end Magicsock

end OverMesh
