import Mathlib.Logic.Function.Basic
import Mathlib.Data.List.Basic

/-!
# Buffered channels

Go's buffered channels, as far as one goroutine with a lock and one reader per channel see them: a
bounded queue with blocking and non-blocking sends, and `close`. Channels are compared by identity
in Go, so a program's channels live in a `Heap` and are named by a number.

Two fields of a channel are not in the Go runtime and are read by no operation. `received` is the
history of what the reader took out, and `missed` says whether the last non-blocking send found the
buffer full. What Go answers with a panic, or with a goroutine that waits forever, is recorded in
`faults`.

## Main definitions

* `Chan.trySend`, `Chan.send`, `Chan.recv`, `Chan.close`
* `Chan.accepted` — everything that ever went into the channel, in order
* `Registered` — a map whose channels are open, each under one key, while nothing ever went wrong
-/

namespace Channel

/-- What may go wrong with a channel. -/
inductive Fault where
  | closeOfClosed
  | sendOnClosed
  | blocked
  deriving DecidableEq

/-- A buffered channel. -/
structure Chan (α : Type*) where
  cap : ℕ
  buf : List α
  closed : Bool
  received : List α
  missed : Bool
  faults : List Fault

namespace Chan

variable {α : Type*} (c : Chan α)

/-- `make(chan α, cap)`. -/
def make (cap : ℕ) : Chan α := ⟨cap, [], false, [], false, []⟩

/-- Everything that went into the channel, in order. -/
def accepted : List α := c.received ++ c.buf

/-- `select { case c <- x: default: }`, and whether the value was taken. -/
def trySend (x : α) : Bool × Chan α :=
  if c.closed then (false, { c with faults := c.faults ++ [.sendOnClosed] })
  else if c.buf.length < c.cap then (true, { c with buf := c.buf ++ [x], missed := false })
  else (false, { c with missed := true })

/-- `c <- x`. -/
def send (x : α) : Chan α :=
  if c.closed then { c with faults := c.faults ++ [.sendOnClosed] }
  else if c.buf.length < c.cap then { c with buf := c.buf ++ [x], missed := false }
  else { c with faults := c.faults ++ [.blocked] }

/-- `<-c`, without effect when there is nothing to receive. -/
def recv : Chan α :=
  match c.buf with
  | [] => c
  | x :: rest => { c with buf := rest, received := c.received ++ [x] }

/-- `close(c)`. -/
def close : Chan α :=
  if c.closed then { c with faults := c.faults ++ [.closeOfClosed] } else { c with closed := true }

variable {c} {x : α}

/-- A receive moves a value; nothing enters and nothing is lost. -/
@[simp] theorem accepted_recv : c.recv.accepted = c.accepted := by
  unfold recv accepted
  split
  · rfl
  · next x rest h => simp [h]

@[simp] theorem missed_recv : c.recv.missed = c.missed := by
  rw [recv]
  split <;> rfl

@[simp] theorem closed_recv : c.recv.closed = c.closed := by
  rw [recv]
  split <;> rfl

@[simp] theorem faults_recv : c.recv.faults = c.faults := by
  rw [recv]
  split <;> rfl

@[simp] theorem accepted_close : c.close.accepted = c.accepted := by
  rw [close]
  split <;> rfl

@[simp] theorem closed_close : c.close.closed = true := by
  rw [close]
  split
  · assumption
  · rfl

theorem closed_trySend : (c.trySend x).2.closed = c.closed := by
  rw [trySend]
  split
  · rfl
  · split <;> rfl

/-- Closing an open channel is no fault. -/
theorem faults_close (h : c.closed = false) : c.close.faults = c.faults := by
  rw [close, if_neg (by simp [h])]

/-- Neither is a non-blocking send to it. -/
theorem faults_trySend (h : c.closed = false) : (c.trySend x).2.faults = c.faults := by
  rw [trySend, if_neg (by simp [h])]
  split <;> rfl

/-- On an open channel a non-blocking send either appends the value or misses. -/
theorem trySend_open (h : c.closed = false) :
    ((c.trySend x).2.missed = false ∧ (c.trySend x).2.accepted = c.accepted ++ [x]) ∨
      ((c.trySend x).2.missed = true ∧ (c.trySend x).2.accepted = c.accepted) := by
  rw [trySend]
  rw [if_neg (by simp [h])]
  split
  · exact .inl ⟨rfl, by simp [accepted]⟩
  · exact .inr ⟨rfl, rfl⟩

theorem mem_accepted_trySend {y : α} (h : y ∈ (c.trySend x).2.accepted) :
    y ∈ c.accepted ∨ y = x := by
  rw [trySend] at h
  split at h
  · exact .inl h
  · split at h
    · simpa [accepted, or_assoc] using h
    · exact .inl h

/-- A fresh channel with room takes its first value. -/
theorem send_make {cap : ℕ} (h : 0 < cap) :
    ((make cap : Chan α).send x).accepted = [x] ∧ ((make cap : Chan α).send x).closed = false ∧
      ((make cap : Chan α).send x).missed = false := by
  simp [send, make, h, accepted]

/-- Nor does it block. -/
theorem faults_send_make {cap : ℕ} (h : 0 < cap) : ((make cap : Chan α).send x).faults = [] := by
  simp [send, make, h]

/-- A drained channel has handed out everything it accepted. -/
theorem received_eq_accepted (h : c.buf = []) : c.received = c.accepted := by
  simp [accepted, h]

end Chan

/-- The channels made so far: those with a number below `next`. -/
structure Heap (α : Type*) where
  next : ℕ
  get : ℕ → Chan α

namespace Heap

variable {α : Type*}

/-- No channel was made yet. -/
def empty : Heap α := ⟨0, fun _ => .make 0⟩

/-- Make a channel; its number is the old `next`. -/
def alloc (h : Heap α) (c : Chan α) : Heap α := ⟨h.next + 1, Function.update h.get h.next c⟩

/-- Change one channel. -/
def modify (h : Heap α) (i : ℕ) (f : Chan α → Chan α) : Heap α :=
  { h with get := Function.update h.get i (f (h.get i)) }

variable {h : Heap α} {i j : ℕ} {f : Chan α → Chan α} {c : Chan α}

@[simp] theorem next_modify : (h.modify i f).next = h.next := rfl

@[simp] theorem next_alloc : (h.alloc c).next = h.next + 1 := rfl

@[simp] theorem get_modify_self : (h.modify i f).get i = f (h.get i) := by simp [modify]

theorem get_modify_of_ne (hne : j ≠ i) : (h.modify i f).get j = h.get j := by simp [modify, hne]

@[simp] theorem get_alloc_self : (h.alloc c).get h.next = c := by simp [alloc]

theorem get_alloc_of_ne (hne : j ≠ h.next) : (h.alloc c).get j = h.get j := by
  simp [alloc, hne]

end Heap

/-- The channels a map holds were made, are open and stand under one key each, and no channel had a
fault. -/
structure Registered {κ α : Type*} (subs : κ → Option ℕ) (chans : Heap α) : Prop where
  lt_next : ∀ k ch, subs k = some ch → ch < chans.next
  inj : ∀ k l ch, subs k = some ch → subs l = some ch → k = l
  opened : ∀ k ch, subs k = some ch → (chans.get ch).closed = false
  faultless : ∀ ch, (chans.get ch).faults = []

namespace Registered

variable {κ α : Type*} {subs : κ → Option ℕ} {chans : Heap α}

/-- No channel was made yet. -/
theorem empty : Registered (fun _ : κ => none) (Heap.empty : Heap α) where
  lt_next _ _ h := by cases h
  inj _ _ _ h := by cases h
  opened _ _ h := by cases h
  faultless _ := rfl

/-- A change of one channel that neither closes it nor is a fault. -/
theorem modify (h : Registered subs chans) (i : ℕ) {f : Chan α → Chan α}
    (hclosed : (f (chans.get i)).closed = (chans.get i).closed)
    (hfaults : (f (chans.get i)).faults = (chans.get i).faults) :
    Registered subs (chans.modify i f) where
  lt_next := h.lt_next
  inj := h.inj
  opened k ch hk := by
    by_cases hi : ch = i
    · rw [hi, Heap.get_modify_self, hclosed, ← hi]
      exact h.opened k ch hk
    · rw [Heap.get_modify_of_ne hi]
      exact h.opened k ch hk
  faultless ch := by
    by_cases hi : ch = i
    · rw [hi, Heap.get_modify_self, hfaults]
      exact h.faultless i
    · rw [Heap.get_modify_of_ne hi]
      exact h.faultless ch

/-- A receive takes a value out of a channel, registered or not. -/
theorem recv (h : Registered subs chans) (i : ℕ) : Registered subs (chans.modify i Chan.recv) :=
  h.modify i Chan.closed_recv Chan.faults_recv

/-- A non-blocking send to a registered channel. -/
theorem trySend (h : Registered subs chans) {k : κ} {ch : ℕ} (hk : subs k = some ch) (x : α) :
    Registered subs (chans.modify ch fun q => (q.trySend x).2) :=
  h.modify ch Chan.closed_trySend (Chan.faults_trySend (h.opened k ch hk))

variable [DecidableEq κ]

theorem update_none_eq_some_iff {k l : κ} {ch : ℕ} :
    Function.update subs k none l = some ch ↔ l ≠ k ∧ subs l = some ch := by
  by_cases hl : l = k
  · rw [hl, Function.update_self]
    simp
  · rw [Function.update_of_ne hl]
    simp [hl]

/-- A key is dropped. Its channel stays open. -/
theorem drop (h : Registered subs chans) (k : κ) :
    Registered (Function.update subs k none) chans where
  lt_next l ch hl := h.lt_next l ch (update_none_eq_some_iff.mp hl).2
  inj l m ch hl hm :=
    h.inj l m ch (update_none_eq_some_iff.mp hl).2 (update_none_eq_some_iff.mp hm).2
  opened l ch hl := h.opened l ch (update_none_eq_some_iff.mp hl).2
  faultless := h.faultless

/-- A key is dropped and its channel closed. -/
theorem close (h : Registered subs chans) {k : κ} {ch : ℕ} (hk : subs k = some ch) :
    Registered (Function.update subs k none) (chans.modify ch Chan.close) where
  lt_next l i hl := h.lt_next l i (update_none_eq_some_iff.mp hl).2
  inj := (h.drop k).inj
  opened l i hl := by
    obtain ⟨hne, hl⟩ := update_none_eq_some_iff.mp hl
    have hi : i ≠ ch := by
      rintro rfl
      exact hne (h.inj l k i hl hk)
    rw [Heap.get_modify_of_ne hi]
    exact h.opened l i hl
  faultless i := by
    by_cases hi : i = ch
    · rw [hi, Heap.get_modify_self, Chan.faults_close (h.opened k ch hk)]
      exact h.faultless ch
    · rw [Heap.get_modify_of_ne hi]
      exact h.faultless i

/-- A new channel gets a key that has none. -/
theorem alloc (h : Registered subs chans) {k : κ} (hk : subs k = none) {c : Chan α}
    (hopen : c.closed = false) (hfaults : c.faults = []) :
    Registered (Function.update subs k (some chans.next)) (chans.alloc c) := by
  -- an entry of the map is the new one, or an old one with a smaller number
  have hcases : ∀ l ch, Function.update subs k (some chans.next) l = some ch →
      l = k ∧ ch = chans.next ∨ subs l = some ch ∧ ch ≠ chans.next := by
    intro l ch hl
    by_cases hlk : l = k
    · rw [hlk, Function.update_self] at hl
      exact .inl ⟨hlk, (Option.some.inj hl).symm⟩
    · rw [Function.update_of_ne hlk] at hl
      exact .inr ⟨hl, Nat.ne_of_lt (h.lt_next l ch hl)⟩
  refine ⟨?_, ?_, ?_, ?_⟩
  · intro l ch hl
    rcases hcases l ch hl with ⟨-, rfl⟩ | ⟨hl, -⟩
    · exact Nat.lt_succ_self _
    · exact Nat.lt_succ_of_lt (h.lt_next l ch hl)
  · intro l m ch hl hm
    rcases hcases l ch hl with ⟨rfl, hch⟩ | ⟨hl, hch⟩ <;>
      rcases hcases m ch hm with ⟨rfl, hch'⟩ | ⟨hm, hch'⟩
    · rfl
    · exact absurd hch hch'
    · exact absurd hch' hch
    · exact h.inj l m ch hl hm
  · intro l ch hl
    rcases hcases l ch hl with ⟨-, rfl⟩ | ⟨hl, hch⟩
    · rw [Heap.get_alloc_self]
      exact hopen
    · rw [Heap.get_alloc_of_ne hch]
      exact h.opened l ch hl
  · intro ch
    by_cases hch : ch = chans.next
    · rw [hch, Heap.get_alloc_self]
      exact hfaults
    · rw [Heap.get_alloc_of_ne hch]
      exact h.faultless ch

end Registered

end Channel
