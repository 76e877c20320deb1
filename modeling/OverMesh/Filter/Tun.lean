import OverMesh.Filter.Basic
import OverMesh.Internal.Runs

/-!
# The filtering tunnel device

`filterTUN` of `internal/wgengine` wraps a tunnel device. Decrypted packets from peers go through
`Write`, which drops what the filter refuses. Packets of this host go out through `Read`, which is
the method of the wrapped device: the wrapper does not see them and keeps no record of them.

## Main results

* `FilterTUN.run_eq` — traffic in either direction leaves the wrapper as it was
* `FilterTUN.passes_iff` — what a single packet needs to get through
-/

namespace OverMesh

/-- `filterTUN`. A nil filter lets everything through. -/
structure FilterTUN where
  f : Option Filter
  deriving DecidableEq

namespace FilterTUN

/-- `setFilter`. -/
def setFilter (_ : FilterTUN) (f : Option Filter) : FilterTUN := ⟨f⟩

/-- The buffers `Write` keeps. -/
def kept (t : FilterTUN) (bufs : List (List UInt8)) (offset : ℕ) : List (List UInt8) :=
  bufs.filter fun buf => Filter.allowsPacket t.f (buf.drop offset)

/-- `Write`: the count and error it returns, and what it hands to the wrapped device, `none` when
it does not call it. `device` answers for the wrapped device. -/
def write {ε : Type*} (device : List (List UInt8) → ℕ → ℕ × Option ε) (t : FilterTUN)
    (bufs : List (List UInt8)) (offset : ℕ) : (ℕ × Option ε) × Option (List (List UInt8)) :=
  if t.f = none then (device bufs offset, some bufs)
  else if t.kept bufs offset = [] then ((bufs.length, none), none)
  else
    let r := device (t.kept bufs offset) offset
    ((r.1 + (bufs.length - (t.kept bufs offset).length), r.2), some (t.kept bufs offset))

/-- Traffic through the device. -/
inductive Traffic where
  /-- Packets of this host on their way to peers. -/
  | read (pkts : List (List UInt8))
  /-- Packets of peers on their way to this host. -/
  | write (bufs : List (List UInt8)) (offset : ℕ)

/-- What a call leaves behind in the wrapper. -/
def step (t : FilterTUN) : Traffic → FilterTUN
  | .read _ => t
  | .write _ _ => t

/-- **Nothing is remembered.** Whatever was sent and received, the wrapper is the same. -/
theorem run_eq (t : FilterTUN) (ops : List Traffic) : Runs.run step t ops = t :=
  Runs.run_induction (P := (· = t)) rfl (fun s o hs => by cases o <;> exact hs) ops

/-- A packet that is written alone reaches the wrapped device. -/
def Passes (t : FilterTUN) (pkt : List UInt8) : Prop :=
  ∀ (device : List (List UInt8) → ℕ → ℕ × Option Unit), (t.write device [pkt] 0).2 = some [pkt]

/-- **What gets through** is what the filter allows. -/
theorem passes_iff {t : FilterTUN} {pkt : List UInt8} :
    t.Passes pkt ↔ Filter.allowsPacket t.f pkt = true := by
  unfold Passes write kept
  cases hf : t.f with
  | none => simp [Filter.allowsPacket]
  | some f =>
    cases h : Filter.allowsPacket (some f) pkt with
    | true => simp [h]
    | false => simp [h]

end FilterTUN

end OverMesh
