import Mathlib.Data.List.Basic
import OverMesh.Filter.Tun
import OverMesh.Internal.GoSlice

/-!
# Filtering a batch in place

`Write` of `filterTUN` keeps the packets that the filter allows in `bufs[:0]`, a slice over the very
array that it ranges over, so a round writes into what later rounds read. Here the method is
followed with its shared array and its machine integers: `kept` is appended to in a heap of arrays,
`dropped` is counted up, and the panic of `buf[offset:]` behind the end of a buffer is a `none`.

## Main results

* `FilterTUN.Compacting.round` — one round keeps the array compacted as far as it has been read
* `FilterTUN.writeInPlace_eq` — **the wrapped device gets exactly the allowed packets**
* `FilterTUN.handed_writeInPlace` — in place and by `write`, the same packets are handed on
-/

namespace OverMesh

namespace FilterTUN

open GoSlice

variable {ε : Type*}

/-- The variables of the loop of `Write`, and the arrays it works on. -/
structure Compaction where
  heap : Heap (List UInt8)
  kept : Slice
  dropped : Int64

/-- `buf[offset:]`. -/
def sliceFrom (buf : List UInt8) (offset : ℕ) : Option (List UInt8) :=
  if offset ≤ buf.length then some (buf.drop offset) else none

/-- One round of the loop. -/
def writeRound (f : Filter) (offset : ℕ) (c : Compaction) (buf : List UInt8) :
    Option Compaction :=
  (sliceFrom buf offset).map fun pkt =>
    if Filter.allowsPacket (some f) pkt then
      let r := append c.heap c.kept buf
      { c with heap := r.1, kept := r.2 }
    else { c with dropped := c.dropped + 1 }

/-- How a call of `Write` ends: its results, the call it made of the wrapped device, if it made one,
and the arrays as it leaves them. -/
structure Written (ε : Type*) where
  n : Int64
  err : Option ε
  handed : Option (List (List UInt8) × ℕ)
  heap : Heap (List UInt8)

/-- The rest of `Write`, after the loop. -/
def writeKept (device : List (List UInt8) → ℕ → Int64 × Option ε) (bufs : Slice) (offset : ℕ)
    (c : Compaction) : Written ε :=
  if c.kept.len = 0 then ⟨Int64.ofNat bufs.len, none, none, c.heap⟩
  else
    let r := device (elems c.heap c.kept) offset
    ⟨r.1 + c.dropped, r.2, some (elems c.heap c.kept, offset), c.heap⟩

/-- `Write`, over the array it shares with its caller. -/
def writeInPlace (device : List (List UInt8) → ℕ → Int64 × Option ε) (t : FilterTUN)
    (heap : Heap (List UInt8)) (bufs : Slice) (offset : ℕ) : Option (Written ε) :=
  match t.f with
  | none =>
    let r := device (elems heap bufs) offset
    some ⟨r.1, r.2, some (elems heap bufs, offset), heap⟩
  | some f =>
    (rangeLoop Compaction.heap bufs (writeRound f offset) ⟨heap, bufs.reset, 0⟩).map
      (writeKept device bufs offset)

/-- The filter lets the packet of a buffer through. -/
def allowed (f : Filter) (offset : ℕ) (buf : List UInt8) : Bool :=
  Filter.allowsPacket (some f) (buf.drop offset)

/-- What holds after `i` rounds over the array `orig` of `bufs`. -/
structure Compacting (f : Filter) (offset : ℕ) (bufs : Slice) (orig : List (List UInt8)) (i : ℕ)
    (c : Compaction) : Prop where
  array : c.heap[bufs.array]? = some (compacted (allowed f offset) orig i)
  kept : c.kept = ⟨bufs.array, ((orig.take i).filter (allowed f offset)).length⟩
  dropped : c.dropped = Int64.ofNat ((orig.take i).filter fun b => !allowed f offset b).length

variable {f : Filter} {offset : ℕ} {bufs : Slice} {orig : List (List UInt8)} {i : ℕ}
  {c : Compaction} {buf : List UInt8}

theorem writeRound_of_allowed (hoff : offset ≤ buf.length) (hp : allowed f offset buf = true) :
    writeRound f offset c buf = some
      { c with heap := (append c.heap c.kept buf).1, kept := (append c.heap c.kept buf).2 } := by
  rw [writeRound, sliceFrom, if_pos hoff, Option.map_some]
  exact congrArg some (if_pos hp)

theorem writeRound_of_denied (hoff : offset ≤ buf.length) (hp : allowed f offset buf = false) :
    writeRound f offset c buf = some { c with dropped := c.dropped + 1 } := by
  rw [writeRound, sliceFrom, if_pos hoff, Option.map_some]
  exact congrArg some (if_neg (Bool.not_eq_true _ ▸ hp))

/-- **One round.** The buffer read is the one the batch began with, whatever has been appended. -/
theorem Compacting.round (h : Compacting f offset bufs orig i c) (hi : i < bufs.len)
    (hbuf : orig[i]? = some buf) (hoff : offset ≤ buf.length) :
    ∃ c', read c.heap bufs i = some buf ∧ writeRound f offset c buf = some c' ∧
      Compacting f offset bufs orig (i + 1) c' := by
  have hread : read c.heap bufs i = some buf := (read_compacted h.array hi).trans hbuf
  have hlt : bufs.array < c.heap.length := (List.getElem?_eq_some_iff.mp h.array).1
  cases hp : allowed f offset buf with
  | true =>
    have happend := append_compacted h.array hbuf hp
    rw [← h.kept] at happend
    refine ⟨_, hread, writeRound_of_allowed hoff hp, ?_, ?_, ?_⟩
    · rw [happend]
      exact List.getElem?_set_self hlt
    · rw [happend]
    · rw [filter_take_succ hbuf, List.filter_singleton, hp]
      simpa using h.dropped
  | false =>
    refine ⟨_, hread, writeRound_of_denied hoff hp, ?_, ?_, ?_⟩
    · rw [compacted_succ_of_neg hbuf hp]
      exact h.array
    · rw [filter_take_succ hbuf, List.filter_singleton, hp]
      simpa using h.kept
    · rw [filter_take_succ hbuf, List.filter_singleton, hp]
      simp [h.dropped, Int64.ofNat_add]

/-- **The loop** ends, with the kept buffers in front and the dropped ones counted. -/
theorem exists_compacting {heap : Heap (List UInt8)} (hs : heap[bufs.array]? = some orig)
    (hlen : bufs.len ≤ orig.length) (hoff : ∀ buf ∈ elems heap bufs, offset ≤ buf.length) :
    ∃ c, rangeLoop Compaction.heap bufs (writeRound f offset) ⟨heap, bufs.reset, 0⟩ = some c ∧
      Compacting f offset bufs orig bufs.len c := by
  have helems : elems heap bufs = orig.take bufs.len := by
    rw [elems, List.getD_eq_getElem?_getD, hs, Option.getD_some]
  have hstart : Compacting f offset bufs orig 0 ⟨heap, bufs.reset, 0⟩ := by
    refine ⟨?_, ?_, ?_⟩
    · rw [compacted_zero]
      exact hs
    · rw [List.take_zero]
      rfl
    · rw [List.take_zero]
      rfl
  refine exists_rangeLoop hstart fun i c hi hinv => ?_
  have hbuf : orig[i]? = some orig[i] := List.getElem?_eq_getElem (by omega)
  have hmem : orig[i] ∈ elems heap bufs := by
    rw [helems]
    exact List.mem_take_iff_getElem.mpr ⟨i, by omega, rfl⟩
  obtain ⟨c', hread, hround, hinv'⟩ := hinv.round hi hbuf (hoff _ hmem)
  exact ⟨_, c', hread, hround, hinv'⟩

theorem Compacting.elems_kept (h : Compacting f offset bufs orig i c) :
    elems c.heap c.kept = (orig.take i).filter (allowed f offset) := by
  rw [h.kept, elems_of_getElem? h.array, take_compacted]

theorem Compacting.writeKept_of_nil (h : Compacting f offset bufs orig i c)
    (hnil : (orig.take i).filter (allowed f offset) = [])
    (device : List (List UInt8) → ℕ → Int64 × Option ε) :
    writeKept device bufs offset c = ⟨Int64.ofNat bufs.len, none, none, c.heap⟩ :=
  if_pos (by rw [h.kept, hnil, List.length_nil])

theorem Compacting.writeKept_of_ne_nil (h : Compacting f offset bufs orig i c)
    {keep : List (List UInt8)} (hkeep : (orig.take i).filter (allowed f offset) = keep)
    (hne : keep ≠ []) (device : List (List UInt8) → ℕ → Int64 × Option ε) :
    writeKept device bufs offset c = ⟨(device keep offset).1 + c.dropped, (device keep offset).2,
      some (keep, offset), c.heap⟩ := by
  subst hkeep
  have hlen : c.kept.len ≠ 0 := by
    rw [h.kept]
    exact fun h0 => hne (List.length_eq_zero_iff.mp h0)
  rw [writeKept, if_neg hlen, h.elems_kept]

/-- **`Write` hands on exactly what the filter allows**, in order and as it was, and counts what it
drops as written. A batch with nothing to hand on never reaches the wrapped device. -/
theorem writeInPlace_eq (device : List (List UInt8) → ℕ → Int64 × Option ε) (f : Filter)
    (heap : Heap (List UInt8)) (bufs : Slice) (offset : ℕ) (hvalid : Valid heap bufs)
    (hoff : ∀ buf ∈ elems heap bufs, offset ≤ buf.length) :
    ∃ w, writeInPlace device ⟨some f⟩ heap bufs offset = some w ∧
      let batch := elems heap bufs
      let keep := batch.filter fun buf => Filter.allowsPacket (some f) (buf.drop offset)
      let denied := batch.filter fun buf => !Filter.allowsPacket (some f) (buf.drop offset)
      (keep = [] → w.handed = none ∧ w.n = Int64.ofNat batch.length ∧ w.err = none) ∧
      (keep ≠ [] → w.handed = some (keep, offset) ∧
        w.n = (device keep offset).1 + Int64.ofNat denied.length ∧
        w.err = (device keep offset).2) := by
  obtain ⟨orig, hs, hlen⟩ := hvalid
  obtain ⟨c, hloop, hc⟩ := exists_compacting (f := f) hs hlen hoff
  refine ⟨writeKept device bufs offset c, congrArg (Option.map _) hloop, ?_⟩
  rw [elems_of_getElem? hs]
  constructor
  · intro hnil
    rw [hc.writeKept_of_nil hnil, List.length_take, Nat.min_eq_left hlen]
    exact ⟨rfl, rfl, rfl⟩
  · intro hne
    rw [hc.writeKept_of_ne_nil rfl hne, hc.dropped]
    exact ⟨rfl, rfl, rfl⟩

/-- A buffer with one byte of room in front of a packet of the protocol. -/
def sampleBuf (proto : UInt8) : List UInt8 :=
  [0, 0x45, 0, 0, 24, 0, 0, 0, 0, 64, proto, 0, 0, 10, 0, 0, 1, 10, 0, 0, 2, 0, 99, 0, 22]

/-- Two datagrams around a packet that is none, through a filter that allows datagrams. -/
theorem writeInPlace_sample :
    ∃ w, writeInPlace (fun bufs _ => (Int64.ofNat bufs.length, (none : Option Unit)))
        ⟨some ⟨true, [⟨true, [], "udp", []⟩]⟩⟩
        [[sampleBuf protoUDP, sampleBuf protoICMP4, sampleBuf protoUDP]] ⟨0, 3⟩ 1 = some w ∧
      w.handed = some ([sampleBuf protoUDP, sampleBuf protoUDP], 1) ∧ w.n = 3 := by
  obtain ⟨w, hw, -, hkeep⟩ := writeInPlace_eq
    (fun bufs _ => (Int64.ofNat bufs.length, (none : Option Unit)))
    ⟨true, [⟨true, [], "udp", []⟩]⟩
    [[sampleBuf protoUDP, sampleBuf protoICMP4, sampleBuf protoUDP]] ⟨0, 3⟩ 1
    ⟨_, rfl, by decide⟩ (by decide)
  obtain ⟨hhanded, hn, -⟩ := hkeep (by decide +kernel)
  exact ⟨w, hw, hhanded.trans (by decide +kernel), hn.trans (by decide +kernel)⟩

/-- What is handed on is what `write` hands on. -/
theorem handed_writeInPlace {δ : Type*} (device : List (List UInt8) → ℕ → Int64 × Option ε)
    (device' : List (List UInt8) → ℕ → ℕ × Option δ) (t : FilterTUN) {heap : Heap (List UInt8)}
    (hvalid : Valid heap bufs) (hoff : ∀ buf ∈ elems heap bufs, offset ≤ buf.length) :
    ∃ w, writeInPlace device t heap bufs offset = some w ∧
      w.handed.map Prod.fst = (t.write device' (elems heap bufs) offset).2 := by
  obtain ⟨_ | f⟩ := t
  · exact ⟨_, rfl, rfl⟩
  obtain ⟨orig, hs, hlen⟩ := hvalid
  obtain ⟨c, hloop, hc⟩ := exists_compacting (f := f) hs hlen hoff
  refine ⟨writeKept device bufs offset c, congrArg (Option.map _) hloop, ?_⟩
  have hkept : FilterTUN.kept ⟨some f⟩ (orig.take bufs.len) offset =
      (orig.take bufs.len).filter (allowed f offset) := rfl
  rw [write, if_neg (Option.some_ne_none f), elems_of_getElem? hs, hkept]
  by_cases hnil : (orig.take bufs.len).filter (allowed f offset) = []
  · rw [hc.writeKept_of_nil hnil, if_pos hnil]
    rfl
  · rw [hc.writeKept_of_ne_nil rfl hnil, if_neg hnil]
    rfl

end FilterTUN

end OverMesh
