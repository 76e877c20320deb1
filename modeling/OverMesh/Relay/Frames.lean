import OverMesh.Internal.Framing
import Mathlib.Data.Nat.Basic
import Mathlib.Tactic.SplitIfs

/-!
# Relay frames

`frames.go` of `internal/relay`: the wire format of the relay, a type byte, the length of the body
in two bytes and the body. `writeFrame` makes two writes on the connection, either of which may be
cut off by its deadline. `readFrame` waits for as many bytes as the header promises.

## Main definitions

* `Frame`, `Frame.bytes`
* `Conn`, `writeFrame` — the bytes that go out on a connection
* `readFrame`, `frames` — the first frame of a stream, and the format as a `Codec`

## Main results

* `readFrame_bytes`, `readFrame_take` — a whole frame is read back, and a part of one is waited on
* `writeFrame_spec` — what a call puts on the connection is the beginning of one frame
-/

namespace OverMesh

namespace Relay

/-- `maxFrameLen`. -/
def maxFrameLen : ℕ := 4096

/-- The frame types. -/
def frameChallenge : UInt8 := 0x01
@[inherit_doc frameChallenge] def frameAuth : UInt8 := 0x02
@[inherit_doc frameChallenge] def frameOK : UInt8 := 0x03
@[inherit_doc frameChallenge] def frameSend : UInt8 := 0x04
@[inherit_doc frameChallenge] def frameRecv : UInt8 := 0x05
@[inherit_doc frameChallenge] def framePing : UInt8 := 0x06
@[inherit_doc frameChallenge] def framePong : UInt8 := 0x07

/-- A frame that fits the format. -/
structure Frame where
  typ : UInt8
  body : List UInt8
  body_le : body.length ≤ maxFrameLen
  deriving DecidableEq

/-- `binary.BigEndian.PutUint16` of `uint16(n)`. -/
def putUint16 (n : ℕ) : List UInt8 := [UInt8.ofNat (n / 256), UInt8.ofNat n]

/-- `binary.BigEndian.Uint16`. -/
def uint16 (hi lo : UInt8) : ℕ := hi.toNat * 256 + lo.toNat

theorem uint16_ofNat {n : ℕ} (h : n < 65536) :
    uint16 (UInt8.ofNat (n / 256)) (UInt8.ofNat n) = n := by
  rw [uint16, UInt8.toNat_ofNat', UInt8.toNat_ofNat']
  omega

namespace Frame

/-- The header of a frame. -/
def header (f : Frame) : List UInt8 := f.typ :: putUint16 f.body.length

/-- A frame on the wire. -/
def bytes (f : Frame) : List UInt8 := f.header ++ f.body

@[simp] theorem length_header (f : Frame) : f.header.length = 3 := rfl

@[simp] theorem length_bytes (f : Frame) : f.bytes.length = 3 + f.body.length := by
  rw [bytes, List.length_append, length_header]

end Frame

/-! ### Reading -/

/-- Why `readFrame` does not return a frame. `short` is `io.ReadFull` waiting for bytes that are not
there yet, or giving up at the end of the stream. -/
inductive ReadError where
  | short
  | oversized (n : ℕ)
  deriving DecidableEq

/-- The text of an error, `eof` being that of `io.ReadFull`. -/
def ReadError.message (eof : String) : ReadError → String
  | .short => eof
  | .oversized n => s!"relay: oversized frame ({n})"

/-- `readFrame`: the first frame of the stream and the rest of it. -/
def readFrame : List UInt8 → Except ReadError (Frame × List UInt8)
  | typ :: hi :: lo :: s =>
    if h : uint16 hi lo > maxFrameLen then .error (.oversized (uint16 hi lo))
    else if s.length < uint16 hi lo then .error .short
    else .ok (⟨typ, s.take (uint16 hi lo), by rw [List.length_take]; omega⟩,
      s.drop (uint16 hi lo))
  | _ => .error .short

/-- **A whole frame is read back**, whatever follows it. -/
theorem readFrame_bytes (f : Frame) (rest : List UInt8) :
    readFrame (f.bytes ++ rest) = .ok (f, rest) := by
  obtain ⟨typ, body, hbody⟩ := f
  have hlen : body.length < 65536 := lt_of_le_of_lt hbody (by decide)
  have hle : ¬ body.length > maxFrameLen := Nat.not_lt.mpr hbody
  simp only [Frame.bytes, Frame.header, putUint16, List.cons_append, List.nil_append, readFrame,
    uint16_ofNat hlen, hle, dite_false]
  rw [if_neg (by simp)]
  simp

/-- A part of a frame is waited on. -/
theorem readFrame_take (f : Frame) {k : ℕ} (h : k < f.bytes.length) :
    readFrame (f.bytes.take k) = .error .short := by
  obtain ⟨typ, body, hbody⟩ := f
  have hlen : body.length < 65536 := lt_of_le_of_lt hbody (by decide)
  have hle : ¬ body.length > maxFrameLen := Nat.not_lt.mpr hbody
  rw [Frame.length_bytes] at h
  rcases k with _ | _ | _ | k
  · rfl
  · rfl
  · rfl
  · simp only [Frame.bytes, Frame.header, putUint16, List.cons_append, List.nil_append,
      List.take_succ_cons, readFrame, uint16_ofNat hlen, hle, dite_false]
    rw [if_pos]
    simp only [List.length_take]
    simp only at h
    omega

/-- The wire format. -/
def frames : Framing.Codec UInt8 Frame where
  encode := Frame.bytes
  decode s := (readFrame s).toOption
  encode_ne_nil f := by simp [Frame.bytes, Frame.header]
  decode_encode f rest := by rw [readFrame_bytes]; rfl
  decode_take f k h := by rw [readFrame_take f h]; rfl

/-! ### Writing -/

/-- What the operating system makes of a `Write`: all bytes go out, or the call fails after some of
them. -/
inductive WriteResult where
  | all
  | cut (k : ℕ)
  deriving DecidableEq

/-- A connection, as the bytes that went out on it. -/
structure Conn where
  out : List UInt8
  closed : Bool
  deriving DecidableEq

namespace Conn

/-- `Write`: whether it succeeded. Nothing goes out on a closed connection. -/
def write (c : Conn) (p : List UInt8) (r : WriteResult) : Bool × Conn :=
  if c.closed then (false, c)
  else match r with
    | .all => (true, { c with out := c.out ++ p })
    | .cut k => (false, { c with out := c.out ++ p.take k })

/-- `Close`. -/
def close (c : Conn) : Conn := { c with closed := true }

end Conn

/-- Why `writeFrame` fails. -/
inductive FrameError where
  | tooLarge (n : ℕ)
  | write
  deriving DecidableEq

/-- The text of an error, `write` being that of the connection. -/
def FrameError.message (write : String) : FrameError → String
  | .tooLarge n => s!"relay: frame too large ({n})"
  | .write => write

/-- `writeFrame`. The header and the body are written by a `Write` each. -/
def writeFrame (w : Conn) (typ : UInt8) (body : List UInt8) (r₁ r₂ : WriteResult) :
    Except FrameError Unit × Conn :=
  if body.length > maxFrameLen then (.error (.tooLarge body.length), w)
  else match w.write (typ :: putUint16 body.length) r₁ with
    | (false, w) => (.error .write, w)
    | (true, w) =>
      match w.write body r₂ with
      | (false, w) => (.error .write, w)
      | (true, w) => (.ok (), w)

/-- How much of a frame with a body of `n` bytes goes out. -/
def bytesOut (r₁ r₂ : WriteResult) (n : ℕ) : ℕ :=
  match r₁, r₂ with
  | .cut k, _ => min k 3
  | .all, .cut k => 3 + min k n
  | .all, .all => 3 + n

section Write

variable {w : Conn} {r₁ r₂ : WriteResult}

theorem write_of_closed (h : w.closed = true) (p : List UInt8) (r : WriteResult) :
    w.write p r = (false, w) := if_pos h

theorem writeFrame_of_closed (h : w.closed = true) (typ : UInt8) (body : List UInt8) :
    (writeFrame w typ body r₁ r₂).2 = w := by
  rw [writeFrame, write_of_closed h]
  split_ifs <;> rfl

theorem closed_write (w : Conn) (p : List UInt8) (r : WriteResult) :
    (w.write p r).2.closed = w.closed := by
  unfold Conn.write
  split_ifs
  · rfl
  · cases r <;> rfl

theorem closed_writeFrame (w : Conn) (typ : UInt8) (body : List UInt8) (r₁ r₂ : WriteResult) :
    (writeFrame w typ body r₁ r₂).2.closed = w.closed := by
  rw [writeFrame]
  split_ifs
  · rfl
  · have h₁ := closed_write w (typ :: putUint16 body.length) r₁
    rcases hw₁ : w.write (typ :: putUint16 body.length) r₁ with ⟨_ | _, w₁⟩
    · rwa [hw₁] at h₁
    · have h₂ := closed_write w₁ body r₂
      rw [hw₁] at h₁
      simp only
      rcases hw₂ : w₁.write body r₂ with ⟨_ | _, w₂⟩ <;> rw [hw₂] at h₂ <;> exact h₂.trans h₁

/-- A body that is too large is refused before anything is written. -/
theorem writeFrame_of_tooLarge {body : List UInt8} (h : body.length > maxFrameLen) (typ : UInt8) :
    writeFrame w typ body r₁ r₂ = (.error (.tooLarge body.length), w) := if_pos h

/-- **What a call puts on an open connection is the beginning of one frame.** -/
theorem writeFrame_spec (f : Frame) (h : w.closed = false) (r₁ r₂ : WriteResult) :
    writeFrame w f.typ f.body r₁ r₂ =
      (if r₁ = .all ∧ r₂ = .all then .ok () else .error .write,
        { w with out := w.out ++ f.bytes.take (bytesOut r₁ r₂ f.body.length) }) := by
  have hle : ¬ f.body.length > maxFrameLen := Nat.not_lt.mpr f.body_le
  have hheader : f.typ :: putUint16 f.body.length = f.header := rfl
  rw [writeFrame, if_neg hle, hheader]
  cases r₁ with
  | cut k =>
    have htake : f.bytes.take (bytesOut (.cut k) r₂ f.body.length) = f.header.take k := by
      rw [bytesOut, Frame.bytes, List.take_append_of_le_length (Nat.min_le_right k 3),
        ← f.length_header, ← List.take_eq_take_min]
    simp [Conn.write, h, htake]
  | all =>
    cases r₂ with
    | cut k =>
      have htake : f.bytes.take (bytesOut .all (.cut k) f.body.length) =
          f.header ++ f.body.take k := by
        rw [bytesOut, Frame.bytes, ← f.length_header, List.take_length_add_append,
          ← List.take_eq_take_min]
      simp [Conn.write, h, htake]
    | all =>
      have htake : f.bytes.take (bytesOut .all .all f.body.length) = f.header ++ f.body := by
        rw [bytesOut, ← f.length_bytes, List.take_length, Frame.bytes]
      simp [Conn.write, h, htake]

theorem bytesOut_le (r₁ r₂ : WriteResult) (n : ℕ) : bytesOut r₁ r₂ n ≤ 3 + n := by
  rcases r₁ with _ | k <;> rcases r₂ with _ | l <;> simp only [bytesOut] <;> omega

end Write

end Relay

end OverMesh
