import OverMesh.Internal.GoText

/-!
# Machine and node keys

The public halves of the two key pairs of a device, from `internal/key`: the machine key is its
identity toward the control plane, the node key its WireGuard key. Their text forms are
`mkey:` and `nodekey:` followed by 64 hexadecimal digits.

## Main results

* `NodePublic.unmarshalText_string` — a key is read back from its text form
-/

namespace OverMesh

namespace Key

open GoText

/-- The 32 bytes of a key. -/
def Bytes32 : Type := { k : List UInt8 // k.length = 32 }
  deriving DecidableEq

def machinePrefix : String := "mkey:"

def nodePrefix : String := "nodekey:"

/-- `prefix` and the key in hexadecimal. -/
def prefixedHex (pre : String) (k : Bytes32) : String := pre ++ String.ofList (hexEncode k.val)

/-- `unmarshalPrefixed`: the prefix, then exactly 64 hexadecimal digits. -/
def unmarshalPrefixed (pre s : String) : Option Bytes32 :=
  if s.toList.length ≠ pre.toList.length + 64 ∨ s.toList.take pre.toList.length ≠ pre.toList then
    none
  else (hexDecode (s.toList.drop pre.toList.length)).bind fun raw =>
    if h : raw.length = 32 then some ⟨raw, h⟩ else none

theorem unmarshalPrefixed_prefixedHex (pre : String) (k : Bytes32) :
    unmarshalPrefixed pre (prefixedHex pre k) = some k := by
  have hlist : (prefixedHex pre k).toList = pre.toList ++ hexEncode k.val := by simp [prefixedHex]
  rw [unmarshalPrefixed, hlist, if_neg, List.drop_left, hexDecode_hexEncode]
  · rw [Option.bind_some, dif_pos k.property]
    rfl
  · rw [List.length_append, length_hexEncode, k.property, List.take_left]
    simp

/-- The device's identity toward the control plane. -/
structure MachinePublic where
  k : Bytes32
  deriving DecidableEq

/-- The device's WireGuard key. -/
structure NodePublic where
  k : Bytes32
  deriving DecidableEq

/-- The private half of a node key. -/
structure NodePrivate where
  k : Bytes32
  deriving DecidableEq

namespace MachinePublic

def isZero (p : MachinePublic) : Bool := p.k.val == List.replicate 32 0

def string (p : MachinePublic) : String := prefixedHex machinePrefix p.k

def unmarshalText (s : String) : Option MachinePublic :=
  (unmarshalPrefixed machinePrefix s).map MachinePublic.mk

end MachinePublic

namespace NodePublic

def isZero (p : NodePublic) : Bool := p.k.val == List.replicate 32 0

def string (p : NodePublic) : String := prefixedHex nodePrefix p.k

def unmarshalText (s : String) : Option NodePublic :=
  (unmarshalPrefixed nodePrefix s).map NodePublic.mk

theorem unmarshalText_string (p : NodePublic) : unmarshalText p.string = some p := by
  rw [unmarshalText, string, unmarshalPrefixed_prefixedHex]
  rfl

end NodePublic

end Key

end OverMesh
