import Mathlib.Logic.Function.Basic
import OverMesh.Internal.Netip

/-!
# What the parts of the router share

`internal/router` programs the operating system around the tunnel interface. On Linux it sets kernel
parameters through files under `/proc/sys`, which are a function here from paths to contents.
Contents are taken without the white space around them, which is how they are read.
-/

namespace OverMesh

open Netip

namespace Router

/-- The kernel parameters. `none` is a path that is not there. -/
abbrev Sysctls := String → Option String

/-- `readSysctl`. An error is the empty text. -/
def readSysctl (fs : Sysctls) (path : String) : String := (fs path).getD ""

/-- `writeSysctl`. `none` is an error. -/
def writeSysctl (fs : Sysctls) (path val : String) : Option Sysctls :=
  (fs path).map fun _ => Function.update fs path (some val)

/-- `restoreSysctl`. -/
def restoreSysctl (fs : Sysctls) (path old : String) : Sysctls :=
  if old ≠ "" then (writeSysctl fs path old).getD fs else fs

/-- `hasV4`. -/
def hasV4 (routes : List Prefix) : Bool := routes.any (·.addr.is4)

/-- `hasV6`. -/
def hasV6 (routes : List Prefix) : Bool := routes.any (·.addr.is6)

/-- The address families of the kernel's tables. -/
inductive Family where
  | v4
  | v6
  deriving DecidableEq, Repr

end Router

end OverMesh
