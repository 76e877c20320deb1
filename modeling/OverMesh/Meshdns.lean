import Mathlib.Data.List.AList
import OverMesh.Internal.GoText
import OverMesh.Internal.Netip
import OverMesh.Internal.Words

/-!
# The overlay resolver

`internal/meshdns`: a server that is authoritative for one zone and answers `<hostname>.<zone>` with
the addresses of a device. Names inside the zone that it does not know do not exist, and queries for
names outside are refused, so that the stub resolver asks somebody else.

Names are what `miekg/dns` presents them as, without escapes: a dot in a name separates labels.
`unicode.ToLower` is a parameter, of which only is used that it neither makes nor removes dots. A Go
map is an association list without repeated keys, and what iterates over it takes the order of the
iteration as an argument.

## Main definitions

* `Server`, `Server.setRecords`, `Server.handle`
* `SameName`, `Under` — names up to case, and the names below a domain by their labels

## Main results

* `handle_host`, `handle_under`, `handle_outside` — the three kinds of answer
-/

namespace OverMesh

namespace Meshdns

open Netip GoText

/-! ### The server -/

/-- A map from bare hostnames to addresses. -/
abbrev Records : Type := AList fun _ : String => List Addr

/-- An entry of such a map. -/
abbrev Entry : Type := (_ : String) × List Addr

/-- `Server`. -/
structure Server where
  zone : String
  records : Records

/-- `NewServer`. -/
def newServer : Server := ⟨"", ∅⟩

/-- `dns.Fqdn`: the name with a dot at the end. -/
def fqdn (s : String) : String := if s.toList.getLast? = some '.' then s else s ++ "."

/-- The response codes that are used. -/
inductive Rcode where
  | success
  | formatError
  | nameError
  | refused
  deriving DecidableEq

def typeA : UInt16 := 1
def typeAAAA : UInt16 := 28
def typeANY : UInt16 := 255

/-- A question. The class is not looked at. -/
structure Question where
  name : String
  qtype : UInt16
  deriving DecidableEq

/-- A record of an answer, with its owner and lifetime. -/
inductive RR where
  | a (name : String) (ttl : ℕ) (ip : BitVec 32)
  | aaaa (name : String) (ttl : ℕ) (ip : BitVec 128)
  deriving DecidableEq

/-- A reply. -/
structure Msg where
  rcode : Rcode
  authoritative : Bool
  answer : List RR
  deriving DecidableEq

/-- The record for an address, if the question asks for its family. -/
def Question.rr (q : Question) : Addr → Option RR
  | .v4 ip => if q.qtype = typeA ∨ q.qtype = typeANY then some (.a q.name 60 ip) else none
  | .v6 ip _ => if q.qtype = typeAAAA ∨ q.qtype = typeANY then some (.aaaa q.name 60 ip) else none

variable (lower : Char → Char)

/-- `strings.ToLower`. -/
def toLower (s : String) : String := String.ofList (s.toList.map lower)

namespace Server

/-- `SetRecords`, when the iteration over the records meets them as in `order`. -/
def setRecords (_ : Server) (domain : String) (order : List Entry) : Server where
  zone := fqdn (toLower lower domain)
  records := order.foldl (fun norm e => norm.insert (toLower lower e.1) e.2) ∅

theorem zone_setRecords (s : Server) (domain : String) (order : List Entry) :
    (s.setRecords lower domain order).zone = fqdn (toLower lower domain) := by
  rw [setRecords]

/-- The name is the zone or below it. -/
def inZone (s : Server) (name : String) : Bool :=
  s.zone ≠ "" && ('.' :: s.zone.toList).isSuffixOf name.toList || name = s.zone

/-- The addresses of a name, `none` for nil. Only single labels exist. -/
def find (s : Server) (name : String) : Option (List Addr) :=
  if s.inZone name ∧ name ≠ s.zone then
    let host := trimSuffix name.toList ('.' :: s.zone.toList)
    if '.' ∈ host then none else s.records.lookup (String.ofList host)
  else none

/-- `handle`, on the questions of a request. -/
def handle (s : Server) : List Question → Msg
  | [q] =>
    if s.inZone (toLower lower q.name) then
      match s.find (toLower lower q.name) with
      | none => ⟨.nameError, true, []⟩
      | some addrs => ⟨.success, true, addrs.filterMap q.rr⟩
    else ⟨.refused, false, []⟩
  | _ => ⟨.formatError, false, []⟩

end Server

/-! ### Names -/

/-- The labels of a name, from the left. A fully qualified name ends with an empty one. -/
def labels (name : String) : List (List Char) := name.toList.splitOn '.'

/-- Two names are the same up to case. -/
def SameName (m n : String) : Prop := toLower lower m = toLower lower n

/-- The name is below the domain: it has the labels of the domain, and some in front of them. -/
def Under (name domain : String) : Prop :=
  ∃ ls, ls ≠ [] ∧ labels (toLower lower name) = ls ++ labels (toLower lower (fqdn domain))

/-- The name of a host in a domain. -/
def hostName (host domain : String) : String := fqdn (host ++ "." ++ domain)

variable {lower}

theorem toList_toLower (s : String) : (toLower lower s).toList = s.toList.map lower :=
  String.toList_ofList

theorem toLower_append (s t : String) :
    toLower lower (s ++ t) = toLower lower s ++ toLower lower t := by
  refine String.toList_inj.mp ?_
  simp [toList_toLower]

theorem fqdn_ne_empty (s : String) : fqdn s ≠ "" := by
  rw [fqdn]
  split_ifs with h
  · rintro rfl
    cases h
  · simp

theorem fqdn_append {s t : String} (ht : t ≠ "") : fqdn (s ++ t) = s ++ fqdn t := by
  have hlast : (s ++ t).toList.getLast? = t.toList.getLast? := by
    rw [String.toList_append, List.getLast?_append_of_ne_nil]
    simpa using ht
  rw [fqdn, fqdn, hlast]
  split_ifs
  · rfl
  · rw [String.append_assoc]

section Dot

variable (hdot : ∀ c, lower c = '.' ↔ c = '.')

include hdot

theorem toLower_dot : toLower lower "." = "." := by
  refine String.toList_inj.mp ?_
  rw [toList_toLower]
  exact congrArg (fun c => [c]) ((hdot '.').mpr rfl)

/-- Case does not matter for the dot at the end. -/
theorem toLower_fqdn (s : String) : toLower lower (fqdn s) = fqdn (toLower lower s) := by
  have hlast : (toLower lower s).toList.getLast? = some '.' ↔ s.toList.getLast? = some '.' := by
    rw [toList_toLower, List.getLast?_map, Option.map_eq_some_iff]
    constructor
    · rintro ⟨c, hc, hlower⟩
      rw [hc, (hdot c).mp hlower]
    · intro h
      exact ⟨'.', h, (hdot '.').mpr rfl⟩
  rw [fqdn, fqdn]
  by_cases h : s.toList.getLast? = some '.'
  · rw [if_pos h, if_pos (hlast.mpr h)]
  · rw [if_neg h, if_neg (mt hlast.mp h), toLower_append, toLower_dot hdot]

/-- The name of a host, in lower case. -/
theorem toLower_hostName {host domain : String} (hdomain : domain ≠ "") :
    toLower lower (hostName host domain) =
      toLower lower host ++ "." ++ fqdn (toLower lower domain) := by
  rw [hostName, fqdn_append hdomain, toLower_append, toLower_append, toLower_dot hdot,
    toLower_fqdn hdot]

end Dot

/-! ### The answers -/

namespace Server

variable {s : Server} {q : Question} {name host : String}

/-- The zone by labels: a name that merely ends with the characters of the zone is not in it. -/
theorem inZone_iff (hzone : s.zone ≠ "") : s.inZone name = true ↔
      (∃ ls, ls ≠ [] ∧ labels name = ls ++ labels s.zone) ∨ name = s.zone := by
  rw [inZone, Bool.or_eq_true, Bool.and_eq_true, decide_eq_true_iff, decide_eq_true_iff,
    List.isSuffixOf_iff_suffix, Words.cons_suffix_iff]
  simp only [hzone, ne_eq, not_false_iff, true_and]
  rfl

theorem toList_host (host zone : String) :
    (host ++ "." ++ zone).toList = host.toList ++ '.' :: zone.toList := by
  rw [String.toList_append, String.toList_append, List.append_assoc]
  rfl

theorem inZone_host (hzone : s.zone ≠ "") (host : String) :
    s.inZone (host ++ "." ++ s.zone) = true := by
  have hlabels : labels (host ++ "." ++ s.zone) = labels host ++ labels s.zone := by
    rw [labels, toList_host, Words.splitOn_append_cons]
    rfl
  exact (inZone_iff hzone).mpr (.inl ⟨_, List.splitOn_ne_nil '.' host.toList, hlabels⟩)

theorem find_host (hzone : s.zone ≠ "") (hhost : '.' ∉ host.toList) :
    s.find (host ++ "." ++ s.zone) = s.records.lookup host := by
  have hlist := toList_host host s.zone
  have hne : host ++ "." ++ s.zone ≠ s.zone := by
    intro heq
    have hlen := congrArg (fun n : String => n.toList.length) heq
    simp only [hlist, List.length_append, List.length_cons] at hlen
    omega
  have htrim : trimSuffix (host ++ "." ++ s.zone).toList ('.' :: s.zone.toList) = host.toList := by
    rw [hlist, trimSuffix_append]
  rw [find, if_pos ⟨inZone_host hzone host, hne⟩, htrim, if_neg hhost, String.ofList_toList]

/-- Whatever is found is the record of a single label. -/
theorem exists_of_find {addrs : List Addr} (h : s.find name = some addrs) :
    ∃ host, name = host ++ "." ++ s.zone ∧ s.records.lookup host = some addrs := by
  rw [find] at h
  split_ifs at h with hin
  obtain ⟨hin, hne⟩ := hin
  rw [inZone, Bool.or_eq_true, Bool.and_eq_true, decide_eq_true_iff, decide_eq_true_iff,
    List.isSuffixOf_iff_suffix] at hin
  obtain ⟨-, pre, hpre⟩ := hin.resolve_right hne
  rw [← hpre, trimSuffix_append] at h
  simp only [Option.ite_none_left_eq_some] at h
  refine ⟨String.ofList pre, ?_, h.2⟩
  refine String.toList_inj.mp ?_
  rw [← hpre]
  simp

/-- **A name with a record** is answered with it. -/
theorem handle_host {addrs : List Addr} (hzone : s.zone ≠ "") (hhost : '.' ∉ host.toList)
    (hname : toLower lower q.name = host ++ "." ++ s.zone)
    (hrecord : s.records.lookup host = some addrs) :
    s.handle lower [q] = ⟨.success, true, addrs.filterMap q.rr⟩ := by
  have hfind : s.find (toLower lower q.name) = some addrs := by
    rw [hname, find_host hzone hhost, hrecord]
  have hin : s.inZone (toLower lower q.name) = true := by
    rw [hname]
    exact inZone_host hzone host
  rw [handle, if_pos hin, hfind]

/-- **A name in the zone without a record** does not exist. -/
theorem handle_under (hin : s.inZone (toLower lower q.name) = true)
    (hnone : ∀ host, toLower lower q.name = host ++ "." ++ s.zone → s.records.lookup host = none) :
    s.handle lower [q] = ⟨.nameError, true, []⟩ := by
  have hfind : s.find (toLower lower q.name) = none := by
    refine Option.eq_none_iff_forall_ne_some.mpr ?_
    intro addrs haddrs
    obtain ⟨host, hname, hrecord⟩ := exists_of_find haddrs
    rw [hnone host hname] at hrecord
    cases hrecord
  rw [handle, if_pos hin, hfind]

/-- **A name outside** is refused. -/
theorem handle_outside (hout : s.inZone (toLower lower q.name) = false) :
    s.handle lower [q] = ⟨.refused, false, []⟩ := by
  rw [handle, if_neg (by rw [hout]; exact Bool.false_ne_true)]

end Server

/-! ### What is asked for and what comes -/

/-- The address, if it is an IPv4 address. -/
def ipv4? : Addr → Option (BitVec 32)
  | .v4 ip => some ip
  | .v6 _ _ => none

/-- The address, if it is an IPv6 address. -/
def ipv6? : Addr → Option (BitVec 128)
  | .v4 _ => none
  | .v6 ip _ => some ip

/-- The IPv4 addresses of a list, in order. -/
def ipv4s (addrs : List Addr) : List (BitVec 32) := addrs.filterMap ipv4?

/-- The IPv6 addresses of a list, in order. -/
def ipv6s (addrs : List Addr) : List (BitVec 128) := addrs.filterMap ipv6?

theorem filterMap_rr_typeA {q : Question} (h : q.qtype = typeA) (addrs : List Addr) :
    addrs.filterMap q.rr = (ipv4s addrs).map (.a q.name 60) := by
  rw [ipv4s, List.map_filterMap]
  congr 1
  funext x
  cases x with
  | v4 ip => simp [Question.rr, ipv4?, h]
  | v6 ip z => simp [Question.rr, ipv4?, h, typeA, typeAAAA, typeANY]

theorem filterMap_rr_typeAAAA {q : Question} (h : q.qtype = typeAAAA) (addrs : List Addr) :
    addrs.filterMap q.rr = (ipv6s addrs).map (.aaaa q.name 60) := by
  rw [ipv6s, List.map_filterMap]
  congr 1
  funext x
  cases x with
  | v4 ip => simp [Question.rr, ipv6?, h, typeA, typeAAAA, typeANY]
  | v6 ip z => simp [Question.rr, ipv6?, h]

/-- Whatever the type, a record is of the family of the address it is for. -/
theorem mem_filterMap_rr {q : Question} {addrs : List Addr} {rr : RR}
    (h : rr ∈ addrs.filterMap q.rr) :
    (∃ ip ∈ ipv4s addrs, rr = .a q.name 60 ip) ∨ ∃ ip ∈ ipv6s addrs, rr = .aaaa q.name 60 ip := by
  obtain ⟨x, hx, hrr⟩ := List.mem_filterMap.mp h
  cases x with
  | v4 ip =>
    rw [Question.rr, Option.ite_none_right_eq_some] at hrr
    exact .inl ⟨ip, List.mem_filterMap.mpr ⟨_, hx, rfl⟩, (Option.some.inj hrr.2).symm⟩
  | v6 ip z =>
    rw [Question.rr, Option.ite_none_right_eq_some] at hrr
    exact .inr ⟨ip, List.mem_filterMap.mpr ⟨_, hx, rfl⟩, (Option.some.inj hrr.2).symm⟩

end Meshdns

end OverMesh
