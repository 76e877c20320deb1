import OverMesh.Daemon.Peers
import OverMesh.Internal.NetipPort

/-!
# Endpoints of the bind

WireGuard keeps for every peer an endpoint that only the bind understands: a UDP address, or the key
of a peer that is reached through the relay. It is given as text and printed as text.

## Main results

* `parseEndpoint_dstToString` — an endpoint is read back from its text
-/

namespace OverMesh

open Netip GoText Key

namespace Magicsock

/-- `endpointWithPort` and `relayEndpoint`. -/
inductive BindEndpoint where
  | udp (ap : Addr × ℕ)
  | relay (k : Bytes32)
  deriving DecidableEq

/-- `relayEndpointPrefix`. -/
def relayEndpointStart : String := "relay:"

/-- `ParseEndpoint`. -/
def parseEndpoint (s : String) : Option BindEndpoint :=
  if s.toList.take relayEndpointStart.toList.length = relayEndpointStart.toList then
    (hexDecode (s.toList.drop relayEndpointStart.toList.length)).bind fun raw =>
      if h : raw.length = 32 then some (.relay ⟨raw, h⟩) else none
  else (parseAddrPort s).map .udp

/-- `DstToString`. -/
def BindEndpoint.dstToString : BindEndpoint → String
  | .udp ap => addrPortText ap
  | .relay k => Daemon.relayEndpointString k

/-- The text of an address does not look like that of a relay endpoint. -/
theorem addrPortChars_take (ap : Addr × ℕ) :
    (addrPortChars ap).take relayEndpointStart.toList.length ≠ relayEndpointStart.toList := by
  obtain ⟨a, port⟩ := ap
  -- the first character decides
  have hfirst : ∃ c cs, addrPortChars (a, port) = c :: cs ∧ c ≠ 'r' := by
    cases a with
    | v4 a =>
      obtain ⟨c, cs, hhead, hdigit⟩ := string4_head a
      refine ⟨c, cs ++ ':' :: decString port, ?_, ?_⟩
      · simp [addrPortChars, Addr.chars, hhead]
      · rintro rfl
        exact absurd hdigit (by decide)
    | v6 a z => exact ⟨'[', _, rfl, by decide⟩
  obtain ⟨c, cs, hcs, hne⟩ := hfirst
  rw [hcs]
  intro h
  exact hne (List.cons.inj h).1

/-- **An endpoint is read back from its text.** -/
theorem parseEndpoint_dstToString {e : BindEndpoint}
    (h : ∀ ap, e = .udp ap → ap.2 < 65536) : parseEndpoint e.dstToString = some e := by
  cases e with
  | udp ap =>
    have htake := addrPortChars_take ap
    rw [parseEndpoint, BindEndpoint.dstToString, addrPortText, String.toList_ofList,
      if_neg htake]
    exact congrArg (Option.map _) (parseAddrPort_string (h ap rfl))
  | relay k =>
    have htext : (Daemon.relayEndpointString k).toList =
        relayEndpointStart.toList ++ hexEncode k.val := by
      simp [Daemon.relayEndpointString, relayEndpointStart]
    rw [parseEndpoint, BindEndpoint.dstToString, htext, List.take_left, if_pos rfl,
      List.drop_left, hexDecode_hexEncode, Option.bind_some, dif_pos k.property]
    rfl

theorem parseAddrPort_of_parseEndpoint {s : String} {ap : Addr × ℕ}
    (h : parseEndpoint s = some (.udp ap)) : parseAddrPort s = some ap := by
  rw [parseEndpoint] at h
  split_ifs at h
  · obtain ⟨raw, -, h⟩ := Option.bind_eq_some_iff.mp h
    split_ifs at h
    cases h
  · obtain ⟨ap', hap, h⟩ := Option.map_eq_some_iff.mp h
    rw [hap, BindEndpoint.udp.inj h]

end Magicsock

end OverMesh
