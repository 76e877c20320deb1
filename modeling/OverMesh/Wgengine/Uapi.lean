import OverMesh.Coord.Basic
import OverMesh.Magicsock.Endpoint

/-!
# The configuration text of WireGuard

A userspace WireGuard device is configured by a text, one line for each command, with the value
after an equals sign. `uapiPeersConfig` writes it with `fmt.Fprintf`, and `IpcSet` of the device
reads it line by line. What is written is text of the program's own making, except for the zone of
an endpoint: that comes from the peer, through the control plane, and may be any text.

The device is not part of the program. What is assumed of its reader is a structure, `UapiReader`:
it reads line by line, up to a length, and asks the bind for the endpoint of a line.

## Main definitions

* `Uapi.line` — a command as a line
* `UapiReader` — `IpcSet`, as far as it reads; `lineReader` — one that meets the assumptions

## Main results

* `uapi_text_iff` — **the device is told exactly the peer set** just when no zone has a line break
-/

namespace OverMesh

open Netip GoText Key Magicsock

namespace Wgengine

/-! ### Writing -/

/-- The text of an endpoint. -/
def Endpoint.chars : Endpoint → List Char
  | .udp ap => addrPortChars ap
  | .relay s => s.toList

/-- What stands before the equals sign. -/
def Uapi.key : Uapi → String
  | .replacePeers => "replace_peers"
  | .publicKey _ => "public_key"
  | .replaceAllowedIPs => "replace_allowed_ips"
  | .allowedIP _ => "allowed_ip"
  | .endpoint _ => "endpoint"
  | .persistentKeepalive _ => "persistent_keepalive_interval"

/-- What stands behind it. -/
def Uapi.value : Uapi → List Char
  | .replacePeers | .replaceAllowedIPs => ['t', 'r', 'u', 'e']
  | .publicKey k => hexEncode k.val
  | .allowedIP p => p.addr.chars ++ '/' :: decString p.bits
  | .endpoint e => e.chars
  | .persistentKeepalive n => decString n

/-- A command as a line. -/
def Uapi.line (c : Uapi) : List Char := c.key.toList ++ '=' :: c.value

/-- The text of some commands. -/
def uapiText (cmds : List Uapi) : List Char := cmds.flatMap fun c => c.line ++ ['\n']

/-! ### Reading -/

/-- The endpoint that the bind makes of the value. -/
def toEndpoint : BindEndpoint → Endpoint
  | .udp ap => .udp ap
  | .relay k => .relay (Daemon.relayEndpointString k)

/-- What the program gives to be written: ports and relay endpoints as they are, and keepalives that
fit. -/
def Uapi.Proper : Uapi → Prop
  | .endpoint (.udp ap) => ap.2 < 65536
  | .endpoint (.relay s) => ∃ k, s = Daemon.relayEndpointString k
  | .persistentKeepalive n => n < 65536
  | _ => True

/-- What comes after `replace_peers`: the commands of peers, the first of which names one. -/
structure PeerCommands (cmds : List Uapi) : Prop where
  head : ∀ c ∈ cmds.head?, ∃ k, c = .publicKey k
  peers : .replacePeers ∉ cmds

/-- A line that is read as it is: no line break, no carriage return at its end, not empty, and
shorter than the bound, in bytes. -/
structure IsLine (maxLine : ℕ) (l : List Char) : Prop where
  newline : '\n' ∉ l
  carriage : l.getLast? ≠ some '\r'
  nonempty : l ≠ []
  short : (String.ofList l).utf8ByteSize < maxLine

/-- `IpcSet` of the device, as far as it reads. `line` is what a line is read as. -/
structure UapiReader where
  read : List Char → Option (List Uapi)
  line : List Char → Option Uapi
  maxLine : ℕ
  read_lines : ∀ (ls : List (List Char)) cmds, (∀ l ∈ ls, IsLine maxLine l) →
    ls.map line = (Uapi.replacePeers :: cmds).map some → PeerCommands cmds →
      read (ls.flatMap (· ++ ['\n'])) = some (.replacePeers :: cmds)
  /-- What is read stands on a line. -/
  read_mem : ∀ text cmds, read text = some cmds → ∀ c ∈ cmds, ∃ l, '\n' ∉ l ∧ line l = some c
  line_command : ∀ c : Uapi, c.Proper → (∀ e, c ≠ .endpoint e) → line c.line = some c
  /-- The value of an endpoint is given to `ParseEndpoint` of the bind. -/
  line_endpoint : ∀ l e, line l = some (.endpoint e) ↔ ∃ v b, l = "endpoint=".toList ++ v ∧
    parseEndpoint (String.ofList v) = some b ∧ toEndpoint b = e

/-- The line of the command is shorter than the bound. -/
def UapiReader.Fits (R : UapiReader) (c : Uapi) : Prop :=
  (String.ofList c.line).utf8ByteSize < R.maxLine

instance (R : UapiReader) (c : Uapi) : Decidable (R.Fits c) := inferInstanceAs (Decidable (_ < _))

/-- The zone of the endpoint has no line break. -/
def Uapi.OneLine : Uapi → Prop
  | .endpoint (.udp ap) => '\n' ∉ ap.1.zone.toList
  | _ => True

/-- The endpoint is read back from its text. -/
theorem parseEndpoint_chars {e : Endpoint} (h : (Uapi.endpoint e).Proper) :
    (parseEndpoint (String.ofList e.chars)).map toEndpoint = some e := by
  cases e with
  | udp ap =>
    have hread : parseEndpoint (BindEndpoint.udp ap).dstToString = some (.udp ap) :=
      parseEndpoint_dstToString fun ap' hap => by
        obtain rfl := BindEndpoint.udp.inj hap
        exact h
    exact congrArg (Option.map toEndpoint) hread
  | relay s =>
    obtain ⟨k, rfl⟩ := h
    have hread : parseEndpoint (BindEndpoint.relay k).dstToString = some (.relay k) :=
      parseEndpoint_dstToString fun ap' hap => by cases hap
    rw [Endpoint.chars, String.ofList_toList]
    exact congrArg (Option.map toEndpoint) hread

/-- **A line is read back.** -/
theorem UapiReader.line_line (R : UapiReader) {c : Uapi} (h : c.Proper) :
    R.line c.line = some c := by
  cases c with
  | endpoint e =>
    obtain ⟨b, hb, he⟩ := Option.map_eq_some_iff.mp (parseEndpoint_chars h)
    have hline : (Uapi.endpoint e).line = "endpoint=".toList ++ e.chars := by
      simp [Uapi.line, Uapi.key, Uapi.value]
    exact (R.line_endpoint _ e).mpr ⟨e.chars, b, hline, hb, he⟩
  | replacePeers | publicKey k | replaceAllowedIPs | allowedIP p | persistentKeepalive n =>
    exact R.line_command _ h (by simp)

/-! ### Line breaks -/

theorem newline_not_mem_decString (n : ℕ) : '\n' ∉ decString n :=
  fun h => absurd (digit_of_mem_decString h).1 (by decide)

/-- The text of an address has the line breaks of its zone. -/
theorem newline_mem_chars_iff (a : Addr) : '\n' ∈ a.chars ↔ '\n' ∈ a.zone.toList := by
  constructor
  · intro h
    rcases mem_chars h with h | h | h | h
    · exact absurd h (by decide)
    · exact absurd h (by decide)
    · exact absurd h (by decide)
    · exact h
  · intro h
    cases a with
    | v4 a => exact absurd h (by simp)
    | v6 a z =>
      have hz : z ≠ "" := by
        rintro rfl
        exact absurd h (by simp)
      rw [chars_v6 a hz]
      exact List.mem_append_right _ (List.mem_cons_of_mem _ h)

theorem newline_mem_addrPortChars_iff (ap : Addr × ℕ) :
    '\n' ∈ addrPortChars ap ↔ '\n' ∈ ap.1.zone.toList := by
  obtain ⟨a, port⟩ := ap
  rw [← newline_mem_chars_iff]
  cases a with
  | v4 a => simp [addrPortChars, newline_not_mem_decString]
  | v6 a z => simp [addrPortChars, newline_not_mem_decString]

theorem newline_not_mem_hexEncode (bs : List UInt8) : '\n' ∉ hexEncode bs :=
  fun h => absurd (isSpace_of_mem_hexEncode h) (by decide)

/-- **The only line breaks are those of a zone.** -/
theorem newline_mem_line_iff {c : Uapi} (hproper : c.Proper) : '\n' ∉ c.line ↔ c.OneLine := by
  have hkey : '\n' ∉ c.key.toList := by cases c <;> simp [Uapi.key]
  have hline : '\n' ∉ c.line ↔ '\n' ∉ c.value := by simp [Uapi.line, hkey]
  rw [hline]
  cases c with
  | replacePeers => exact iff_of_true (by simp [Uapi.value]) trivial
  | publicKey k => exact iff_of_true (newline_not_mem_hexEncode k.val) trivial
  | replaceAllowedIPs => exact iff_of_true (by simp [Uapi.value]) trivial
  | allowedIP p =>
    refine iff_of_true (fun h => ?_) trivial
    rcases List.mem_append.mp h with h | h
    · rw [newline_mem_chars_iff, p.zoneless] at h
      exact absurd h (by simp)
    · exact newline_not_mem_decString p.bits (by simpa using h)
  | endpoint e =>
    cases e with
    | udp ap => exact not_congr (newline_mem_addrPortChars_iff ap)
    | relay s =>
      obtain ⟨k, rfl⟩ := hproper
      refine iff_of_true ?_ trivial
      simp [Uapi.value, Endpoint.chars, Daemon.relayEndpointString, newline_not_mem_hexEncode]
  | persistentKeepalive n => exact iff_of_true (newline_not_mem_decString n) trivial

/-- Values end in letters or digits. -/
theorem exists_value_eq {c : Uapi} (hproper : c.Proper) :
    ∃ l s, c.value = l ++ s ∧ s ≠ [] ∧ '\r' ∉ s := by
  have hdec : ∀ n : ℕ, decString n ≠ [] ∧ '\r' ∉ decString n := fun n =>
    ⟨decString_ne_nil n, fun h => absurd (digit_of_mem_decString h).1 (by decide)⟩
  have hhex : ∀ k : Bytes32, hexEncode k.val ≠ [] ∧ '\r' ∉ hexEncode k.val := by
    refine fun k => ⟨fun h => ?_, fun h => absurd (isSpace_of_mem_hexEncode h) (by decide)⟩
    have hlen := congrArg List.length h
    rw [length_hexEncode, k.property] at hlen
    simp at hlen
  cases c with
  | replacePeers => exact ⟨[], _, rfl, by simp, by simp⟩
  | publicKey k => exact ⟨[], _, rfl, hhex k⟩
  | replaceAllowedIPs => exact ⟨[], _, rfl, by simp, by simp⟩
  | allowedIP p => exact ⟨p.addr.chars ++ ['/'], _, by simp [Uapi.value], hdec p.bits⟩
  | endpoint e =>
    cases e with
    | udp ap =>
      obtain ⟨a | ⟨a, z⟩, port⟩ := ap
      · exact ⟨(Addr.v4 a).chars ++ [':'], _,
          by simp [Uapi.value, Endpoint.chars, addrPortChars], hdec port⟩
      · exact ⟨'[' :: (Addr.v6 a z).chars ++ [']', ':'], _,
          by simp [Uapi.value, Endpoint.chars, addrPortChars], hdec port⟩
    | relay s =>
      obtain ⟨k, rfl⟩ := hproper
      exact ⟨"relay:".toList, _,
        by simp [Uapi.value, Endpoint.chars, Daemon.relayEndpointString], hhex k⟩
  | persistentKeepalive n => exact ⟨[], _, rfl, hdec n⟩

theorem getLast?_line {c : Uapi} (hproper : c.Proper) : c.line.getLast? ≠ some '\r' := by
  obtain ⟨l, s, hvalue, hne, hreturn⟩ := exists_value_eq hproper
  rw [Uapi.line, hvalue, ← List.cons_append, ← List.append_assoc]
  cases hlast : s.getLast? with
  | none => exact absurd (List.getLast?_eq_none_iff.mp hlast) hne
  | some ch =>
    rw [List.getLast?_append, hlast, Option.some_or]
    rintro ⟨⟩
    exact hreturn (List.mem_of_getLast? hlast)

/-! ### Texts -/

namespace UapiReader

variable (R : UapiReader) {cmds : List Uapi}

/-- **Commands are read back**, if each of them is one line. -/
theorem read_uapiText (hform : PeerCommands cmds)
    (hproper : ∀ c ∈ Uapi.replacePeers :: cmds, c.Proper)
    (hfits : ∀ c ∈ Uapi.replacePeers :: cmds, R.Fits c)
    (h : ∀ c ∈ Uapi.replacePeers :: cmds, c.OneLine) :
    R.read (uapiText (.replacePeers :: cmds)) = some (.replacePeers :: cmds) := by
  have htext : uapiText (.replacePeers :: cmds) =
      ((Uapi.replacePeers :: cmds).map Uapi.line).flatMap (· ++ ['\n']) := by
    rw [uapiText, List.flatMap_map]
  rw [htext]
  refine R.read_lines _ cmds ?_ ?_ hform
  · intro l hl
    obtain ⟨c, hc, rfl⟩ := List.mem_map.mp hl
    exact ⟨(newline_mem_line_iff (hproper c hc)).mpr (h c hc), getLast?_line (hproper c hc),
      by simp [Uapi.line], hfits c hc⟩
  · rw [List.map_map]
    exact List.map_congr_left fun c hc => R.line_line (hproper c hc)

/-- **No zone that is read has a line break.** -/
theorem oneLine_of_read {text : List Char} (h : R.read text = some cmds) :
    ∀ c ∈ cmds, c.OneLine := by
  intro c hc
  obtain ⟨l, hnl, hline⟩ := R.read_mem text cmds h c hc
  cases c with
  | endpoint e =>
    cases e with
    | relay s => trivial
    | udp ap =>
      obtain ⟨v, b, rfl, hparse, hb⟩ := (R.line_endpoint l _).mp hline
      intro hzone
      refine hnl (List.mem_append_right _ ?_)
      cases b with
      | relay k => cases hb
      | udp ap' =>
        obtain rfl := Endpoint.udp.inj hb
        have hmem := mem_of_mem_zone_parseAddrPort (parseAddrPort_of_parseEndpoint hparse) hzone
        rwa [String.toList_ofList] at hmem
  | replacePeers | publicKey k | replaceAllowedIPs | allowedIP p | persistentKeepalive n => trivial

theorem read_uapiText_iff (hform : PeerCommands cmds)
    (hproper : ∀ c ∈ Uapi.replacePeers :: cmds, c.Proper)
    (hfits : ∀ c ∈ Uapi.replacePeers :: cmds, R.Fits c) :
    R.read (uapiText (.replacePeers :: cmds)) = some (.replacePeers :: cmds) ↔
      ∀ c ∈ Uapi.replacePeers :: cmds, c.OneLine :=
  ⟨R.oneLine_of_read, R.read_uapiText hform hproper hfits⟩

end UapiReader

theorem PeerCommands.append {cmds cmds' : List Uapi} (h : PeerCommands cmds)
    (h' : PeerCommands cmds') : PeerCommands (cmds ++ cmds') := by
  refine ⟨fun c hc => ?_, fun hmem => (List.mem_append.mp hmem).elim h.peers h'.peers⟩
  cases cmds with
  | nil => exact h'.head c hc
  | cons c' cmds => exact h.head c hc

/-- The commands of the peers are such commands. -/
theorem peerCommands_flatMap (cfgs : List PeerConfig) : PeerCommands (cfgs.flatMap uapiPeer) := by
  induction cfgs with
  | nil => exact ⟨(fun c hc => by cases hc), List.not_mem_nil⟩
  | cons p cfgs ih =>
    rw [List.flatMap_cons]
    refine PeerCommands.append ⟨?_, by simp [uapiPeer]⟩ ih
    rintro c ⟨⟩
    exact ⟨p.publicKey, rfl⟩

/-! ### What the node agent writes -/

/-- What a peer is given as its endpoint: a port, and the relay form of some key. -/
structure ProperConfig (p : PeerConfig) : Prop where
  port : ∀ ap ∈ p.endpoint, ap.2 < 65536
  relay : p.relayEndpoint = "" ∨ ∃ k, p.relayEndpoint = Daemon.relayEndpointString k

/-- What holds of the commands for some peers. -/
theorem forall_mem_uapiPeersConfig {P : Uapi → Prop} {cfgs : List PeerConfig} :
    (∀ c ∈ uapiPeersConfig cfgs, P c) ↔ P .replacePeers ∧ ∀ p ∈ cfgs,
      P (.publicKey p.publicKey) ∧ P .replaceAllowedIPs ∧ (∀ a ∈ p.allowedIPs, P (.allowedIP a)) ∧
        (∀ e ∈ PeerConfig.dst p, P (.endpoint e)) ∧ P (.persistentKeepalive keepaliveSeconds) := by
  simp only [uapiPeersConfig, uapiPeer, List.forall_mem_cons, List.forall_mem_flatMap,
    List.forall_mem_append, List.forall_mem_map]
  simp [and_assoc]

theorem dst_eq_udp_iff {p : PeerConfig} {ap : Addr × ℕ} :
    PeerConfig.dst p = some (.udp ap) ↔ p.endpoint = some ap := by
  rw [PeerConfig.dst]
  cases p.endpoint with
  | none =>
    dsimp only
    split_ifs <;> simp
  | some ap' => simp

theorem relayEndpoint_of_dst {p : PeerConfig} {s : String}
    (h : PeerConfig.dst p = some (.relay s)) : p.relayEndpoint = s ∧ s ≠ "" := by
  rw [PeerConfig.dst] at h
  cases hend : p.endpoint with
  | none =>
    simp only [hend] at h
    split_ifs at h with hne
    obtain rfl : p.relayEndpoint = s := by simpa using h
    exact ⟨rfl, hne⟩
  | some ap => simp [hend] at h

theorem proper_of_mem {cfgs : List PeerConfig} (h : ∀ p ∈ cfgs, ProperConfig p) :
    ∀ c ∈ uapiPeersConfig cfgs, c.Proper := by
  refine forall_mem_uapiPeersConfig.mpr ⟨trivial, fun p hp => ⟨trivial, trivial, fun _ _ => trivial,
    fun e he => ?_, by show keepaliveSeconds < 65536; decide⟩⟩
  cases e with
  | udp ap => exact (h p hp).port ap (dst_eq_udp_iff.mp he)
  | relay s =>
    obtain ⟨hs, hne⟩ := relayEndpoint_of_dst he
    rcases (h p hp).relay with hempty | ⟨k, hk⟩
    · exact absurd (hs.symm.trans hempty) hne
    · exact ⟨k, hs.symm.trans hk⟩

theorem oneLine_iff {cfgs : List PeerConfig} : (∀ c ∈ uapiPeersConfig cfgs, c.OneLine) ↔
    ∀ p ∈ cfgs, ∀ ap ∈ p.endpoint, '\n' ∉ ap.1.zone.toList := by
  rw [forall_mem_uapiPeersConfig]
  constructor
  · intro h p hp ap hap
    exact (h.2 p hp).2.2.2.1 (.udp ap) (dst_eq_udp_iff.mpr hap)
  · refine fun h => ⟨trivial, fun p hp => ⟨trivial, trivial, fun _ _ => trivial, fun e he => ?_,
      trivial⟩⟩
    cases e with
    | udp ap => exact h p hp ap (dst_eq_udp_iff.mp he)
    | relay s => trivial

theorem port_lt_of_parseAddrPort {s : String} {ap : Addr × ℕ} (h : parseAddrPort s = some ap) :
    ap.2 < 65536 := by
  rw [parseAddrPort] at h
  obtain ⟨⟨ip, port⟩, -, h⟩ := Option.bind_eq_some_iff.mp h
  dsimp only at h
  split_ifs at h
  obtain ⟨⟨b, ip'⟩, -, h⟩ := Option.bind_eq_some_iff.mp h
  obtain ⟨n, hn, h⟩ := Option.bind_eq_some_iff.mp h
  obtain ⟨a, -, h⟩ := Option.bind_eq_some_iff.mp h
  split_ifs at h
  obtain rfl := Option.some.inj h
  exact parseUint_lt hn

/-- What is programmed for a peer is proper. -/
theorem properConfig_peerConfig (d : Daemon) {pi : PeerInfo} (h : ∀ ap ∈ pi.pathEP, ap.2 < 65536) :
    ProperConfig (d.peerConfig pi) := by
  rw [Daemon.peerConfig, Daemon.endpoints]
  split_ifs
  · exact ⟨h, .inl rfl⟩
  · exact ⟨fun ap hap => (by cases hap), .inr ⟨pi.pubKey, rfl⟩⟩
  · refine ⟨fun ap hap => ?_, .inl rfl⟩
    obtain ⟨s, -, hs⟩ := List.exists_of_findSome?_eq_some hap
    exact port_lt_of_parseAddrPort hs

/-- Every peer that is programmed is proper. -/
theorem properConfig_of_mem (d : Daemon) {order : List PeerInfo}
    (hports : ∀ pi ∈ order, ∀ ap ∈ pi.pathEP, ap.2 < 65536) :
    ∀ p ∈ d.buildPeerConfigsLocked order, ProperConfig p := by
  intro p hp
  obtain ⟨pi, hpi, rfl⟩ := List.mem_map.mp hp
  exact properConfig_peerConfig d (hports pi (List.mem_filter.mp hpi).1)

end Wgengine

open Wgengine

/-- **The device is told exactly the peer set, just when no zone has a line break.** The
configuration text that is written for the peers of a node is read by the device as the commands
for these peers, if the zones of the endpoints they are programmed with have no line breaks and no
line is too long; and if a zone has one, the text is read as something else or not at all. -/
theorem uapi_text_iff (R : UapiReader) (d : Daemon) {order : List PeerInfo}
    (hports : ∀ pi ∈ order, ∀ ap ∈ pi.pathEP, ap.2 < 65536)
    (hfits : ∀ c ∈ uapiPeersConfig (d.buildPeerConfigsLocked order), R.Fits c) :
    R.read (uapiText (uapiPeersConfig (d.buildPeerConfigsLocked order))) =
        some (uapiPeersConfig (d.buildPeerConfigsLocked order)) ↔
      ∀ pi ∈ order, ∀ ap ∈ (d.endpoints pi).1, '\n' ∉ ap.1.zone.toList := by
  refine (R.read_uapiText_iff (peerCommands_flatMap _)
    (proper_of_mem (properConfig_of_mem d hports)) hfits).trans (oneLine_iff.trans ?_)
  constructor
  · intro h pi hpi ap hap
    have hprogrammed : d.programmed pi = true := by
      rw [Daemon.programmed, decide_eq_true_eq]
      exact .inl fun hnone => by
        rw [hnone] at hap
        cases hap
    exact h (d.peerConfig pi)
      (List.mem_map_of_mem (List.mem_filter.mpr ⟨hpi, hprogrammed⟩)) ap hap
  · intro h p hp
    obtain ⟨pi, hpi, rfl⟩ := List.mem_map.mp hp
    exact h pi (List.mem_filter.mp hpi).1

/-! ### A reader -/

namespace Wgengine

/-- The value of a line, by what stands before the equals sign. -/
def readValue (key : String) (value : List Char) : Option Uapi :=
  if key = "replace_peers" then
    if value = ['t', 'r', 'u', 'e'] then some .replacePeers else none
  else if key = "public_key" then
    (hexDecode value).bind fun raw =>
      if h : raw.length = 32 then some (.publicKey ⟨raw, h⟩) else none
  else if key = "replace_allowed_ips" then
    if value = ['t', 'r', 'u', 'e'] then some .replaceAllowedIPs else none
  else if key = "allowed_ip" then (parsePrefix (String.ofList value)).map .allowedIP
  else if key = "endpoint" then
    (parseEndpoint (String.ofList value)).map fun e => .endpoint (toEndpoint e)
  else if key = "persistent_keepalive_interval" then
    (parseUint 16 value).map .persistentKeepalive
  else none

/-- A line. -/
def readLine (l : List Char) : Option Uapi :=
  match cut '=' l with
  | (_, none) => none
  | (key, some value) => readValue (String.ofList key) value

theorem readLine_command {c : Uapi} (h : c.Proper) (hend : ∀ e, c ≠ .endpoint e) :
    readLine c.line = some c := by
  have hkey : '=' ∉ c.key.toList := by cases c <;> simp [Uapi.key]
  rw [readLine, Uapi.line, cut_append hkey]
  dsimp only
  rw [String.ofList_toList, readValue]
  cases c with
  | replacePeers => rfl
  | publicKey k =>
    rw [Uapi.key, Uapi.value, if_neg (by decide), if_pos rfl, hexDecode_hexEncode,
      Option.bind_some, dif_pos k.property]
    rfl
  | replaceAllowedIPs =>
    rw [Uapi.key, Uapi.value, if_neg (by decide), if_neg (by decide), if_pos rfl, if_pos rfl]
  | allowedIP p =>
    rw [Uapi.key, Uapi.value, if_neg (by decide), if_neg (by decide), if_neg (by decide),
      if_pos rfl, parsePrefix_chars, Option.map_some]
  | endpoint e => exact absurd rfl (hend e)
  | persistentKeepalive n =>
    rw [Uapi.key, Uapi.value, if_neg (by decide), if_neg (by decide), if_neg (by decide),
      if_neg (by decide), if_neg (by decide), if_pos rfl,
      parseUint_decString (show n < 2 ^ 16 from h), Option.map_some]

theorem readValue_endpoint_iff {key : String} {value : List Char} {e : Endpoint} :
    readValue key value = some (.endpoint e) ↔ key = "endpoint" ∧
      ∃ b, parseEndpoint (String.ofList value) = some b ∧ toEndpoint b = e := by
  by_cases hkey : key = "endpoint"
  · subst hkey
    rw [readValue, if_neg (by decide), if_neg (by decide), if_neg (by decide), if_neg (by decide),
      if_pos rfl]
    simp [Option.map_eq_some_iff]
  · refine iff_of_false (fun h => ?_) fun h => hkey h.1
    rw [readValue, if_neg hkey] at h
    split_ifs at h
    · cases h
    · obtain ⟨raw, -, h⟩ := Option.bind_eq_some_iff.mp h
      split_ifs at h
      cases h
    · cases h
    · obtain ⟨p, -, h⟩ := Option.map_eq_some_iff.mp h
      cases h
    · obtain ⟨n, -, h⟩ := Option.map_eq_some_iff.mp h
      cases h

theorem readLine_endpoint_iff {l : List Char} {e : Endpoint} :
    readLine l = some (.endpoint e) ↔ ∃ v b, l = "endpoint=".toList ++ v ∧
      parseEndpoint (String.ofList v) = some b ∧ toEndpoint b = e := by
  constructor
  · intro h
    have hl := eq_of_cut '=' l
    rw [readLine] at h
    split at h
    · cases h
    · next key v hcut =>
      obtain ⟨hkey, b, hb⟩ := readValue_endpoint_iff.mp h
      refine ⟨v, b, ?_, hb⟩
      have hchars := congrArg String.toList hkey
      rw [String.toList_ofList] at hchars
      rw [hl, hcut, hchars]
      rfl
  · rintro ⟨v, b, rfl, hb⟩
    have hkey : '=' ∉ "endpoint".toList := by decide
    have hcut : cut '=' ("endpoint=".toList ++ v) = ("endpoint".toList, some v) :=
      cut_append hkey v
    rw [readLine, hcut]
    exact readValue_endpoint_iff.mpr ⟨String.ofList_toList, b, hb⟩

/-- The lines of a text, without empty ones. -/
def textLines (text : List Char) : List (List Char) := (text.splitOn '\n').filter (· ≠ [])

theorem newline_not_mem_of_mem_splitOn {s l : List Char} (h : l ∈ s.splitOn '\n') : '\n' ∉ l := by
  induction s generalizing l with
  | nil =>
    obtain rfl : l = [] := by simpa using h
    exact List.not_mem_nil
  | cons c s ih =>
    rw [List.splitOn] at h ih
    rw [List.splitOnP_cons_eq_if_modifyHead] at h
    split_ifs at h with hc
    · rcases List.mem_cons.mp h with rfl | h
      · exact List.not_mem_nil
      · exact ih h
    · cases hsplit : s.splitOnP (· == '\n') with
      | nil =>
        rw [hsplit] at h
        cases h
      | cons l₀ ls =>
        rw [hsplit] at h ih
        rcases List.mem_cons.mp h with rfl | h
        · refine List.not_mem_cons_of_ne_of_not_mem ?_ (ih List.mem_cons_self)
          rintro rfl
          exact hc (by simp)
        · exact ih (List.mem_cons_of_mem l₀ h)

/-- Lines that are each ended by a line break are the lines of the text. -/
theorem textLines_flatMap {ls : List (List Char)} (h : ∀ l ∈ ls, '\n' ∉ l ∧ l ≠ []) :
    textLines (ls.flatMap (· ++ ['\n'])) = ls := by
  induction ls with
  | nil => simp [textLines]
  | cons l ls ih =>
    obtain ⟨⟨hnl, hne⟩, hls⟩ := List.forall_mem_cons.mp h
    have hsplit : (l ++ '\n' :: ls.flatMap (· ++ ['\n'])).splitOn '\n' =
        l :: (ls.flatMap (· ++ ['\n'])).splitOn '\n' :=
      List.splitOnP_append_cons_of_forall_mem
        (fun c hc => by simpa using ne_of_mem_of_not_mem hc hnl) '\n' (by simp) _
    have hrest := ih hls
    rw [textLines] at hrest
    rw [List.flatMap_cons, List.append_assoc, List.singleton_append, textLines, hsplit,
      List.filter_cons_of_pos (by simpa using hne), hrest]

/-- A reader, without a bound of its own. -/
def lineReader (maxLine : ℕ) : UapiReader where
  read text :=
    if (textLines text).all fun l => (readLine l).isSome then
      some ((textLines text).filterMap readLine)
    else none
  line := readLine
  maxLine := maxLine
  read_lines ls cmds hls hcmds _ := by
    rw [textLines_flatMap fun l hl => ⟨(hls l hl).newline, (hls l hl).nonempty⟩, if_pos]
    · have hread := congrArg (List.filterMap id) hcmds
      rw [List.filterMap_map, List.filterMap_map] at hread
      exact congrArg some (hread.trans List.filterMap_some)
    · rw [List.all_eq_true]
      intro l hl
      obtain ⟨c, -, hc⟩ := List.mem_map.mp (hcmds ▸ List.mem_map_of_mem hl)
      rw [← hc]
      rfl
  read_mem text cmds h c hc := by
    split_ifs at h
    obtain rfl := Option.some.inj h
    obtain ⟨l, hl, hc⟩ := List.mem_filterMap.mp hc
    exact ⟨l, newline_not_mem_of_mem_splitOn (List.mem_of_mem_filter hl), hc⟩
  line_command _ := readLine_command
  line_endpoint _ _ := readLine_endpoint_iff

end Wgengine

/-- A node with a direct path to its peer. -/
def directPeer : PeerInfo :=
  { PeerInfo.fresh 2 with path := .direct, pathEP := some (.v4 0x0a000001, 41641) }

theorem uapi_text_directPeer :
    (lineReader 65536).read (uapiText (uapiPeersConfig
        ((Daemon.new "").buildPeerConfigsLocked [directPeer]))) =
      some (uapiPeersConfig
        ((Daemon.new "").buildPeerConfigsLocked [directPeer])) := by
  refine (uapi_text_iff (lineReader 65536) _ ?_ ?_).mpr ?_
  · simp [directPeer]
  · decide +kernel
  · simp [directPeer, Daemon.endpoints, Addr.zone]

end OverMesh
