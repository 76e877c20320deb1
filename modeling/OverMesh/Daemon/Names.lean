import OverMesh.Internal.NetipText
import OverMesh.Meshdns
import OverMesh.Proto

/-!
# The names of a netmap

`applyDNS` hands the hostnames of a netmap and their overlay addresses to the overlay resolver. The
resolver is created for the first netmap that has a domain, and each later one replaces the zone and
all records.

A device none of whose overlay addresses can be read gets no record, so its name does not exist.

## Main definitions

* `Resolver`, `Resolver.applyDNS`
* `WellNamed` — the hostnames of the netmap are distinct single labels in lower case

## Main results

* `names_resolve` — **after a netmap its names are answered with the addresses of the devices, and
  no other names are answered**, whatever came before
* `addressless_nameError` — a device without addresses has no name
-/

namespace OverMesh

open Netip Meshdns

/-- The hostnames of a netmap with the overlay addresses as text, this node first. -/
def Proto.NetMap.hosts (nm : Proto.NetMap) : List (String × List String) :=
  (nm.self.hostname, nm.self.overlayIPs) :: nm.peers.map fun p => (p.hostname, p.overlayIPs)

/-- `GetDns().GetDomain()`. -/
def Proto.NetMap.domain (nm : Proto.NetMap) : String := (nm.dns.map (·.domain)).getD ""

/-- The addresses that can be read, out of prefixes or as they are. -/
def readAddrs (ips : List String) : List Addr :=
  ips.filterMap fun s => ((parsePrefix s).map (·.addr)).or (parseAddr s)

/-- The function `add` of `applyDNS`. -/
def addRecord (records : Records) (host : String × List String) : Records :=
  if host.1 ≠ "" ∧ readAddrs host.2 ≠ [] then records.insert host.1 (readAddrs host.2) else records

/-- The records of a netmap. -/
def Proto.NetMap.records (nm : Proto.NetMap) : Records := nm.hosts.foldl addRecord ∅

/-- The part of `Daemon` that `applyDNS` works on. The own address was read before the session
began, so it is valid. -/
structure Resolver where
  dnsSrv : Option Server
  selfV4 : Addr
  domain : String
  dnsOSDone : Bool

/-- `applyDNS`. `order` is the order in which `SetRecords` meets the records, and `configured` says
whether the operating system accepts the resolver. -/
def Resolver.applyDNS (lower : Char → Char) (r : Resolver) (nm : Proto.NetMap) (order : List Entry)
    (configured : Bool) : Resolver :=
  if nm.domain = "" then r
  else
    let order := if order.Perm nm.records.entries then order else nm.records.entries
    { r with
      dnsSrv := some ((r.dnsSrv.getD newServer).setRecords lower nm.domain order)
      domain := nm.domain
      dnsOSDone := r.dnsOSDone || r.dnsSrv.isNone && configured }

/-- The hostnames of this node and its peers are distinct, and each is a single label in lower case.
There is a domain. -/
structure WellNamed (lower : Char → Char) (nm : Proto.NetMap) : Prop where
  distinct : (nm.hosts.map Prod.fst).Nodup
  lower_eq : ∀ host ∈ nm.hosts, toLower lower host.1 = host.1
  dotless : ∀ host ∈ nm.hosts, '.' ∉ host.1.toList
  nonempty : ∀ host ∈ nm.hosts, host.1 ≠ ""
  domain : nm.domain ≠ ""

/-! ### The records -/

/-- What is entered under distinct keys is found under them, and nothing else is. -/
theorem lookup_foldl_insert {l : List (String × List Addr)} (h : (l.map Prod.fst).Nodup)
    {k : String} {v : List Addr} :
    (l.foldl (fun (m : Records) e => m.insert e.1 e.2) ∅).lookup k = some v ↔ (k, v) ∈ l := by
  induction l using List.reverseRecOn with
  | nil => simp
  | append_singleton l e ih =>
    obtain ⟨k', v'⟩ := e
    rw [List.map_append, List.nodup_append] at h
    rw [List.foldl_append, List.foldl_cons, List.foldl_nil, List.mem_append, List.mem_singleton]
    by_cases hk : k = k'
    · subst hk
      have hnew : (k, v) ∉ l := by
        intro hmem
        exact h.2.2 k (List.mem_map_of_mem (f := Prod.fst) hmem) k (by simp) rfl
      rw [AList.lookup_insert]
      simp [hnew, eq_comm]
    · rw [AList.lookup_insert_ne hk, ih h.1]
      simp [hk]

namespace WellNamed

variable {lower : Char → Char} {nm : Proto.NetMap} {k : String} {v : List Addr}

/-- The records of the netmap are those of the devices with addresses. -/
theorem lookup_records (h : WellNamed lower nm) : nm.records.lookup k = some v ↔
      ∃ host ∈ nm.hosts, host.1 = k ∧ readAddrs host.2 = v ∧ v ≠ [] := by
  have hfold : nm.records = ((nm.hosts.filter fun host =>
      host.1 ≠ "" ∧ readAddrs host.2 ≠ []).map fun host => (host.1, readAddrs host.2)).foldl
        (fun (m : Records) e => m.insert e.1 e.2) ∅ := by
    rw [List.foldl_map, List.foldl_filter, Proto.NetMap.records]
    congr 1
    funext m host
    simp [addRecord]
  have hkeys : (((nm.hosts.filter fun host => host.1 ≠ "" ∧ readAddrs host.2 ≠ []).map
      fun host => (host.1, readAddrs host.2)).map Prod.fst).Nodup := by
    rw [List.map_map]
    exact h.distinct.sublist (List.filter_sublist.map _)
  rw [hfold, lookup_foldl_insert hkeys]
  simp only [List.mem_map, List.mem_filter, decide_eq_true_eq, Prod.mk.injEq]
  constructor
  · rintro ⟨host, ⟨hhost, -, hne⟩, rfl, rfl⟩
    exact ⟨host, hhost, rfl, rfl, hne⟩
  · rintro ⟨host, hhost, rfl, rfl, hne⟩
    exact ⟨host, ⟨hhost, h.nonempty host hhost, hne⟩, rfl, rfl⟩

/-- Lower case changes nothing about them. -/
theorem lookup_setRecords (h : WellNamed lower nm) {order : List Entry}
    (horder : order.Perm nm.records.entries) (s : Server) :
    (s.setRecords lower nm.domain order).records.lookup k = some v ↔
      nm.records.lookup k = some v := by
  have hlower : ∀ e ∈ order, toLower lower e.1 = e.1 := by
    intro e he
    have hentry : nm.records.lookup e.1 = some e.2 :=
      AList.mem_lookup_iff.mpr (horder.mem_iff.mp he)
    obtain ⟨host, hhost, hkey, -⟩ := h.lookup_records.mp hentry
    rw [← hkey]
    exact h.lower_eq host hhost
  have hfold : (s.setRecords lower nm.domain order).records =
      (order.map fun e => (toLower lower e.1, e.2)).foldl
        (fun (m : Records) e => m.insert e.1 e.2) ∅ := by
    rw [List.foldl_map, Server.setRecords]
  have hkeys : ((order.map fun e => (toLower lower e.1, e.2)).map Prod.fst).Nodup := by
    rw [List.map_map]
    have hmap : order.map (Prod.fst ∘ fun e => (toLower lower e.1, e.2)) = order.map Sigma.fst :=
      List.map_congr_left hlower
    rw [hmap, (horder.map Sigma.fst).nodup_iff]
    exact nm.records.nodupKeys
  rw [hfold, lookup_foldl_insert hkeys, ← Option.mem_def, AList.mem_lookup_iff, List.mem_map]
  constructor
  · rintro ⟨e, he, heq⟩
    obtain ⟨rfl, rfl⟩ := Prod.mk.inj heq
    rw [hlower e he]
    exact horder.mem_iff.mp he
  · intro hentry
    have he := horder.mem_iff.mpr hentry
    exact ⟨⟨k, v⟩, he, by rw [hlower _ he]⟩

end WellNamed

/-! ### The answers -/

/-- **What the resolver is for.** `hostName host nm.domain` is the name of a device in the domain of
the netmap, and case does not matter. -/
structure Resolves (lower : Char → Char) (nm : Proto.NetMap) (srv : Server) : Prop where
  /-- The name of a device with addresses exists, and questions for addresses of a family are
  answered with those of that family, in order. No record has an address of the other family. -/
  device : ∀ host ∈ nm.hosts, readAddrs host.2 ≠ [] → ∀ q : Question,
    SameName lower q.name (hostName host.1 nm.domain) →
      (srv.handle lower [q]).rcode = .success ∧
      (q.qtype = typeA →
        (srv.handle lower [q]).answer = (ipv4s (readAddrs host.2)).map (.a q.name 60)) ∧
      (q.qtype = typeAAAA →
        (srv.handle lower [q]).answer = (ipv6s (readAddrs host.2)).map (.aaaa q.name 60)) ∧
      ∀ rr ∈ (srv.handle lower [q]).answer,
        (∃ ip ∈ ipv4s (readAddrs host.2), rr = .a q.name 60 ip) ∨
          ∃ ip ∈ ipv6s (readAddrs host.2), rr = .aaaa q.name 60 ip
  /-- The name of a device without addresses does not exist. -/
  addressless : ∀ host ∈ nm.hosts, readAddrs host.2 = [] → ∀ q : Question,
    SameName lower q.name (hostName host.1 nm.domain) →
      srv.handle lower [q] = ⟨.nameError, true, []⟩
  /-- No other name below the domain exists. -/
  under : ∀ q : Question, Under lower q.name nm.domain →
    (∀ host ∈ nm.hosts, ¬ SameName lower q.name (hostName host.1 nm.domain)) →
      srv.handle lower [q] = ⟨.nameError, true, []⟩
  /-- Names that are neither the domain nor below it are refused. -/
  outside : ∀ q : Question, ¬ Under lower q.name nm.domain →
    ¬ SameName lower q.name (fqdn nm.domain) →
      srv.handle lower [q] = ⟨.refused, false, []⟩
  /-- A name that was a device's in another netmap and is not one's in this is not answered. -/
  stale : ∀ (old : Proto.NetMap), ∀ host ∈ old.hosts, ∀ q : Question,
    SameName lower q.name (hostName host.1 old.domain) →
    (∀ host' ∈ nm.hosts, ¬ SameName lower q.name (hostName host'.1 nm.domain)) →
      (srv.handle lower [q]).rcode ≠ .success ∧ (srv.handle lower [q]).answer = []

namespace WellNamed

variable {lower : Char → Char} {nm : Proto.NetMap} {order : List Entry} {q : Question}

/-- The name of a device, as the server sees it. -/
theorem sameName_iff (hdot : ∀ c, lower c = '.' ↔ c = '.') (h : WellNamed lower nm)
    {host : String × List String} (hhost : host ∈ nm.hosts) (s : Server) (order : List Entry) :
    SameName lower q.name (hostName host.1 nm.domain) ↔
      toLower lower q.name = host.1 ++ "." ++ (s.setRecords lower nm.domain order).zone := by
  rw [SameName, toLower_hostName hdot h.domain, h.lower_eq host hhost, Server.zone_setRecords]

/-- There is no record but those of the devices. -/
theorem lookup_eq_none (hdot : ∀ c, lower c = '.' ↔ c = '.') (h : WellNamed lower nm)
    (horder : order.Perm nm.records.entries) (s : Server)
    (hother : ∀ host ∈ nm.hosts, ¬ SameName lower q.name (hostName host.1 nm.domain))
    (host : String)
    (hname : toLower lower q.name = host ++ "." ++ (s.setRecords lower nm.domain order).zone) :
    (s.setRecords lower nm.domain order).records.lookup host = none := by
  refine Option.eq_none_iff_forall_ne_some.mpr ?_
  intro v hv
  obtain ⟨host', hhost', rfl, -⟩ := h.lookup_records.mp ((h.lookup_setRecords horder s).mp hv)
  exact hother host' hhost' ((h.sameName_iff hdot hhost' s order).mpr hname)

theorem resolves_setRecords (hdot : ∀ c, lower c = '.' ↔ c = '.') (h : WellNamed lower nm)
    (horder : order.Perm nm.records.entries) (s : Server) :
    Resolves lower nm (s.setRecords lower nm.domain order) := by
  have hzone : (s.setRecords lower nm.domain order).zone ≠ "" := by
    rw [Server.zone_setRecords]
    exact fqdn_ne_empty _
  have hin : ∀ q : Question,
      (s.setRecords lower nm.domain order).inZone (toLower lower q.name) = true ↔
        Under lower q.name nm.domain ∨ SameName lower q.name (fqdn nm.domain) := by
    intro q
    rw [Server.inZone_iff hzone, Server.zone_setRecords, Under, SameName, toLower_fqdn hdot]
  refine ⟨?_, ?_, ?_, ?_, ?_⟩
  · intro host hhost hne q hname
    have hrecord : (s.setRecords lower nm.domain order).records.lookup host.1 =
        some (readAddrs host.2) :=
      (h.lookup_setRecords horder s).mpr (h.lookup_records.mpr ⟨host, hhost, rfl, rfl, hne⟩)
    rw [Server.handle_host hzone (h.dotless host hhost)
      ((h.sameName_iff hdot hhost s order).mp hname) hrecord]
    exact ⟨rfl, fun hq => filterMap_rr_typeA hq _, fun hq => filterMap_rr_typeAAAA hq _,
      fun _ => mem_filterMap_rr⟩
  · intro host hhost hnil q hname
    have hname := (h.sameName_iff hdot hhost s order).mp hname
    refine Server.handle_under (by rw [hname]; exact Server.inZone_host hzone _) ?_
    intro host' hname'
    refine Option.eq_none_iff_forall_ne_some.mpr ?_
    intro v hv
    obtain ⟨host₂, hhost₂, rfl, rfl, hne⟩ :=
      h.lookup_records.mp ((h.lookup_setRecords horder s).mp hv)
    -- Both names are that of the query, so it is the same device.
    have hkey : host₂.1 = host.1 :=
      (String.append_left_inj _).mp ((String.append_left_inj _).mp (hname'.symm.trans hname))
    rw [List.inj_on_of_nodup_map h.distinct hhost₂ hhost hkey] at hne
    exact hne hnil
  · intro q hunder hother
    exact Server.handle_under ((hin q).mpr (.inl hunder)) (h.lookup_eq_none hdot horder s hother)
  · intro q hunder hapex
    refine Server.handle_outside (Bool.eq_false_iff.mpr ?_)
    rw [Ne, hin q, not_or]
    exact ⟨hunder, hapex⟩
  · intro old host hhost q hname hother
    cases hzoned : (s.setRecords lower nm.domain order).inZone (toLower lower q.name) with
    | false =>
      rw [Server.handle_outside hzoned]
      exact ⟨Rcode.noConfusion, rfl⟩
    | true =>
      rw [Server.handle_under hzoned (h.lookup_eq_none hdot horder s hother)]
      exact ⟨Rcode.noConfusion, rfl⟩

end WellNamed

/-- **Names resolve to their devices**: after a netmap the resolver answers for the names in it, and
for no others, whatever it answered before. -/
theorem names_resolve {lower : Char → Char} (hdot : ∀ c, lower c = '.' ↔ c = '.')
    {nm : Proto.NetMap} (h : WellNamed lower nm) (r : Resolver) (order : List Entry)
    (configured : Bool) :
    ∃ srv ∈ (r.applyDNS lower nm order configured).dnsSrv, Resolves lower nm srv := by
  rw [Resolver.applyDNS, if_neg h.domain]
  refine ⟨_, rfl, h.resolves_setRecords hdot ?_ _⟩
  split_ifs with horder
  · exact horder
  · exact .refl _

/-! ### A small mesh -/

/-- This node, a phone with two addresses, and a device that has none. -/
def meshNetMap : Proto.NetMap where
  seq := 1
  self := ⟨1, "laptop", "default", ["100.96.0.1/32"], []⟩
  peers := [
    ⟨2, "phone", List.replicate 32 2, ["100.96.0.7/32", "fdab:3f19::7/128"], [], true, []⟩,
    ⟨3, "camera", List.replicate 32 3, [], [], true, []⟩]
  stunServers := []
  relays := []
  dns := some ⟨"Default.mesh"⟩
  filter := []
  filterEnabled := false

/-- The resolver before the first netmap. -/
def freshResolver : Resolver := ⟨none, .v4 0x64600001, "", false⟩

theorem wellNamed_meshNetMap : WellNamed GoText.toLower meshNetMap where
  distinct := by decide +kernel
  lower_eq := by decide +kernel
  dotless := by decide +kernel
  nonempty := by decide +kernel
  domain := by decide +kernel

/-- Its names resolve, and there is a phone to be found. -/
theorem names_resolve_meshNetMap :
    (∃ srv ∈ (freshResolver.applyDNS GoText.toLower meshNetMap [] true).dnsSrv,
      Resolves GoText.toLower meshNetMap srv) ∧
      ∃ srv ∈ (freshResolver.applyDNS GoText.toLower meshNetMap [] true).dnsSrv,
        srv.handle GoText.toLower [⟨"PHONE.default.Mesh.", typeAAAA⟩] =
          ⟨.success, true, [.aaaa "PHONE.default.Mesh." 60
            0xfdab3f19000000000000000000000007]⟩ :=
  ⟨names_resolve (fun _ => GoText.toLower_eq_dot_iff) wellNamed_meshNetMap freshResolver [] true,
    by decide +kernel⟩

/-- **A device without addresses has no name**, though its hostname is one of the netmap. -/
theorem addressless_nameError :
    WellNamed GoText.toLower meshNetMap ∧ ("camera", []) ∈ meshNetMap.hosts ∧
      SameName GoText.toLower "camera.default.mesh." (hostName "camera" meshNetMap.domain) ∧
      ∃ srv ∈ (freshResolver.applyDNS GoText.toLower meshNetMap [] true).dnsSrv,
        (srv.handle GoText.toLower [⟨"camera.default.mesh.", typeA⟩]).rcode = .nameError :=
  ⟨wellNamed_meshNetMap, by decide +kernel, by unfold SameName; decide +kernel, by decide +kernel⟩

end OverMesh
