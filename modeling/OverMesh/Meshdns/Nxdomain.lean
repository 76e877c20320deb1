import OverMesh.Meshdns

/-!
# Names that do not exist

A resolver that is told that a name does not exist need not ask for the names below it. `handle`
says so whenever it has no addresses for a name in the zone. This is right for a host that is not
there, but it is also what is said of the zone itself, below which are all hosts.

The records are a map of slices here, in which a slice may be nil. What `handle` finds at a nil
slice is what it finds where there is no record.

## Main definitions

* `setSlices` — `SetRecords`, of slices that may be nil
* `AtOrBelow` — the name is the other one, or below it

## Main results

* `nameError_sound_iff` — **when NXDOMAIN says nothing wrong**
-/

namespace OverMesh

namespace Meshdns

open Netip GoText

/-- An entry of a map of slices, `none` for nil. -/
abbrev SliceEntry : Type := (_ : String) × Option (List Addr)

variable (lower : Char → Char)

/-- `SetRecords`, of slices that may be nil, when the iteration meets them as in `order`. A nil
slice is kept by leaving its name out, and takes the place of what was entered before. -/
def setSlices (domain : String) (order : List SliceEntry) : Server where
  zone := fqdn (toLower lower domain)
  records := order.foldl (fun norm e => match e.2 with
    | none => norm.erase (toLower lower e.1)
    | some addrs => norm.insert (toLower lower e.1) addrs) ∅

/-- The name is the other one, or below it. -/
def AtOrBelow (name above : String) : Prop := SameName lower name above ∨ Under lower name above

/-- The record is one that `handle` can find: its name is a single label, and it has addresses. -/
def Findable (s : Server) (e : SliceEntry) : Prop :=
  '.' ∉ e.1.toList ∧ s.records.lookup (toLower lower e.1) ≠ none

/-- **NXDOMAIN says nothing wrong**: where it is the answer, no record is at or below the name. -/
def NameErrorSound (domain : String) (order : List SliceEntry) (q : Question) : Prop :=
  ((setSlices lower domain order).handle lower [q]).rcode = .nameError →
    ∀ e ∈ order, ¬ AtOrBelow lower (hostName e.1 domain) q.name

variable {lower} {domain : String} {order : List SliceEntry} {q : Question}

theorem zone_setSlices (domain : String) (order : List SliceEntry) :
    (setSlices lower domain order).zone = fqdn (toLower lower domain) := rfl

theorem fqdn_fqdn (s : String) : fqdn (fqdn s) = fqdn s := by
  have hlast : (fqdn s).toList.getLast? = some '.' := by
    rw [fqdn]
    split_ifs with h
    · exact h
    · rw [String.toList_append]
      exact List.getLast?_concat
  rw [fqdn, if_pos hlast]

/-- When the answer is NXDOMAIN. -/
theorem rcode_nameError_iff (s : Server) : (s.handle lower [q]).rcode = .nameError ↔
      s.inZone (toLower lower q.name) = true ∧ s.find (toLower lower q.name) = none := by
  rw [Server.handle]
  by_cases hin : s.inZone (toLower lower q.name) = true
  · rw [if_pos hin]
    cases hfind : s.find (toLower lower q.name) with
    | none => simp [hin]
    | some addrs => simp
  · rw [if_neg hin]
    simp [hin]

section Dot

variable (hdot : ∀ c, lower c = '.' ↔ c = '.')

include hdot

/-- What is in the zone is the domain or below it. -/
theorem inZone_setSlices_iff (order : List SliceEntry) :
    (setSlices lower domain order).inZone (toLower lower q.name) = true ↔
      Under lower q.name domain ∨ SameName lower q.name (fqdn domain) := by
  have hzone : (setSlices lower domain order).zone ≠ "" := fqdn_ne_empty _
  rw [Server.inZone_iff hzone, zone_setSlices, Under, SameName, toLower_fqdn hdot]

/-- A name in the zone is fully qualified. -/
theorem toLower_fqdn_of_inZone
    (hin : (setSlices lower domain order).inZone (toLower lower q.name) = true) :
    toLower lower (fqdn q.name) = toLower lower q.name := by
  rw [toLower_fqdn hdot]
  rw [Server.inZone, Bool.or_eq_true, Bool.and_eq_true, decide_eq_true_iff, decide_eq_true_iff,
    List.isSuffixOf_iff_suffix, zone_setSlices] at hin
  rcases hin with ⟨-, pre, hpre⟩ | heq
  · have hname : toLower lower q.name =
        String.ofList pre ++ "." ++ fqdn (toLower lower domain) := by
      refine String.toList_inj.mp ?_
      rw [← hpre]
      simp
    rw [hname, fqdn_append (fqdn_ne_empty _), fqdn_fqdn]
  · rw [heq, fqdn_fqdn]

/-- The labels of the name of a host. -/
theorem labels_hostName (hdomain : domain ≠ "") (host : String) :
    labels (toLower lower (hostName host domain)) =
      labels (toLower lower host) ++ labels (fqdn (toLower lower domain)) := by
  rw [toLower_hostName hdot hdomain, labels, Server.toList_host, Words.splitOn_append_cons]
  rfl

/-- **All hosts are below the domain.** -/
theorem atOrBelow_of_sameName (hdomain : domain ≠ "")
    (hapex : SameName lower q.name (fqdn domain)) (host : String) :
    AtOrBelow lower (hostName host domain) q.name := by
  have hin := (inZone_setSlices_iff hdot []).mpr (.inr hapex)
  refine .inr ⟨labels (toLower lower host), List.splitOn_ne_nil '.' _, ?_⟩
  rw [labels_hostName hdot hdomain, toLower_fqdn_of_inZone hdot hin, hapex, toLower_fqdn hdot]

/-- A record that can be found is found, where it is at or below a name that is below the domain. -/
theorem find_ne_none (hdomain : domain ≠ "") {e : SliceEntry}
    (he : Findable lower (setSlices lower domain order) e)
    (hunder : Under lower q.name domain) (hbelow : AtOrBelow lower (hostName e.1 domain) q.name) :
    (setSlices lower domain order).find (toLower lower q.name) ≠ none := by
  have hlabel : '.' ∉ (toLower lower e.1).toList := by
    rw [toList_toLower]
    intro hmem
    obtain ⟨c, hc, hlower⟩ := List.mem_map.mp hmem
    rw [(hdot c).mp hlower] at hc
    exact he.1 hc
  rcases hbelow with hsame | ⟨ls, hls, hlabels⟩
  · have hname : toLower lower q.name =
        toLower lower e.1 ++ "." ++ (setSlices lower domain order).zone := by
      rw [← hsame, toLower_hostName hdot hdomain, zone_setSlices]
    rw [hname, Server.find_host (fqdn_ne_empty _) hlabel]
    exact he.2
  · -- the host is one label, and the name has one in front of the domain already
    obtain ⟨ks, hks, hunder'⟩ := hunder
    have hin := (inZone_setSlices_iff hdot order).mpr (.inl ⟨ks, hks, hunder'⟩)
    rw [labels_hostName hdot hdomain, toLower_fqdn_of_inZone hdot hin, hunder', toLower_fqdn hdot,
      ← List.append_assoc, List.append_cancel_right_eq] at hlabels
    have hone : labels (toLower lower e.1) = [(toLower lower e.1).toList] := by
      refine List.splitOnP_eq_singleton fun c hc => ?_
      rw [beq_eq_false_iff_ne]
      rintro rfl
      exact hlabel hc
    have hlen := congrArg List.length (hone.symm.trans hlabels)
    have hposl := List.length_pos_iff.mpr hls
    have hposk := List.length_pos_iff.mpr hks
    rw [List.length_append, List.length_singleton] at hlen
    omega

end Dot

/-- **When NXDOMAIN says nothing wrong.** For every domain and all records, of which there are some,
it is so for exactly those queries that are not for the domain itself and, if they are for a name
below it without addresses, have no record at or below them that `handle` cannot find. Such records
have several labels or a nil slice; the daemon enters none. -/
theorem nameError_sound_iff (hdot : ∀ c, lower c = '.' ↔ c = '.') (hdomain : domain ≠ "")
    (horder : order ≠ []) (q : Question) :
    NameErrorSound lower domain order q ↔
      ¬ SameName lower q.name (fqdn domain) ∧
        (Under lower q.name domain →
          (setSlices lower domain order).find (toLower lower q.name) = none →
            ∀ e ∈ order, ¬ Findable lower (setSlices lower domain order) e →
              ¬ AtOrBelow lower (hostName e.1 domain) q.name) := by
  rw [NameErrorSound, rcode_nameError_iff, inZone_setSlices_iff hdot]
  constructor
  · intro hsound
    refine ⟨fun hapex => ?_, fun hunder hfind e he _ => hsound ⟨.inl hunder, hfind⟩ e he⟩
    obtain ⟨e, es, rfl⟩ := List.exists_cons_of_ne_nil horder
    refine hsound ⟨.inr hapex, ?_⟩ e List.mem_cons_self
      (atOrBelow_of_sameName hdot hdomain hapex e.1)
    rw [Server.find, if_neg]
    rintro ⟨-, hne⟩
    exact hne (by rw [hapex, toLower_fqdn hdot, zone_setSlices])
  · rintro ⟨hapex, hodd⟩ ⟨hin, hfind⟩ e he hbelow
    have hunder := hin.resolve_right hapex
    by_cases hfound : Findable lower (setSlices lower domain order) e
    · exact find_ne_none hdot hdomain hfound hunder hbelow hfind
    · exact hodd hunder hfind e he hfound hbelow

/-- The name of the mesh itself: it does not exist, and the laptop is below it. -/
theorem nameError_apex :
    ¬ NameErrorSound GoText.toLower "default.mesh" [⟨"laptop", some [.v4 0x64600001#32]⟩]
      ⟨"default.mesh.", typeA⟩ := by
  intro hsound
  refine hsound (by decide +kernel) ⟨"laptop", some [.v4 0x64600001#32]⟩ List.mem_cons_self ?_
  exact .inr ⟨[['l', 'a', 'p', 't', 'o', 'p']], by decide, by decide +kernel⟩

/-- A host that is not there. -/
theorem nameError_sound_absent :
    NameErrorSound GoText.toLower "default.mesh" [⟨"laptop", some [.v4 0x64600001#32]⟩]
      ⟨"phone.default.mesh.", typeA⟩ := by
  refine (nameError_sound_iff (fun _ => toLower_eq_dot_iff) (by decide) (by simp) _).mpr ⟨?_, ?_⟩
  · unfold SameName
    decide +kernel
  · intro _ _ e he hodd
    obtain rfl := List.mem_singleton.mp he
    exact absurd ⟨by decide, by decide +kernel⟩ hodd

end Meshdns

end OverMesh
