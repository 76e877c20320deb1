import Mathlib.Data.List.AList
import Mathlib.Logic.Function.Basic
import OverMesh.Internal.GoBytes
import OverMesh.Internal.NetipText
import OverMesh.Internal.Runs

/-!
# The search domains of macOS

On macOS `internal/meshdns` adds the mesh domain to the search domains of every network service, and
keeps what they were before in a file. A service that has the domain is passed over, and a call that
changed any service replaces the file. So the file knows the services of the last call only.

The services come from the output of `networksetup`, and so do their search domains. The command
itself is modelled by what it prints and keeps: it keeps words, other than the one that stands for
no domains. Files can be written, and a map that is written as JSON is read back.

## Main definitions

* `Mac`, `Mac.configureOS`, `Mac.deconfigureOS`
* `Journal` — with the search domains each service had before it was changed first
* `Restorable` — they would be restored

## Main results

* `getSearchDomains_shown` — the output of `networksetup` is read as what it shows
* `restorable_run_iff` — **everything can be restored if and only if no call changes a service while
  one that was changed before is still there**
-/

namespace OverMesh

namespace Meshdns

namespace Darwin

open GoBytes Netip Runs

/-- A text of the system. -/
abbrev Text : Type := List UInt8

/-! ### networksetup -/

/-- The text is a search domain: a single word, and not the one that stands for none. -/
def IsDomain (d : Text) : Prop := fields d = [d] ∧ d ≠ bytes "Empty"

instance (d : Text) : Decidable (IsDomain d) := inferInstanceAs (Decidable (_ ∧ _))

/-- A search domain. -/
structure Domain where
  text : Text
  isDomain : IsDomain text
  deriving DecidableEq

/-- An argument of `-setsearchdomains` as a search domain. -/
def domain? (d : Text) : Option Domain := if h : IsDomain d then some ⟨d, h⟩ else none

/-- What `-getsearchdomains` prints for a service with these search domains. -/
def shown (svc : Text) (ds : List Domain) : Text :=
  if ds = [] then bytes "There aren't any Search Domains set on " ++ svc ++ bytes ".\n"
  else ds.flatMap fun d => d.text ++ [10]

/-- `listNetworkServices`, of the output of the command. -/
def listNetworkServices (out : Text) : List Text :=
  ((out.splitOn 10).map trimSpace).filter fun line =>
    ¬ (line = [] ∨ bytes "denotes that" <:+: line ∨ bytes "*" <+: line)

/-- `getSearchDomains`, of the output of the command. -/
def getSearchDomains (out : Text) : List Text :=
  let s := trimSpace out
  if s = [] ∨ bytes "There aren't any" <:+: s then [] else fields s

/-- The arguments of `setSearchDomains` behind the service. -/
def setArgs (domains : List Text) : List Text :=
  if domains = [] then [bytes "Empty"] else domains

theorem domain?_text (d : Domain) : domain? d.text = some d := by
  rw [domain?, dif_pos d.isDomain]

theorem filterMap_domain? (ds : List Domain) : (ds.map Domain.text).filterMap domain? = ds := by
  have hsome : domain? ∘ Domain.text = some := funext domain?_text
  rw [List.filterMap_map, hsome, List.filterMap_some]

/-- What is set is what was read. -/
theorem filterMap_setArgs (ds : List Domain) :
    (setArgs (ds.map Domain.text)).filterMap domain? = ds := by
  rw [setArgs]
  split_ifs with h
  · rw [List.map_eq_nil_iff] at h
    rw [h]
    rfl
  · exact filterMap_domain? ds

section Shown

/-- The domains, one to a line. -/
def joined : List Domain → Text
  | [] => []
  | [d] => d.text
  | d :: d' :: ds => d.text ++ 10 :: joined (d' :: ds)

variable {ds : List Domain}

theorem Domain.text_ne_nil (d : Domain) : d.text ≠ [] := by
  intro h
  have hfields := d.isDomain.1
  rw [h] at hfields
  cases hfields

theorem flatMap_eq_joined (h : ds ≠ []) :
    (ds.flatMap fun d => d.text ++ [10]) = joined ds ++ [10] := by
  induction ds with
  | nil => exact absurd rfl h
  | cons d ds ih =>
    cases ds with
    | nil => simp [joined]
    | cons d' ds =>
      rw [List.flatMap_cons, ih (List.cons_ne_nil d' ds), joined]
      simp

theorem fields_joined (h : ds ≠ []) : fields (joined ds) = ds.map Domain.text := by
  induction ds with
  | nil => exact absurd rfl h
  | cons d ds ih =>
    cases ds with
    | nil => exact d.isDomain.1
    | cons d' ds =>
      rw [joined, fields_append (by decide), ih (List.cons_ne_nil d' ds), d.isDomain.1]
      rfl

theorem space_not_mem_joined (ds : List Domain) : 32 ∉ joined ds := by
  have hword : ∀ d : Domain, 32 ∉ d.text := fun d => by
    refine not_mem_of_mem_fields (s := d.text) (by decide) ?_
    rw [d.isDomain.1]
    exact List.mem_singleton_self d.text
  induction ds with
  | nil => exact List.not_mem_nil
  | cons d ds ih =>
    cases ds with
    | nil => exact hword d
    | cons d' ds =>
      rw [joined, List.mem_append, List.mem_cons, not_or, not_or]
      exact ⟨hword d, by decide, ih⟩

theorem joined_ne_nil (h : ds ≠ []) : joined ds ≠ [] := by
  cases ds with
  | nil => exact absurd rfl h
  | cons d ds =>
    cases ds with
    | nil => exact d.text_ne_nil
    | cons d' ds => simp [joined]

/-- There is no white space at the ends. -/
theorem joined_clear (h : ds ≠ []) {sp : Text} (hsp : sp ∈ spaces) :
    ¬ sp <+: joined ds ∧ ¬ sp <:+ joined ds := by
  have hword : ∀ d : Domain, ¬ sp <:+: d.text := fun d => not_infix_of_fields d.isDomain.1 hsp
  induction ds with
  | nil => exact absurd rfl h
  | cons d ds ih =>
    cases ds with
    | nil => exact ⟨fun h => hword d h.isInfix, fun h => hword d h.isInfix⟩
    | cons d' ds =>
      have hrest := ih (List.cons_ne_nil d' ds)
      rw [joined]
      constructor
      · have hzero : spaceLen d.text = 0 :=
          spaceLen_eq_zero_iff.mpr fun sp hsp h => not_infix_of_fields d.isDomain.1 hsp h.isInfix
        rw [← spaceLen_append_blank (by decide : Blank 10) d.text_ne_nil] at hzero
        exact spaceLen_eq_zero_iff.mp hzero sp hsp
      · intro hsuf
        -- white space with a newline in it is the newline
        have honly : ∀ sp ∈ spaces, 10 ∈ sp → sp.length = 1 := by decide
        have hsplit : d.text ++ 10 :: joined (d' :: ds) =
            (d.text ++ [10]) ++ joined (d' :: ds) := by simp
        rw [hsplit] at hsuf
        rcases List.suffix_or_suffix_of_suffix hsuf (List.suffix_append _ _) with h | ⟨r, rfl⟩
        · exact hrest.2 h
        · rw [List.suffix_append_self_iff] at hsuf
          obtain ⟨q, hq⟩ := hsuf
          by_cases hr : r = []
          · rw [hr, List.nil_append] at hrest
            exact hrest.2 List.suffix_rfl
          · have hlast := congrArg List.getLast? hq
            rw [List.getLast?_append_of_ne_nil _ hr, List.getLast?_concat] at hlast
            have hlen := honly _ hsp (List.mem_append_left _ (List.mem_of_getLast? hlast))
            have hpos := List.length_pos_iff.mpr hr
            have hpos' := List.length_pos_iff.mpr (joined_ne_nil (List.cons_ne_nil d' ds))
            rw [List.length_append] at hlen
            omega

/-- The notice that there are none, without its newline. -/
def notice (svc : Text) : Text :=
  bytes "There aren't any Search Domains set on " ++ svc ++ bytes "."

theorem notice_clear (svc : Text) {sp : Text} (hsp : sp ∈ spaces) :
    ¬ sp <+: notice svc ∧ ¬ sp <:+ notice svc := by
  have hends : ∀ sp ∈ spaces, sp ≠ [] ∧ sp.head? ≠ some 84 ∧ sp.getLast? ≠ some 46 := by decide
  obtain ⟨hne, hhead, hlast⟩ := hends sp hsp
  constructor
  · rintro ⟨r, hr⟩
    have heq := congrArg List.head? hr
    rw [List.head?_append_of_ne_nil _ hne] at heq
    exact hhead heq
  · rintro ⟨r, hr⟩
    have heq := congrArg List.getLast? hr
    rw [List.getLast?_append_of_ne_nil _ hne, notice,
      List.getLast?_append_of_ne_nil _ (by decide : bytes "." ≠ [])] at heq
    exact hlast heq

/-- **The output is read as what it shows.** -/
theorem getSearchDomains_shown (svc : Text) (ds : List Domain) :
    getSearchDomains (shown svc ds) = ds.map Domain.text := by
  rw [getSearchDomains, shown]
  by_cases hds : ds = []
  · have hshown : bytes "There aren't any Search Domains set on " ++ svc ++ bytes ".\n" =
        notice svc ++ [10] := by
      rw [notice, List.append_assoc _ (bytes ".")]
      rfl
    have hany : bytes "There aren't any" <:+: notice svc := by
      rw [notice, List.append_assoc]
      exact ⟨[], bytes " Search Domains set on " ++ (svc ++ bytes "."), rfl⟩
    rw [if_pos hds, hshown, trimSpace_append_blank (by decide) (by simp [notice, bytes])
      fun sp hsp => notice_clear svc hsp, if_pos (.inr hany), hds]
    rfl
  · rw [if_neg hds, flatMap_eq_joined hds, trimSpace_append_blank (by decide) (joined_ne_nil hds)
      fun sp hsp => joined_clear hds hsp, if_neg]
    · exact fields_joined hds
    · rintro (h | h)
      · exact joined_ne_nil hds h
      · exact space_not_mem_joined ds (h.subset (by decide))

end Shown

/-! ### The calls -/

/-- A map from services to their search domains. -/
abbrev Saved : Type := AList fun _ : Text => List Text

/-- An entry of such a map. -/
abbrev SavedEntry : Type := (_ : Text) × List Text

/-- What the calls work on: the files in `/etc/resolver` by name, the search domains of the network
services, and the restore file. -/
structure Mac where
  resolverDir : Text → Option Text
  lists : Text → List Domain
  restoreFile : Option Saved

/-- The file for a domain. -/
def resolverConf (resolver : Addr) : Text :=
  bytes "nameserver " ++ bytes resolver.string ++ bytes "\nsearch_order 1\n"

/-- A file that `DeconfigureOS` takes for its own. -/
def ownConf (data : Text) : Bool :=
  bytes "search_order 1" <:+: data ∧ bytes "nameserver 100." <:+: data

namespace Mac

/-- `setSearchDomains`, of a service that is there. -/
def setSearchDomains (m : Mac) (svc : Text) (domains : List Text) : Mac :=
  { m with lists := Function.update m.lists svc ((setArgs domains).filterMap domain?) }

/-- One turn of the loop of `ConfigureOS`. -/
def configureService (domain : Text) (t : Mac × Saved) (svc : Text) : Mac × Saved :=
  let cur := getSearchDomains (shown svc (t.1.lists svc))
  if domain ∈ cur then t else (t.1.setSearchDomains svc (cur ++ [domain]), t.2.insert svc cur)

/-- The file in `/etc/resolver`. -/
def writeConf (m : Mac) (domain : Text) (resolver : Addr) : Mac :=
  { m with resolverDir := Function.update m.resolverDir domain (resolverConf resolver) }

/-- The loop of `ConfigureOS`, and the restore file after it. -/
def addDomain (m : Mac) (domain : Text) (services : List Text) : Mac :=
  let t := services.foldl (configureService domain) (m, ∅)
  if t.2.entries = [] then t.1 else { t.1 with restoreFile := some t.2 }

/-- `ConfigureOS`, with the error it returns as `false`. `denied` says that the file in
`/etc/resolver` cannot be written. `listing` is what the command prints that lists the services,
`none` if it fails. -/
def configureOS (m : Mac) (domain : Text) (resolver : Addr) (denied : Bool)
    (listing : Option Text) : Bool × Mac :=
  if denied then (false, m)
  else match listing with
    | none => (true, m.writeConf domain resolver)
    | some out => (true, (m.writeConf domain resolver).addDomain domain (listNetworkServices out))

/-- `DeconfigureOS`, when the services that are `present` are there and the iteration over the
restored services meets them as in `order`. The command fails for a service that is not there. -/
def deconfigureOS (m : Mac) (present : Text → Bool) (order : List SavedEntry) : Mac :=
  let m := { m with resolverDir := fun name => (m.resolverDir name).filter (¬ ownConf ·) }
  match m.restoreFile with
  | none => m
  | some saved =>
    let order := if order.Perm saved.entries then order else saved.entries
    let m := order.foldl (fun m e => if present e.1 then m.setSearchDomains e.1 e.2 else m) m
    { m with restoreFile := none }

end Mac

/-! ### Runs -/

/-- A Mac, with the search domains each service had before a call changed it first. -/
structure Journal where
  mac : Mac
  original : Text → Option (List Domain)

/-- What happens between two calls of `DeconfigureOS`: calls of `ConfigureOS`, each with the
services it finds, and services that are deleted and made anew, with search domains of their own. -/
inductive Op where
  | configure (domain : Domain) (resolver : Addr) (denied : Bool) (listing : Option Text)
  | replace (svc : Text) (ds : List Domain)

/-- The services a call changes. -/
def changed (m : Mac) (domain : Domain) (denied : Bool) (listing : Option Text) : List Text :=
  if denied then []
  else (listing.map listNetworkServices).getD [] |>.filter fun svc => domain ∉ m.lists svc

namespace Journal

/-- No call has been made yet. -/
def start (m : Mac) : Journal := ⟨m, fun _ => none⟩

/-- One step. -/
def step (j : Journal) : Op → Journal
  | .configure domain resolver denied listing =>
    { mac := (j.mac.configureOS domain.text resolver denied listing).2
      original := fun svc => (j.original svc).or
        (if svc ∈ changed j.mac domain denied listing then some (j.mac.lists svc) else none) }
  | .replace svc ds =>
    { mac := { j.mac with lists := Function.update j.mac.lists svc ds }
      original := Function.update j.original svc none }

/-- `DeconfigureOS` would restore every service that was changed and is `present`. -/
def Restorable (present : Text → Bool) (j : Journal) : Prop :=
  ∀ order svc l, present svc = true → j.original svc = some l →
    (j.mac.deconfigureOS present order).lists svc = l

/-- The call changes no service, or no service that was changed before is still there. -/
def Careful (present : Text → Bool) (j : Journal) : Op → Prop
  | .configure domain _ denied listing => changed j.mac domain denied listing = [] ∨
      ∀ svc, present svc = true → j.original svc = none
  | .replace _ _ => True

end Journal

/-! ### What the calls do -/

section Calls

variable {m : Mac} {d : Domain} {svc : Text}

theorem text_mem_iff {ds : List Domain} : d.text ∈ ds.map Domain.text ↔ d ∈ ds := by
  have hinj : Function.Injective Domain.text := fun d e h => by
    cases d
    cases e
    congr
  exact List.mem_map_of_injective hinj

/-- One turn: a service without the domain gets it, and what it had is saved. -/
theorem configureService_eq (t : Mac × Saved) : Mac.configureService d.text t svc =
      if d ∈ t.1.lists svc then t
      else ({ t.1 with lists := Function.update t.1.lists svc (t.1.lists svc ++ [d]) },
        t.2.insert svc ((t.1.lists svc).map Domain.text)) := by
  have hset : (setArgs ((t.1.lists svc).map Domain.text ++ [d.text])).filterMap domain? =
      t.1.lists svc ++ [d] := by
    rw [← List.map_singleton, ← List.map_append]
    exact filterMap_setArgs _
  simp only [Mac.configureService, getSearchDomains_shown, text_mem_iff, Mac.setSearchDomains, hset]

/-- What the loop over the services has done: those without the domain have it, and what they had
is saved. -/
structure Swept (m : Mac) (d : Domain) (services : List Text) (t : Mac × Saved) : Prop where
  restoreFile : t.1.restoreFile = m.restoreFile
  lists : ∀ svc, t.1.lists svc =
    if svc ∈ services ∧ d ∉ m.lists svc then m.lists svc ++ [d] else m.lists svc
  saved : ∀ svc, t.2.lookup svc =
    if svc ∈ services ∧ d ∉ m.lists svc then some ((m.lists svc).map Domain.text) else none

theorem Swept.step {services : List Text} {t : Mac × Saved} (h : Swept m d services t)
    (svc : Text) : Swept m d (services ++ [svc]) (Mac.configureService d.text t svc) := by
  rw [configureService_eq]
  by_cases hin : d ∈ t.1.lists svc
  · -- it has the domain, from before or from an earlier turn
    rw [if_pos hin]
    have hsame : ∀ svc', svc' ∈ services ++ [svc] ∧ d ∉ m.lists svc' ↔
        svc' ∈ services ∧ d ∉ m.lists svc' := by
      intro svc'
      rw [List.mem_append, List.mem_singleton]
      constructor
      · rintro ⟨hmem | rfl, hd⟩
        · exact ⟨hmem, hd⟩
        · refine ⟨?_, hd⟩
          by_contra hnot
          rw [h.lists, if_neg (fun hboth => hnot hboth.1)] at hin
          exact hd hin
      · exact fun hboth => ⟨.inl hboth.1, hboth.2⟩
    exact ⟨h.restoreFile, fun svc' => by rw [h.lists, if_congr (hsame svc') rfl rfl],
      fun svc' => by rw [h.saved, if_congr (hsame svc') rfl rfl]⟩
  · rw [if_neg hin]
    have hnew : ¬ (svc ∈ services ∧ d ∉ m.lists svc) := by
      intro hboth
      rw [h.lists, if_pos hboth] at hin
      exact hin (List.mem_append_right _ (List.mem_singleton_self d))
    have hold : t.1.lists svc = m.lists svc := by rw [h.lists, if_neg hnew]
    rw [hold] at hin ⊢
    refine ⟨h.restoreFile, fun svc' => ?_, fun svc' => ?_⟩
    · by_cases heq : svc' = svc
      · subst heq
        simp [hin]
      · simp [heq, h.lists svc']
    · by_cases heq : svc' = svc
      · subst heq
        simp [hin]
      · simp [heq, h.saved svc']

theorem swept_foldl (m : Mac) (d : Domain) (services : List Text) :
    Swept m d services (services.foldl (Mac.configureService d.text) (m, ∅)) := by
  induction services using List.reverseRecOn with
  | nil => exact ⟨rfl, fun svc => by simp, fun svc => by simp⟩
  | append_singleton services svc ih =>
    rw [List.foldl_append]
    exact ih.step svc

/-- What a call does to the services and the restore file, by the services it changes. -/
structure Configures (m : Mac) (d : Domain) (services : List Text) (m' : Mac) : Prop where
  lists : ∀ svc, m'.lists svc = if svc ∈ services then m.lists svc ++ [d] else m.lists svc
  kept : services = [] → m'.restoreFile = m.restoreFile
  saved : services ≠ [] → ∃ saved, m'.restoreFile = some saved ∧ ∀ svc, saved.lookup svc =
    if svc ∈ services then some ((m.lists svc).map Domain.text) else none

theorem configures_addDomain (m : Mac) (d : Domain) (services : List Text) :
    Configures m d (services.filter fun svc => d ∉ m.lists svc) (m.addDomain d.text services) := by
  have hswept := swept_foldl m d services
  rw [Mac.addDomain]
  generalize services.foldl (Mac.configureService d.text) (m, ∅) = t at hswept
  have hmem : ∀ svc, svc ∈ services.filter (fun svc => d ∉ m.lists svc) ↔
      svc ∈ services ∧ d ∉ m.lists svc := fun svc => by
    rw [List.mem_filter, decide_eq_true_iff]
  have hlists : ∀ svc, t.1.lists svc = if svc ∈ services.filter (fun svc => d ∉ m.lists svc) then
      m.lists svc ++ [d] else m.lists svc := fun svc => by
    rw [hswept.lists, if_congr (hmem svc) rfl rfl]
  have hsaved : ∀ svc, t.2.lookup svc = if svc ∈ services.filter (fun svc => d ∉ m.lists svc) then
      some ((m.lists svc).map Domain.text) else none := fun svc => by
    rw [hswept.saved, if_congr (hmem svc) rfl rfl]
  by_cases hnone : t.2.entries = []
  · have hempty : services.filter (fun svc => d ∉ m.lists svc) = [] := by
      refine List.eq_nil_iff_forall_not_mem.mpr fun svc hsvc => ?_
      have hlookup := hsaved svc
      rw [if_pos hsvc, AList.lookup, hnone] at hlookup
      cases hlookup
    simp only [if_pos hnone]
    exact ⟨hlists, fun _ => hswept.restoreFile, fun hne => absurd hempty hne⟩
  · simp only [if_neg hnone]
    refine ⟨hlists, fun hempty => ?_, fun _ => ⟨t.2, rfl, hsaved⟩⟩
    obtain ⟨⟨k, ds⟩, es, hentries⟩ := List.exists_cons_of_ne_nil hnone
    have hlookup := hsaved k
    rw [hempty, if_neg List.not_mem_nil, AList.lookup, hentries, List.dlookup_cons_eq] at hlookup
    cases hlookup

/-- **What `ConfigureOS` does.** -/
theorem configures_configureOS (m : Mac) (d : Domain) (resolver : Addr) (denied : Bool)
    (listing : Option Text) : Configures m d (changed m d denied listing)
      (m.configureOS d.text resolver denied listing).2 := by
  have hnothing : ∀ m' : Mac, m'.lists = m.lists → m'.restoreFile = m.restoreFile →
      Configures m d [] m' := fun m' hlists hfile =>
    ⟨fun svc => by rw [hlists, if_neg List.not_mem_nil], fun _ => hfile, fun h => absurd rfl h⟩
  cases denied with
  | true => exact hnothing m rfl rfl
  | false =>
    cases listing with
    | none => exact hnothing _ rfl rfl
    | some out =>
      obtain ⟨hlists, hkept, hsaved⟩ :=
        configures_addDomain (m.writeConf d.text resolver) d (listNetworkServices out)
      exact ⟨hlists, hkept, hsaved⟩

theorem lists_foldl_set {present : Text → Bool} (hpresent : present svc = true)
    {entries : List SavedEntry} (hkeys : entries.NodupKeys) (m : Mac) :
    (entries.foldl (fun m e => if present e.1 then m.setSearchDomains e.1 e.2 else m) m).lists svc =
      ((entries.dlookup svc).map fun ds => (setArgs ds).filterMap domain?).getD (m.lists svc) := by
  induction entries generalizing m with
  | nil => rfl
  | cons e entries ih =>
    obtain ⟨k, ds⟩ := e
    rw [List.nodupKeys_cons] at hkeys
    rw [List.foldl_cons, ih hkeys.2]
    by_cases hk : k = svc
    · subst hk
      rw [List.dlookup_cons_eq, List.dlookup_eq_none.mpr hkeys.1]
      simp [hpresent, Mac.setSearchDomains]
    · rw [List.dlookup_cons_ne _ _ (Ne.symm hk)]
      congr 1
      simp only
      split_ifs
      · exact Function.update_of_ne (Ne.symm hk) _ _
      · rfl

/-- **What `DeconfigureOS` does**: a service that is there gets what the restore file has for it. -/
theorem lists_deconfigureOS (m : Mac) {present : Text → Bool} (hpresent : present svc = true)
    (order : List SavedEntry) : (m.deconfigureOS present order).lists svc =
      ((m.restoreFile.bind fun saved => saved.lookup svc).map fun ds =>
        (setArgs ds).filterMap domain?).getD (m.lists svc) := by
  rw [Mac.deconfigureOS]
  cases m.restoreFile with
  | none => rfl
  | some saved =>
    simp only [Option.bind_some]
    split_ifs with hperm
    · rw [lists_foldl_set hpresent ((List.perm_nodupKeys hperm).mpr saved.nodupKeys),
        List.perm_dlookup svc ((List.perm_nodupKeys hperm).mpr saved.nodupKeys) hperm]
      rfl
    · rw [lists_foldl_set hpresent saved.nodupKeys]
      rfl

end Calls

namespace Journal

variable {j : Journal} {present : Text → Bool}

/-- A service that was changed has more search domains than it had. -/
def Grown (j : Journal) : Prop :=
  ∀ svc l, j.original svc = some l → ∃ more, more ≠ [] ∧ j.mac.lists svc = l ++ more

/-- A service made anew was not changed, and nothing happens to the others. -/
theorem replace_of_original {svc svc' : Text} {ds l : List Domain}
    (h : (j.step (.replace svc' ds)).original svc = some l) :
    j.original svc = some l ∧ (j.step (.replace svc' ds)).mac.lists svc = j.mac.lists svc := by
  simp only [Journal.step] at h ⊢
  by_cases heq : svc = svc'
  · subst heq
    rw [Function.update_self] at h
    cases h
  · rw [Function.update_of_ne heq] at h ⊢
    exact ⟨h, rfl⟩

theorem Grown.step (h : Grown j) (op : Op) : Grown (j.step op) := by
  intro svc l horiginal
  cases op with
  | configure d resolver denied listing =>
    have hlists := (configures_configureOS j.mac d resolver denied listing).lists svc
    simp only [Journal.step] at horiginal ⊢
    rw [hlists]
    cases hbefore : j.original svc with
    | some l' =>
      -- it was changed before, and is at most changed again
      obtain ⟨more, hmore, heq⟩ := h svc l' hbefore
      rw [hbefore, Option.some_or, Option.some.injEq] at horiginal
      subst horiginal
      rw [heq]
      split_ifs
      · exact ⟨more ++ [d], by simp, List.append_assoc _ _ _⟩
      · exact ⟨more, hmore, rfl⟩
    | none =>
      rw [hbefore, Option.none_or] at horiginal
      split_ifs at horiginal with hchanged
      obtain rfl := Option.some.inj horiginal
      rw [if_pos hchanged]
      exact ⟨[d], List.cons_ne_nil d [], rfl⟩
  | replace svc' ds =>
    obtain ⟨hbefore, hlists⟩ := replace_of_original horiginal
    rw [hlists]
    exact h svc l hbefore

/-- After a call that changed something, `DeconfigureOS` brings back what there was before it. -/
theorem lists_deconfigureOS_configure {d : Domain} {resolver : Addr} {denied : Bool}
    {listing : Option Text} (hchanged : changed j.mac d denied listing ≠ []) {svc : Text}
    (hpresent : present svc = true) (order : List SavedEntry) :
    ((j.step (.configure d resolver denied listing)).mac.deconfigureOS present order).lists svc =
      j.mac.lists svc := by
  have hspec := configures_configureOS j.mac d resolver denied listing
  obtain ⟨saved, hfile, hsaved⟩ := hspec.saved hchanged
  rw [lists_deconfigureOS _ hpresent]
  simp only [Journal.step]
  rw [hfile, Option.bind_some, hsaved, hspec.lists]
  split_ifs
  · rw [Option.map_some, Option.getD_some, filterMap_setArgs]
  · rfl

/-- A step that leaves the file and the services that were changed as they are. -/
theorem Restorable.of_same {j' : Journal} (h : j.Restorable present)
    (hfile : j'.mac.restoreFile = j.mac.restoreFile) (hsame : ∀ svc l, j'.original svc = some l →
      j.original svc = some l ∧ j'.mac.lists svc = j.mac.lists svc) : j'.Restorable present := by
  intro order svc l hpresent horiginal
  obtain ⟨hbefore, hlists⟩ := hsame svc l horiginal
  rw [lists_deconfigureOS _ hpresent, hfile, hlists, ← lists_deconfigureOS _ hpresent order]
  exact h order svc l hpresent hbefore

/-- A call that changes something: its file has to do for all services that were changed. -/
theorem restorable_configure_iff (hgrown : Grown j) {d : Domain} {resolver : Addr} {denied : Bool}
    {listing : Option Text} (hchanged : changed j.mac d denied listing ≠ []) :
    (j.step (.configure d resolver denied listing)).Restorable present ↔
      ∀ svc, present svc = true → j.original svc = none := by
  constructor
  · intro hnext svc hpresent
    by_contra hbefore
    obtain ⟨l, hl⟩ := Option.ne_none_iff_exists'.mp hbefore
    obtain ⟨more, hmore, heq⟩ := hgrown svc l hl
    have horiginal : (j.step (.configure d resolver denied listing)).original svc = some l := by
      simp only [Journal.step, hl, Option.some_or]
    have hlists := hnext [] svc l hpresent horiginal
    rw [lists_deconfigureOS_configure hchanged hpresent, heq] at hlists
    exact hmore (List.append_right_eq_self.mp hlists)
  · intro hfirst order svc l hpresent horiginal
    rw [lists_deconfigureOS_configure hchanged hpresent]
    simp only [Journal.step, hfirst svc hpresent, Option.none_or] at horiginal
    split_ifs at horiginal
    exact Option.some.inj horiginal

/-- **One step**, from a state in which everything can be restored. -/
theorem restorable_step_iff (hgrown : Grown j) (h : j.Restorable present) (op : Op) :
    (j.step op).Restorable present ↔ j.Careful present op := by
  cases op with
  | configure d resolver denied listing =>
    rw [Careful]
    by_cases hchanged : changed j.mac d denied listing = []
    · have hspec := configures_configureOS j.mac d resolver denied listing
      refine iff_of_true (h.of_same (hspec.kept hchanged) fun svc l horiginal => ?_) (.inl hchanged)
      simp only [Journal.step, hchanged, List.not_mem_nil, if_false, Option.or_none] at horiginal ⊢
      exact ⟨horiginal, by rw [hspec.lists, hchanged, if_neg List.not_mem_nil]⟩
    · rw [or_iff_right hchanged]
      exact restorable_configure_iff hgrown hchanged
  | replace svc' ds =>
    exact iff_of_true (h.of_same rfl fun svc l horiginal => replace_of_original horiginal) trivial

end Journal

/-- **When everything is restored.** In every run of calls, from any state of the Mac, every service
that was changed and is still there can be restored at every point if and only if no call changes a
service while one that was changed before is still there: the file that call writes knows nothing of
it. -/
theorem restorable_run_iff (m : Mac) (present : Text → Bool) (ops : List Op) :
    (∀ ops', ops' <+: ops →
        (run Journal.step (.start m) ops').Restorable present) ↔
      Along Journal.step (Journal.Careful present) (.start m) ops := by
  have hnone : ∀ svc l, (Journal.start m).original svc ≠ some l := fun svc l h => by cases h
  refine forall_prefix_iff_along (J := Journal.Grown) ?_ ?_ (fun j op h => h.step op)
    (fun j op hgrown h => Journal.restorable_step_iff hgrown h op) ops
  · exact fun svc l h => absurd h (hnone svc l)
  · exact fun order svc l _ h => absurd h (hnone svc l)

/-- A domain of a mesh. -/
def meshDomain : Domain := ⟨bytes "default.mesh", by decide +kernel⟩

/-- A second call finds a service that was not there before, and forgets the one that was. -/
theorem restorable_forgotten :
    ¬ (run Journal.step (.start ⟨fun _ => none, fun _ => [], none⟩)
      [.configure meshDomain (.v4 0x64600001#32) false (some (bytes "Wi-Fi\n")),
        .configure meshDomain (.v4 0x64600001#32) false
          (some (bytes "Wi-Fi\nUSB LAN\n"))]).Restorable fun _ => true := by
  intro h
  have hlists := h [] (bytes "Wi-Fi") [] rfl (by decide +kernel)
  exact absurd hlists (by decide +kernel)

end Darwin

end Meshdns

end OverMesh
