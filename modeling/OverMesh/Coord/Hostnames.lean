import Mathlib.Data.Nat.Digits.Lemmas
import OverMesh.Coord.NodeKeys
import OverMesh.Coord.Rows

/-!
# Host names

A node is named when its machine is enrolled, after the name the machine offers, and may be renamed
when the machine registers again. The database does not require names to be distinct. They are,
because a new node gets the first free name of a list that does not repeat itself, and a returning
one keeps its name unless the other one is free.

Names become DNS labels, and for that they are cleaned up. Two things can still go wrong. The name
is cut to 63 characters after its hyphens were trimmed, so that it may end in a hyphen again, and
the suffix that makes it free is appended after the cut, so that it may be longer.

## Main definitions

* `NamesDistinct` — no two nodes of a network have one name
* `IsLabel` — a name is a DNS label
* `CutsClean`, `CleanRegister`, `CleanName` — the condition on a registration

## Main results

* `hostnames_distinct` — **names are distinct in every run, and in every netmap that was sent**
* `isLabel_sanitizeHostname_iff`, `isLabel_candidate_iff` — when a name is a label
* `hostnames_labels` — **names are labels in every run in which the condition holds**
* `hostname_no_label` — a name that ends in a hyphen, and one of 65 characters
-/

namespace OverMesh

open GoText Runs

/-! ### Distinct names -/

/-- No two nodes of a network have the same name. -/
def NamesDistinct (rows : List Node) : Prop :=
  ∀ n ∈ rows, ∀ m ∈ rows, n.networkID = m.networkID → n.hostname = m.hostname → n.id = m.id

theorem Store.ne_of_not_hostnameTaken {st : Store} {w : ℤ} {name : String}
    (h : st.hostnameTaken w name = false) {m : Node} (hm : m ∈ st.nodes.rows)
    (hw : m.networkID = w) : m.hostname ≠ name := by
  rw [Store.hostnameTaken, List.any_eq_false] at h
  intro hname
  exact h m hm (decide_eq_true ⟨hw, hname⟩)

/-- The name of a returning machine is the one it had, or a new one that is free. -/
theorem Coordinator.newName_cases (st : Store) (n : Node) (hostname : String) :
    newName st n hostname = n.hostname ∨ newName st n hostname = hostname ∧ hostname ≠ "" ∧
      st.hostnameTaken n.networkID hostname = false := by
  rw [newName]
  split_ifs with h
  · exact .inr ⟨rfl, h.1, h.2.2⟩
  · exact .inl rfl

namespace NamesDistinct

variable {c : Coordinator} {rows : List Node}

/-- Rows may go, and change in what is neither id, network nor name. -/
theorem of_rows {rows' : List Node} (h : NamesDistinct rows)
    (hrows : ∀ n' ∈ rows', ∃ n ∈ rows, n.id = n'.id ∧ n.networkID = n'.networkID ∧
      n.hostname = n'.hostname) : NamesDistinct rows' := by
  intro p' hp' q' hq' hnw hname
  obtain ⟨p, hp, hpid, hpnw, hpname⟩ := hrows p' hp'
  obtain ⟨q, hq, hqid, hqnw, hqname⟩ := hrows q' hq'
  rw [← hpid, ← hqid]
  exact h p hp q hq (by rw [hpnw, hqnw, hnw]) (by rw [hpname, hqname, hname])

/-- One row takes a name that no other row of its network has. -/
theorem renamed {f : Node → Node} {id : ℤ} (h : NamesDistinct rows)
    (hf : ∀ m ∈ rows, (f m).id = m.id ∧ (f m).networkID = m.networkID)
    (hname : ∀ m ∈ rows, m.id = id → ∀ q ∈ rows, q.id ≠ id → q.networkID = m.networkID →
      q.hostname ≠ (f m).hostname) :
    NamesDistinct (rows.map fun m => if m.id = id then f m else m) := by
  intro p' hp' q' hq' hnw hhost
  obtain ⟨p, hp, rfl⟩ := List.mem_map.mp hp'
  obtain ⟨q, hq, rfl⟩ := List.mem_map.mp hq'
  obtain ⟨hpid, hpnw⟩ := hf p hp
  obtain ⟨hqid, hqnw⟩ := hf q hq
  by_cases hpn : p.id = id <;> by_cases hqn : q.id = id
  · rw [if_pos hpn, if_pos hqn, hpid, hqid, hpn, hqn]
  · rw [if_pos hpn, if_neg hqn] at hnw hhost
    exact absurd hhost.symm (hname p hp hpn q hq hqn (by rw [← hnw, hpnw]))
  · rw [if_neg hpn, if_pos hqn] at hnw hhost
    exact absurd hhost (hname q hq hqn p hp hpn (by rw [hnw, hqnw]))
  · rw [if_neg hpn, if_neg hqn] at hnw hhost ⊢
    exact h p hp q hq hnw hhost

/-- A row with a name that is new in its network. -/
theorem append {n : Node} (h : NamesDistinct rows)
    (hname : ∀ m ∈ rows, m.networkID = n.networkID → m.hostname ≠ n.hostname) :
    NamesDistinct (rows ++ [n]) := by
  intro p hp q hq hnw hhost
  rw [List.mem_append, List.mem_singleton] at hp hq
  rcases hp with hp | rfl <;> rcases hq with hq | rfl
  · exact h p hp q hq hnw hhost
  · exact absurd hhost (hname p hp hnw)
  · exact absurd hhost.symm (hname q hq hnw.symm)
  · rfl

/-- **Every step keeps names distinct.** -/
theorem rowChange {op : Op} (h : NamesDistinct c.st.nodes.rows) (hrows : RowChange c op rows) :
    NamesDistinct rows := by
  cases hrows with
  | quiet hstable =>
    refine h.of_rows fun n' hn' => ?_
    obtain ⟨n, hn, he⟩ := exists_stable_eq hstable hn'
    exact ⟨n, hn, congrArg (·.id) he, congrArg (·.networkID) he, congrArg (·.hostname) he⟩
  | @returned now req n hn =>
    refine h.renamed (f := (·.returned c.st req))
      (fun m _ => ⟨Node.id_returned, Node.networkID_returned⟩) fun m hm hid q hq hne hnw => ?_
    rw [Node.hostname_returned]
    rcases Coordinator.newName_cases c.st m (sanitizeHostname req.hostname) with
      heq | ⟨heq, -, hfree⟩
    · rw [heq]
      intro hname
      exact hne ((h q hq m hm hnw hname).trans hid)
    · rw [heq]
      exact Store.ne_of_not_hostnameTaken hfree hq hnw
  | enrolled now ownerID req hmk hread hnw ha h4 h6 =>
    exact h.append fun m hm hw =>
      Store.ne_of_not_hostnameTaken (dedupeHostname_free c.st _ _) hm hw
  | deleted id =>
    exact h.of_rows fun n hn => ⟨n, List.mem_of_mem_filter hn, rfl, rfl, rfl⟩

end NamesDistinct

/-- The name under which the search begins for a new node. -/
def offeredName (raw : String) : String :=
  if sanitizeHostname raw = "" then "node" else sanitizeHostname raw

/-- What holds of the names there are, of the names machines offer and of the names the search
finds, holds of the names after a step. -/
theorem hostname_of_rowChange {c : Coordinator} {op : Op} {rows : List Node} {P : String → Prop}
    (h : ∀ n ∈ c.st.nodes.rows, P n.hostname) (hrows : RowChange c op rows)
    (hoffer : ∀ now req, op = .register now req →
      ∀ n ∈ c.st.nodeByMachineKey req.mkey.string, sanitizeHostname req.hostname ≠ "" →
        Coordinator.newName c.st n (sanitizeHostname req.hostname) ≠ n.hostname →
          P (sanitizeHostname req.hostname))
    (hsearch : ∀ now req, op = .register now req →
      c.st.nodeByMachineKey req.mkey.string = none → ∀ w ∈ registersIn c now req,
        P (dedupeHostname c.st w (offeredName req.hostname))) :
    ∀ n ∈ rows, P n.hostname := by
  intro n hn
  cases hrows with
  | quiet hstable =>
    obtain ⟨m, hm, he⟩ := exists_stable_eq hstable hn
    have hname : m.hostname = n.hostname := congrArg (·.hostname) he
    rw [← hname]
    exact h m hm
  | @returned now req p hp =>
    obtain ⟨m, hm, rfl⟩ := List.mem_map.mp hn
    split_ifs with hid
    · obtain rfl := c.st.nodes.eq_of_id_eq hm (Store.nodeByMachineKey_eq_some_iff.mp hp).1 hid
      rw [Node.hostname_returned]
      rcases Coordinator.newName_cases c.st m (sanitizeHostname req.hostname) with
        heq | ⟨heq, hne, hfree⟩
      · rw [heq]
        exact h m hm
      · have hother := Store.ne_of_not_hostnameTaken hfree hm rfl
        have hoffered := hoffer now req rfl m hp hne (by rw [heq]; exact hother.symm)
        rwa [heq]
    · exact h m hm
  | @enrolled now ownerID req nw k a v4 v6 hmk hread hnw ha h4 h6 =>
    rw [List.mem_append, List.mem_singleton] at hn
    rcases hn with hn | rfl
    · exact h n hn
    · refine hsearch now req rfl hmk nw.id ?_
      rw [registersIn, hmk, hread, (AutoTable.byId_eq_some_iff.mp hnw).2]
      rfl
  | deleted id => exact h n (List.mem_of_mem_filter hn)

/-! ### The alphabet of names -/

theorem hostnameChar_of_mem_replaceRuns {ch : Char} {inRun : Bool} {cs : List Char}
    (h : ch ∈ replaceRuns inRun cs) : hostnameChar ch = true := by
  induction cs generalizing inRun with
  | nil => cases h
  | cons c cs ih =>
    rw [replaceRuns] at h
    split_ifs at h with hchar hrun
    · rcases List.mem_cons.mp h with rfl | h
      · exact hchar
      · exact ih h
    · exact ih h
    · rcases List.mem_cons.mp h with rfl | h
      · rfl
      · exact ih h

/-- The name after its hyphens were trimmed and before it is cut. -/
def trimmedName (raw : String) : List Char :=
  trimHyphens (replaceRuns false ((trimSpace raw.toList).map toLower))

theorem toList_sanitizeHostname (raw : String) :
    (sanitizeHostname raw).toList = (trimmedName raw).take 63 := by
  rw [sanitizeHostname, String.toList_ofList]
  rfl

theorem mem_of_mem_trimHyphens {ch : Char} {cs : List Char} (h : ch ∈ trimHyphens cs) :
    ch ∈ cs := by
  rw [trimHyphens, List.mem_reverse] at h
  exact (List.dropWhile_suffix _).subset (List.mem_reverse.mp ((List.dropWhile_suffix _).subset h))

/-- A name is made of lower case letters, digits and hyphens. -/
def PlainName (name : String) : Prop := ∀ ch ∈ name.toList, hostnameChar ch = true

instance (name : String) : Decidable (PlainName name) :=
  decidable_of_iff (name.toList.all hostnameChar = true) List.all_eq_true

theorem plainName_sanitizeHostname (raw : String) : PlainName (sanitizeHostname raw) := by
  intro ch hch
  rw [toList_sanitizeHostname] at hch
  exact hostnameChar_of_mem_replaceRuns (mem_of_mem_trimHyphens (List.mem_of_mem_take hch))

theorem plainName_candidate {base : String} (h : PlainName base) (k : ℕ) :
    PlainName (candidate base k) := by
  cases k with
  | zero => exact h
  | succ k =>
    intro ch hch
    simp only [candidate, String.toList_append, List.mem_append, String.toList_ofList] at hch
    rcases hch with (hch | hch) | hch
    · exact h ch hch
    · obtain rfl := List.mem_singleton.mp hch
      rfl
    · exact decide_eq_true (.inr (.inl (digit_of_mem_decString hch)))

theorem plainName_dedupeHostname {base : String} (h : PlainName base) (st : Store) (w : ℤ) :
    PlainName (dedupeHostname st w base) := by
  obtain ⟨k, -, heq, -⟩ := dedupeHostname_stops st w base
  rw [heq]
  exact plainName_candidate h k

theorem plainName_offeredName (raw : String) : PlainName (offeredName raw) := by
  rw [offeredName]
  split_ifs
  · decide
  · exact plainName_sanitizeHostname raw

/-- The characters of a plain name are in ASCII, below the letters or among the small ones. -/
theorem toNat_of_hostnameChar {ch : Char} (h : hostnameChar ch = true) :
    ch.val.toNat ≤ 57 ∨ 97 ≤ ch.val.toNat ∧ ch.val.toNat ≤ 122 := by
  rw [hostnameChar, decide_eq_true_iff] at h
  rcases h with ⟨h1, h2⟩ | ⟨-, h2⟩ | rfl
  · exact .inr ⟨UInt32.le_iff_toNat_le.mp h1, UInt32.le_iff_toNat_le.mp h2⟩
  · exact .inl (UInt32.le_iff_toNat_le.mp h2)
  · exact .inl (by decide)

theorem toLower_of_hostnameChar {ch : Char} (h : hostnameChar ch = true) : toLower ch = ch := by
  have hrange := toNat_of_hostnameChar h
  rw [toLower, if_neg, if_neg]
  · refine dif_neg ?_
    rintro ⟨h1, h2⟩
    have h1 : 65 ≤ ch.val.toNat := UInt32.le_iff_toNat_le.mp h1
    have h2 : ch.val.toNat ≤ 90 := UInt32.le_iff_toNat_le.mp h2
    omega
  · rintro rfl
    exact absurd hrange (by decide)
  · rintro rfl
    exact absurd hrange (by decide)

/-- Lower case does not change a plain name. -/
theorem PlainName.map_toLower {name : String} (h : PlainName name) :
    name.toList.map toLower = name.toList :=
  (List.map_congr_left fun ch hch => toLower_of_hostnameChar (h ch hch)).trans (List.map_id _)

/-- A character of a plain name is a byte. -/
theorem PlainName.utf8ByteSize_eq {name : String} (h : PlainName name) :
    name.utf8ByteSize = name.toList.length := by
  refine utf8ByteSize_of_ascii fun ch hch => ?_
  have hrange := toNat_of_hostnameChar (h ch hch)
  change ch.val.toNat < 128
  omega

theorem length_decString_le {m n : ℕ} (h : m ≤ n) :
    (decString m).length ≤ (decString n).length := by
  rcases Nat.eq_zero_or_pos m with rfl | hm
  · obtain ⟨d, -, cs, hcs⟩ := decString_eq_cons n
    rw [hcs]
    simp [decString]
  · rw [decString, decString, if_neg hm.ne', if_neg (by omega)]
    simpa using Nat.le_length_digits_le 10 m n h

/-! ### Labels -/

/-- A DNS label: not empty, at most 63 bytes, lower case letters, digits and hyphens, and no hyphen
at either end. -/
def IsLabel (name : String) : Prop :=
  name ≠ "" ∧ name.utf8ByteSize ≤ 63 ∧ PlainName name ∧ name.toList.head? ≠ some '-' ∧
    name.toList.getLast? ≠ some '-'

instance (name : String) : Decidable (IsLabel name) :=
  inferInstanceAs (Decidable (_ ∧ _))

/-- The cut after 63 characters does not fall behind a hyphen. -/
def CutsClean (raw : String) : Prop :=
  63 < (trimmedName raw).length → (trimmedName raw)[62]? ≠ some '-'

instance (raw : String) : Decidable (CutsClean raw) := inferInstanceAs (Decidable (_ → _))

theorem head?_dropWhile_hyphen (cs : List Char) : (cs.dropWhile (· = '-')).head? ≠ some '-' := by
  have h := List.head?_dropWhile_not (fun c : Char => decide (c = '-')) cs
  intro hhead
  rw [hhead] at h
  simp at h

/-- Neither end of a trimmed name is a hyphen. -/
theorem trimHyphens_ends (cs : List Char) :
    (trimHyphens cs).head? ≠ some '-' ∧ (trimHyphens cs).getLast? ≠ some '-' := by
  rw [trimHyphens]
  constructor
  · -- What is dropped at the end does not reach the first character.
    rw [List.head?_reverse]
    obtain ⟨front, hfront⟩ := List.dropWhile_suffix (l := (cs.dropWhile (· = '-')).reverse)
      fun c : Char => decide (c = '-')
    intro hlast
    have hwhole := congrArg List.getLast? hfront
    rw [List.getLast?_append, hlast, Option.some_or, List.getLast?_reverse] at hwhole
    exact head?_dropWhile_hyphen cs hwhole.symm
  · rw [List.getLast?_reverse]
    exact head?_dropWhile_hyphen _

/-- The end of a list that was cut is the end of the list, or stands at the cut. -/
theorem getLast?_take_ne_iff {l : List Char} {x : Char} (n : ℕ) (hlast : l.getLast? ≠ some x) :
    (l.take (n + 1)).getLast? ≠ some x ↔ (n + 1 < l.length → l[n]? ≠ some x) := by
  rw [List.getLast?_take, if_neg (Nat.succ_ne_zero n), Nat.add_sub_cancel]
  rcases Nat.lt_trichotomy (n + 1) l.length with hlt | heq | hgt
  · rw [List.getElem?_eq_getElem (Nat.lt_of_succ_lt hlt), Option.some_or]
    exact ⟨fun h _ => h, fun h => h hlt⟩
  · have hend : l[n]? = l.getLast? := by
      rw [List.getLast?_eq_getElem?, ← heq, Nat.add_sub_cancel]
    rw [hend, Option.or_self]
    exact ⟨fun h _ => h, fun _ => hlast⟩
  · rw [List.getElem?_eq_none (Nat.le_of_lt_succ hgt), Option.none_or]
    exact ⟨fun _ hlt => absurd hlt (by omega), fun _ => hlast⟩

/-- **When the name a machine offers is a label.** -/
theorem isLabel_sanitizeHostname_iff {raw : String} (hne : sanitizeHostname raw ≠ "") :
    IsLabel (sanitizeHostname raw) ↔ CutsClean raw := by
  have hplain := plainName_sanitizeHostname raw
  obtain ⟨hhead, hlast⟩ := trimHyphens_ends (replaceRuns false ((trimSpace raw.toList).map toLower))
  have hlist := toList_sanitizeHostname raw
  have hlen : (sanitizeHostname raw).utf8ByteSize ≤ 63 := by
    rw [hplain.utf8ByteSize_eq, hlist, List.length_take]
    omega
  have hfirst : (sanitizeHostname raw).toList.head? ≠ some '-' := by
    rw [hlist, List.head?_take, if_neg (by decide)]
    exact hhead
  have hend : (sanitizeHostname raw).toList.getLast? ≠ some '-' ↔ CutsClean raw := by
    rw [hlist]
    exact getLast?_take_ne_iff 62 hlast
  rw [IsLabel, ← hend]
  exact ⟨fun h => h.2.2.2.2, fun h => ⟨hne, hlen, hplain, hfirst, h⟩⟩

/-- **When a label with a suffix is a label.** -/
theorem isLabel_candidate_iff {base : String} (h : IsLabel base) (k : ℕ) :
    IsLabel (candidate base k) ↔ (candidate base k).utf8ByteSize ≤ 63 := by
  refine ⟨fun hlabel => hlabel.2.1, fun hlen => ?_⟩
  cases k with
  | zero => exact h
  | succ k =>
    obtain ⟨hne, -, hplain, hhead, -⟩ := h
    have hnil : base.toList ≠ [] := by simpa using hne
    have hlist : (candidate base (k + 1)).toList = base.toList ++ ('-' :: decString (k + 2)) := by
      simp [candidate]
    refine ⟨fun hempty => ?_, hlen, plainName_candidate hplain (k + 1), ?_, ?_⟩
    · rw [hempty] at hlist
      exact hnil (List.append_eq_nil_iff.mp hlist.symm).1
    · rw [hlist, List.head?_append_of_ne_nil _ hnil]
      exact hhead
    · -- The suffix ends in a digit.
      obtain ⟨d, -, cs, hcs⟩ := decString_eq_cons (k + 2)
      have hdigits : decString (k + 2) ≠ [] := by
        rw [hcs]
        exact List.cons_ne_nil _ _
      intro hlast
      rw [hlist, ← List.singleton_append, ← List.append_assoc,
        List.getLast?_append_of_ne_nil _ hdigits] at hlast
      exact absurd (digit_of_mem_decString (List.mem_of_getLast? hlast)) (by decide)

/-! ### Runs -/

/-- The names of a netmap, that of the node itself first. -/
def Proto.NetMap.names (nm : Proto.NetMap) : List String :=
  nm.self.hostname :: nm.peers.map (·.hostname)

/-- Names are distinct and plain, in the database and in every netmap that was sent, also if the
case of letters does not matter. -/
structure HostnameInv (c : Coordinator) : Prop where
  distinct : NamesDistinct c.st.nodes.rows
  plain : ∀ n ∈ c.st.nodes.rows, PlainName n.hostname
  sent : ∀ nm, Sent c nm → (nm.names.map fun name => name.toList.map toLower).Nodup

section NetMap

variable {st : Store} {nm : Proto.NetMap}

theorem Coordinator.hostname_of_peerEntry {c : Coordinator} {p : Node} {e : Proto.Peer}
    (h : c.peerEntry p = some e) : e.hostname = p.hostname := by
  rw [Coordinator.peerEntry, Option.map_eq_some_iff] at h
  obtain ⟨nkey, -, rfl⟩ := h
  rfl

/-- **Distinct names in the database are distinct names in a netmap.** -/
theorem NamesDistinct.nodup_names (h : NamesDistinct st.nodes.rows) (hnm : BuiltFor st nm) :
    nm.names.Nodup := by
  obtain ⟨c, n, rfl, ⟨m, hm, hstable⟩, hnm⟩ := hnm
  rw [Coordinator.buildNetMapLocked] at hnm
  obtain ⟨nw, -, rfl⟩ := Option.map_eq_some_iff.mp hnm
  have hmid : m.id = n.id := congrArg (·.id) hstable
  have hmnw : m.networkID = n.networkID := congrArg (·.networkID) hstable
  have hmname : m.hostname = n.hostname := congrArg (·.hostname) hstable
  rw [Proto.NetMap.names, List.nodup_cons]
  constructor
  · intro hself
    obtain ⟨e, he, hname⟩ := List.mem_map.mp hself
    obtain ⟨p, hp, hpe⟩ := List.mem_filterMap.mp he
    obtain ⟨hp, hpid⟩ := List.mem_filter.mp hp
    obtain ⟨hp, hpnw⟩ := Store.mem_nodesInNetwork.mp hp
    rw [Coordinator.hostname_of_peerEntry hpe] at hname
    have hid := h p hp m hm (hpnw.trans hmnw.symm) (hname.trans hmname.symm)
    exact of_decide_eq_true hpid (hid.trans hmid)
  · refine List.pairwise_map.mpr (List.pairwise_filterMap.mpr ?_)
    have hasc := (c.st.nodes.ascending.filter (·.networkID = n.networkID)).filter (·.id ≠ n.id)
    refine hasc.imp_of_mem fun {p q} hp hq hlt => ?_
    intro a ha b hb hname
    obtain ⟨hp, hpnw⟩ := Store.mem_nodesInNetwork.mp (List.mem_of_mem_filter hp)
    obtain ⟨hq, hqnw⟩ := Store.mem_nodesInNetwork.mp (List.mem_of_mem_filter hq)
    rw [Coordinator.hostname_of_peerEntry ha, Coordinator.hostname_of_peerEntry hb] at hname
    exact absurd (h p hp q hq (hpnw.trans hqnw.symm) hname) (ne_of_lt hlt)

theorem plainName_of_mem_names (h : ∀ n ∈ st.nodes.rows, PlainName n.hostname)
    (hnm : BuiltFor st nm) : ∀ name ∈ nm.names, PlainName name := by
  obtain ⟨c, n, rfl, ⟨m, hm, hstable⟩, hnm⟩ := hnm
  rw [Coordinator.buildNetMapLocked] at hnm
  obtain ⟨nw, -, rfl⟩ := Option.map_eq_some_iff.mp hnm
  have hmname : m.hostname = n.hostname := congrArg (·.hostname) hstable
  rw [Proto.NetMap.names, List.forall_mem_cons]
  refine ⟨?_, fun name hname => ?_⟩
  · change PlainName n.hostname
    rw [← hmname]
    exact h m hm
  · obtain ⟨e, he, rfl⟩ := List.mem_map.mp hname
    obtain ⟨p, hp, hpe⟩ := List.mem_filterMap.mp he
    rw [Coordinator.hostname_of_peerEntry hpe]
    exact h p (Store.mem_nodesInNetwork.mp (List.mem_of_mem_filter hp)).1

/-- Plain names that differ, differ in more than the case of their letters. -/
theorem nodup_map_toLower {names : List String} (h : names.Nodup)
    (hplain : ∀ name ∈ names, PlainName name) :
    (names.map fun name => name.toList.map toLower).Nodup := by
  refine List.Nodup.map_on ?_ h
  intro a ha b hb heq
  rw [(hplain a ha).map_toLower, (hplain b hb).map_toLower] at heq
  exact String.toList_injective heq

end NetMap

theorem HostnameInv.step {s : System} (h : HostnameInv s.c) (op : Op) :
    HostnameInv (s.step op).c := by
  have hrows := step_rows s op
  have hdistinct := h.distinct.rowChange hrows
  have hplain := hostname_of_rowChange h.plain hrows
    (fun _ _ _ _ _ _ _ => plainName_sanitizeHostname _)
    fun _ _ _ _ _ _ => plainName_dedupeHostname (plainName_offeredName _) _ _
  refine ⟨hdistinct, hplain, fun nm hnm => ?_⟩
  rcases sent_step hnm with hold | hbuilt
  · exact h.sent nm hold
  · exact nodup_map_toLower (hdistinct.nodup_names hbuilt) (plainName_of_mem_names hplain hbuilt)

/-- **Names are distinct.** In every run from an empty database no two nodes of a network have one
name, the search for a name ends at a free one, and the names in every netmap that was sent are
distinct, also if the case of letters does not matter. -/
theorem hostnames_distinct (stunServers relays : List String) (dnsBase : String) (ops : List Op) :
    let c := (run System.step (System.start .empty stunServers relays dnsBase) ops).c
    (∀ n ∈ c.st.nodes.rows, ∀ m ∈ c.st.nodes.rows, n.networkID = m.networkID →
        n.hostname = m.hostname → n = m) ∧
      (∀ w base, ∃ k, dedupeHostname c.st w base = candidate base k ∧
        (∀ j < k, c.st.hostnameTaken w (candidate base j) = true) ∧
        c.st.hostnameTaken w (candidate base k) = false) ∧
      ∀ nm, Sent c nm → (nm.names.map fun name => name.toList.map toLower).Nodup := by
  intro c
  have hinv : HostnameInv c := by
    refine run_induction (P := fun s : System => HostnameInv s.c) ?_ (fun s op h => h.step op)
      ops
    refine ⟨?_, ?_, ?_⟩
    · intro n hn
      cases hn
    · intro n hn
      cases hn
    · rintro nm ⟨ch, hch⟩
      cases hch
  refine ⟨?_, ?_, hinv.sent⟩
  · intro n hn m hm hnw hname
    exact c.st.nodes.eq_of_id_eq hn hm (hinv.distinct n hn m hm hnw hname)
  · intro w base
    obtain ⟨k, -, hk⟩ := dedupeHostname_stops c.st w base
    exact ⟨k, hk⟩

/-- The name a machine offers is not cut behind a hyphen, where it would be taken up: by a node that
returns, if the name is free, or by a new one, if also a free name of at most 63 bytes is among
those that the search goes through. -/
def CleanRegister (c : Coordinator) (now : ℤ) (req : RegisterRequest) : Prop :=
  (∀ n ∈ c.st.nodeByMachineKey req.mkey.string,
    c.st.hostnameTaken n.networkID (sanitizeHostname req.hostname) = false →
      CutsClean req.hostname) ∧
  (c.st.nodeByMachineKey req.mkey.string = none → ∀ w ∈ registersIn c now req,
    CutsClean req.hostname ∧ ∃ k ≤ (c.st.nodesInNetwork w).length + 1,
      c.st.hostnameTaken w (candidate (offeredName req.hostname) k) = false ∧
        (candidate (offeredName req.hostname) k).utf8ByteSize ≤ 63)

instance (c : Coordinator) (now : ℤ) (req : RegisterRequest) :
    Decidable (CleanRegister c now req) :=
  inferInstanceAs (Decidable (_ ∧ _))

/-- The condition on a step. -/
def CleanName (s : System) : Op → Prop
  | .register now req => CleanRegister s.c now req
  | _ => True

instance (s : System) (op : Op) : Decidable (CleanName s op) := by
  cases op <;> unfold CleanName <;> infer_instance

theorem isLabel_offeredName {raw : String} (h : CutsClean raw) : IsLabel (offeredName raw) := by
  rw [offeredName]
  split_ifs with hempty
  · decide
  · exact (isLabel_sanitizeHostname_iff hempty).mpr h

/-- Later candidates are not shorter. -/
theorem utf8ByteSize_candidate_le {base : String} (h : PlainName base) {j k : ℕ} (hjk : j ≤ k) :
    (candidate base j).utf8ByteSize ≤ (candidate base k).utf8ByteSize := by
  rw [(plainName_candidate h j).utf8ByteSize_eq, (plainName_candidate h k).utf8ByteSize_eq]
  cases j with
  | zero =>
    cases k with
    | zero => exact Nat.le_refl _
    | succ k => simp [candidate, candidate]
  | succ j =>
    obtain ⟨k, rfl⟩ := Nat.exists_eq_succ_of_ne_zero (show k ≠ 0 by omega)
    have hdigits := length_decString_le (show j + 2 ≤ k + 2 by omega)
    simpa [candidate] using hdigits

/-- **The search finds a short name if there is one.** -/
theorem utf8ByteSize_dedupeHostname {st : Store} {w : ℤ} {base : String} (h : PlainName base)
    {k bound : ℕ} (hfree : st.hostnameTaken w (candidate base k) = false)
    (hlen : (candidate base k).utf8ByteSize ≤ bound) :
    (dedupeHostname st w base).utf8ByteSize ≤ bound := by
  obtain ⟨j, -, heq, hbefore, -⟩ := dedupeHostname_stops st w base
  rw [heq]
  refine (utf8ByteSize_candidate_le h ?_).trans hlen
  by_contra hlt
  cases (hbefore k (by omega)).symm.trans hfree

/-- **Every step keeps names labels**, if the name it brings is clean. -/
theorem isLabel_step {s : System} {op : Op} (h : ∀ n ∈ s.c.st.nodes.rows, IsLabel n.hostname)
    (hop : CleanName s op) : ∀ n ∈ (s.step op).c.st.nodes.rows, IsLabel n.hostname := by
  refine hostname_of_rowChange h (step_rows s op) ?_ ?_
  · rintro now req rfl n hn hne hnew
    have hfree := ((Coordinator.newName_cases _ n _).resolve_left hnew).2.2
    exact (isLabel_sanitizeHostname_iff hne).mpr (hop.1 n hn hfree)
  · rintro now req rfl hmk w hw
    obtain ⟨hcut, j, -, hfree, hshort⟩ := hop.2 hmk w hw
    have hlen := utf8ByteSize_dedupeHostname (plainName_offeredName _) hfree hshort
    obtain ⟨k, -, heq, -⟩ := dedupeHostname_stops s.c.st w (offeredName req.hostname)
    rw [heq] at hlen ⊢
    exact (isLabel_candidate_iff (isLabel_offeredName hcut) k).mpr hlen

/-- **Names are labels** in every run from an empty database in which the names that are taken up
are clean. -/
theorem hostnames_labels (stunServers relays : List String) (dnsBase : String) (ops : List Op)
    (hops : Along System.step CleanName (System.start .empty stunServers relays dnsBase)
      ops) :
    ∀ n ∈ (run System.step (System.start .empty stunServers relays dnsBase)
      ops).c.st.nodes.rows, IsLabel n.hostname := by
  refine run_induction_along
    (P := fun s : System => ∀ n ∈ s.c.st.nodes.rows, IsLabel n.hostname) ?_
    (fun s op h hop => isLabel_step h hop) hops
  intro n hn
  cases hn

/-- Machines with the node and machine keys 1, 2 and so on offer the names `names`, one after the
other. -/
def sampleNames (names : List String) : List Op :=
  [.ensureNetwork "default" Ipam.defaultIPv4Prefix Ipam.defaultIPv6Prefix,
    .newSetupKey 0 [1] 1 true none 1] ++
    names.mapIdx fun i name =>
      .register 0 { Coordinator.sampleRequest (i + 1).toUInt8 "sk-01" with hostname := name }

/-- The names the nodes have then. -/
def sampleNamed (names : List String) : List String :=
  (run System.step (System.start .empty [] [] "mesh") (sampleNames names)).c.st.nodes.rows.map
    (·.hostname)

/-- Two machines that offer one name, and one that offers none. -/
theorem hostnames_labels_sample :
    sampleNamed [" My_Host ", "my host", "??"] = ["my-host", "my-host-2", "node"] ∧
      (run System.step (System.start .empty [] [] "mesh")
        (sampleNames [" My_Host ", "my host", "??"])).c.st.nodes.rows.Forall
          fun n => IsLabel n.hostname :=
  ⟨by decide +kernel, List.forall_iff_forall_mem.mpr
    (hostnames_labels [] [] "mesh" (sampleNames [" My_Host ", "my host", "??"])
      (by decide +kernel))⟩

/-- **Names that are no labels.** The first one is cut behind a hyphen. The second one is offered
twice, and is too long with its suffix. -/
theorem hostname_no_label :
    (∃ name ∈ sampleNamed [String.ofList (List.replicate 62 'a') ++ "-b"],
        ¬ IsLabel name ∧ name.toList.getLast? = some '-') ∧
      ∃ name ∈ sampleNamed (List.replicate 2 (String.ofList (List.replicate 63 'a'))),
        ¬ IsLabel name ∧ name.utf8ByteSize = 65 := by
  decide +kernel

end OverMesh
