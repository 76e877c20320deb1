import OverMesh.Store.Basic

/-!
# Access rules in the database

The web interface edits the whole ordered rule list of a network and saves it in one transaction:
the old rows go, and the new ones are inserted with their index as position.

## Main result

* `acl_setACL` — what was saved is read back, in the same order
-/

namespace OverMesh

/-- Why a rule list is refused. `foreignKey` is the constraint on the network id. -/
inductive SetACLError where
  | badAction (action : String)
  | unknownProtocol (protocol : String)
  | foreignKey
  deriving DecidableEq

/-- The text of an error. `quote` is the `%q` verb, the last text is the database's. -/
def SetACLError.message (quote : String → String) : SetACLError → String
  | .badAction action => s!"rule action must be allow or deny, got {quote action}"
  | .unknownProtocol protocol => s!"unknown protocol {quote protocol}"
  | .foreignKey => "FOREIGN KEY constraint failed"

/-- Two rules that differ in their row id only. -/
def ACLRule.SameBody (r r' : ACLRule) : Prop := r' = { r with id := r'.id }

namespace Store

/-- `ACL`: the rules of a network in evaluation order. -/
def acl (s : Store) (networkID : ℤ) : List ACLRule :=
  ((s.aclRules.rows.filter (·.networkID = networkID)).insertionSort
    fun r r' => r.position ≤ r'.position).map (·.rule)

/-- The checks `SetACL` makes on one rule. -/
def checkRule (r : ACLRule) : Option SetACLError :=
  if r.action ≠ "allow" ∧ r.action ≠ "deny" then some (.badAction r.action)
  else if r.protocol ∈ ["", "tcp", "udp", "icmp"] then none
  else some (.unknownProtocol r.protocol)

/-- The insertions of `SetACL`, from position `i` on. -/
def insertRules (networkID : ℤ) : ℕ → List ACLRule →
    AutoTable AclRow (fun r => r.rule.id) (fun _ => (none : Option Unit)) →
    AutoTable AclRow (fun r => r.rule.id) (fun _ => (none : Option Unit))
  | _, [], t => t
  | i, r :: rules, t =>
    insertRules networkID (i + 1) rules
      ((t.insert? (fun id => ⟨networkID, i, { r with id := id }⟩) fun _ => rfl).getD t)

/-- `insertRules` appends one row per rule, numbered from `i`. -/
theorem rows_insertRules (networkID : ℤ) (rules : List ACLRule) (i : ℕ)
    (t : AutoTable AclRow (fun r => r.rule.id) (fun _ => (none : Option Unit))) :
    ∃ new : List AclRow, (insertRules networkID i rules t).rows = t.rows ++ new ∧
      (∀ row ∈ new, row.networkID = networkID) ∧
      new.map (·.position) = List.range' i rules.length ∧
      List.Forall₂ (fun r row => r.SameBody row.rule) rules new := by
  induction rules generalizing i t with
  | nil => exact ⟨[], by simp [insertRules], by simp, rfl, .nil⟩
  | cons r rules ih =>
    -- No column is unique, so the insertion cannot fail.
    have hsome : (t.insert? (fun id => (⟨networkID, i, { r with id := id }⟩ : AclRow))
        fun _ => rfl).isSome := AutoTable.isSome_insert? fun b hb => by cases hb
    obtain ⟨t', ht'⟩ := Option.isSome_iff_exists.mp hsome
    obtain ⟨new, hrows, hnw, hpos, hbody⟩ := ih (i + 1) t'
    refine ⟨⟨networkID, i, { r with id := t.seq + 1 }⟩ :: new, ?_, ?_, ?_, .cons rfl hbody⟩
    · rw [insertRules, ht', Option.getD_some, hrows, AutoTable.rows_insert? ht', List.append_assoc]
      rfl
    · rw [List.forall_mem_cons]
      exact ⟨rfl, hnw⟩
    · rw [List.map_cons, hpos, List.length_cons, List.range'_succ]

/-- `SetACL`. -/
def setACL (s : Store) (networkID : ℤ) (rules : List ACLRule) : Except SetACLError Store :=
  match rules.findSome? checkRule with
  | some e => .error e
  | none =>
    if h : ∃ w ∈ s.networks.rows, w.id = networkID then
      .ok { s with
        aclRules := insertRules networkID 0 rules (s.aclRules.delete (·.networkID = networkID))
        aclRules_fk := fun r hr => by
          obtain ⟨new, hrows, hnw, -⟩ := rows_insertRules networkID rules 0
            (s.aclRules.delete (·.networkID = networkID))
          rw [hrows, List.mem_append] at hr
          rcases hr with hr | hr
          · exact s.aclRules_fk r (AutoTable.mem_delete.mp hr).1
          · rw [hnw r hr]
            exact h }
    else if rules = [] then .ok s else .error .foreignKey

variable {s s' : Store} {networkID : ℤ} {rules : List ACLRule}

/-- An accepted list has passed the checks. -/
theorem checkRule_of_setACL (h : s.setACL networkID rules = .ok s') {r : ACLRule} (hr : r ∈ rules) :
    (r.action = "allow" ∨ r.action = "deny") ∧ r.protocol ∈ ["", "tcp", "udp", "icmp"] := by
  have hnone : rules.findSome? checkRule = none := by
    rw [setACL] at h
    split at h
    · cases h
    · assumption
  have hcheck := List.findSome?_eq_none_iff.mp hnone r hr
  rw [checkRule] at hcheck
  split_ifs at hcheck with hact hproto
  refine ⟨?_, hproto⟩
  by_contra hc
  exact hact (not_or.mp hc)

/-- `SetACL` touches the rules only. -/
theorem nodes_setACL (h : s.setACL networkID rules = .ok s') :
    s'.nodes = s.nodes ∧ s'.networks = s.networks ∧ s'.setupKeys = s.setupKeys ∧
      s'.routeTable = s.routeTable ∧ s'.users = s.users ∧ s'.settings = s.settings := by
  rw [setACL] at h
  split at h
  · cases h
  · split_ifs at h
    all_goals
      obtain rfl := Except.ok.inj h
      exact ⟨rfl, rfl, rfl, rfl, rfl, rfl⟩

theorem acl_congr {w : ℤ} (h : s'.aclRules = s.aclRules) : s'.acl w = s.acl w := by
  rw [acl, h]
  rfl

/-- The rules of the other networks stay. -/
theorem acl_setACL_of_ne (h : s.setACL networkID rules = .ok s') {w : ℤ} (hw : w ≠ networkID) :
    s'.acl w = s.acl w := by
  rw [setACL] at h
  split at h
  · cases h
  split_ifs at h
  · obtain rfl := Except.ok.inj h
    obtain ⟨new, hrows, hnw, -⟩ := rows_insertRules networkID rules 0
      (s.aclRules.delete (·.networkID = networkID))
    have hnew : new.filter (·.networkID = w) = [] := by
      rw [List.filter_eq_nil_iff]
      intro r hr
      simp [hnw r hr, Ne.symm hw]
    have hold : (s.aclRules.delete (·.networkID = networkID)).rows.filter (·.networkID = w) =
        s.aclRules.rows.filter (·.networkID = w) := by
      rw [AutoTable.rows_delete, List.filter_filter]
      refine List.filter_congr ?_
      intro r _
      by_cases hr : r.networkID = w
      · simp [hr, hw]
      · simp [hr]
    rw [acl, hrows, List.filter_append, hnew, hold, List.append_nil]
    rfl
  · obtain rfl := Except.ok.inj h
    rfl

/-- **Read after write.** The rules of the network are those that were saved, in their order. -/
theorem acl_setACL (h : s.setACL networkID rules = .ok s') :
    List.Forall₂ ACLRule.SameBody rules (s'.acl networkID) := by
  rw [setACL] at h
  split at h
  · cases h
  split_ifs at h with hfk hnil
  · obtain rfl := Except.ok.inj h
    obtain ⟨new, hrows, hnw, hpos, hbody⟩ := rows_insertRules networkID rules 0
      (s.aclRules.delete (·.networkID = networkID))
    have hold : (s.aclRules.delete (·.networkID = networkID)).rows.filter
        (·.networkID = networkID) = [] := by
      rw [List.filter_eq_nil_iff]
      intro r hr
      have := (AutoTable.mem_delete.mp hr).2
      simpa using this
    have hnew : new.filter (·.networkID = networkID) = new :=
      List.filter_eq_self.mpr fun r hr => by simpa using hnw r hr
    have hsorted : new.Pairwise fun r r' => r.position ≤ r'.position := by
      have hrange : (new.map (·.position)).Pairwise (· ≤ ·) :=
        hpos ▸ (List.pairwise_lt_range').imp le_of_lt
      exact List.pairwise_map.mp hrange
    rw [acl, hrows, List.filter_append, hold, hnew, List.nil_append, hsorted.insertionSort_eq]
    exact List.forall₂_map_right_iff.mpr hbody
  · obtain rfl := Except.ok.inj h
    -- The network does not exist, so it has no rules either.
    have hrows : s.aclRules.rows.filter (·.networkID = networkID) = [] := by
      rw [List.filter_eq_nil_iff]
      intro r hr hid
      obtain ⟨w, hw, hwr⟩ := s.aclRules_fk r hr
      exact hfk ⟨w, hw, hwr.trans (by simpa using hid)⟩
    rw [acl, hrows, hnil]
    exact .nil

end Store

end OverMesh
