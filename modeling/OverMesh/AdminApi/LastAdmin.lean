import OverMesh.AdminApi.Sessions

/-!
# The last administrator

`handleUpdateUser` and `handleDeleteUser` refuse to demote, disable or delete the last enabled
administrator. They count first and act in a later statement, so the count may be out of date by
then. How far it may be is followed here by a record beside the machine: what a request found when
it looked, less what was taken away since.

## Main definitions

* `Task.takes` — the next statement takes an enabled administrator away
* `Watched`, `Watched.step` — the machine with the record
* `Covered` — what a request found still covers what it takes

## Main results

* `adminCount_exec` — a statement takes at most one enabled administrator, and only if it `takes`
* `exists_admin_run` — **in a run of covered statements there is always an enabled administrator**
-/

namespace OverMesh

open Runs

/-- The row is that of an enabled administrator. -/
def UserRow.enabledAdmin (r : UserRow) : Bool := r.role = .admin ∧ r.disabled = false

namespace Store

/-- The account is an enabled administrator. -/
def enabledAdmin (s : Store) (id : ℤ) : Bool := (s.users.byId id).any UserRow.enabledAdmin

section Count

variable {s s' : Store} {id : ℤ}

theorem adminCount_eq (s : Store) (id : ℤ) :
    s.adminCount = (s.users.rows.filter (·.id ≠ id)).countP UserRow.enabledAdmin +
      (s.enabledAdmin id).toNat := by
  refine (s.users.countP_eq_add UserRow.enabledAdmin id).trans ?_
  rw [enabledAdmin]
  cases s.users.byId id with
  | none => rfl
  | some r => cases h : r.enabledAdmin <;> simp [h]

theorem exists_admin_iff :
    (∃ r ∈ s.users.rows, r.role = .admin ∧ r.disabled = false) ↔ 0 < s.adminCount := by
  rw [adminCount, List.countP_pos_iff]
  simp

/-- An update changes the count by what it makes of its row. -/
theorem adminCount_updateUser {f : UserRow → UserRow} {hid hname}
    (h : s.updateUser id f hid hname = .ok s') : ∃ r, s.users.byId id = some r ∧
      s'.adminCount + r.enabledAdmin.toNat = s.adminCount + (f r).enabledAdmin.toNat := by
  have hrows := updateUser_ok h
  rw [updateUser] at h
  split_ifs at h with hnone
  obtain ⟨r, hr⟩ := Option.ne_none_iff_exists'.mp hnone
  have hr' : s'.users.byId id = some (f r) := by
    obtain ⟨hmem, hrid⟩ := AutoTable.byId_eq_some_iff.mp hr
    refine AutoTable.byId_eq_some_iff.mpr ⟨?_, (hid r).trans hrid⟩
    rw [hrows]
    exact List.mem_map.mpr ⟨r, hmem, by rw [if_pos hrid]⟩
  have hothers : s'.users.rows.filter (·.id ≠ id) = s.users.rows.filter (·.id ≠ id) := by
    rw [hrows]
    refine AutoTable.filter_map_ite ?_
    intro x _ hx
    simp [hid, hx]
  refine ⟨r, hr, ?_⟩
  rw [adminCount_eq s id, adminCount_eq s' id, hothers, enabledAdmin, enabledAdmin, hr, hr']
  simp only [Option.any_some]
  omega

theorem adminCount_deleteUser (h : s.deleteUser id = .ok s') :
    s'.adminCount + (s.enabledAdmin id).toNat = s.adminCount := by
  rw [deleteUser] at h
  split_ifs at h
  obtain rfl := Except.ok.inj h
  rw [adminCount_eq s id, adminCount, AutoTable.rows_delete]
  simp only [decide_not]
  rfl

theorem adminCount_append {row : UserRow} (h : s'.users.rows = s.users.rows ++ [row]) :
    s.adminCount ≤ s'.adminCount := by
  rw [adminCount, adminCount, h, List.countP_append]
  exact Nat.le_add_right _ _

theorem adminCount_createUser {b : Bcrypt} {now : ℤ} {raw : Option (List UInt8)}
    {username password role : String} {u : User}
    (h : s.createUser b now raw username password role = .ok (s', u)) :
    s.adminCount ≤ s'.adminCount := by
  obtain ⟨-, -, row, -, -, hrows, -⟩ := createUser_ok h
  exact adminCount_append hrows

theorem adminCount_setUserPassword {b : Bcrypt} {raw : Option (List UInt8)} {password : String}
    (h : s.setUserPassword b raw id password = .ok s') : s.adminCount = s'.adminCount := by
  rw [setUserPassword] at h
  split_ifs at h
  split at h
  · cases h
  · next hash _ =>
    obtain ⟨r, -, hcount⟩ := adminCount_updateUser h
    exact (Nat.add_right_cancel hcount).symm

/-- Only a role other than `admin` takes an administrator away. -/
theorem adminCount_setUserRole {role : String} (h : s.setUserRole id role = .ok s') :
    s.adminCount ≤ s'.adminCount + (role ≠ "admin" && s.enabledAdmin id).toNat := by
  rw [setUserRole] at h
  split at h
  · cases h
  · next r hr =>
    obtain ⟨row, hrow, hcount⟩ := adminCount_updateUser h
    rw [enabledAdmin, hrow, Option.any_some]
    by_cases hadmin : role = "admin"
    · rw [hadmin, Role.parse, if_pos rfl] at hr
      obtain rfl := Option.some.inj hr
      have hle : row.enabledAdmin.toNat ≤
          (UserRow.enabledAdmin { row with role := Role.admin }).toNat := by
        simp only [UserRow.enabledAdmin]
        cases row.role <;> cases row.disabled <;> decide
      omega
    · simp only [hadmin, ne_eq, not_false_eq_true, decide_true, Bool.true_and]
      omega

/-- Only disabling takes an administrator away. -/
theorem adminCount_setUserDisabled {disabled : Bool} (h : s.setUserDisabled id disabled = .ok s') :
    s.adminCount ≤ s'.adminCount + (disabled && s.enabledAdmin id).toNat := by
  rw [setUserDisabled] at h
  obtain ⟨row, hrow, hcount⟩ := adminCount_updateUser h
  rw [enabledAdmin, hrow, Option.any_some]
  cases disabled with
  | true =>
    rw [Bool.true_and]
    omega
  | false =>
    have hle : row.enabledAdmin.toNat ≤
        (UserRow.enabledAdmin { row with disabled := false }).toNat := by
      simp only [UserRow.enabledAdmin]
      cases row.role <;> cases row.disabled <;> decide
    omega

end Count

end Store

namespace AdminApi

/-! ### What a statement takes -/

/-- The next statement takes an enabled administrator away. -/
def Task.takes (st : Store) : Task → Bool
  | .setRole id req => (req.role.any (· ≠ "admin")) && st.enabledAdmin id
  | .setDisabled id req => req.disabled = some true && st.enabledAdmin id
  | .delete id => st.enabledAdmin id
  | _ => false

/-- The next statement is one of those that decide whether the request may go on. -/
def Task.looks : Task → Bool
  | .updateUser _ _ | .updateCount _ _ | .deleteUser _ | .deleteCount _ => true
  | _ => false

/-- **A statement takes at most one enabled administrator**, and only if it `takes`. -/
theorem adminCount_exec (b : Bcrypt) (a : Api) (now : ℤ) (raw : Option (List UInt8)) (t : Task) :
    a.st.adminCount ≤ (t.exec b a now raw).2.st.adminCount + (t.takes a.st).toNat := by
  cases t with
  | signup req | createUser req =>
    simp only [Task.exec]
    split
    · exact Nat.le_add_right _ _
    · next hst => exact Nat.le_add_right_of_le (Store.adminCount_createUser hst)
  | setRole id req =>
    simp only [Task.exec]
    split
    · exact Nat.le_add_right _ _
    · next role hrole =>
      split
      · exact Nat.le_add_right _ _
      · next st hst =>
        simp only [Task.takes, hrole, Option.any_some]
        exact Store.adminCount_setUserRole hst
  | setDisabled id req =>
    simp only [Task.exec]
    split
    · exact Nat.le_add_right _ _
    · next disabled hdisabled =>
      split
      · exact Nat.le_add_right _ _
      · next st hst =>
        have hle := Store.adminCount_setUserDisabled hst
        simpa [Task.takes, hdisabled] using hle
  | setPassword id req =>
    simp only [Task.exec]
    split
    · exact Nat.le_add_right _ _
    · split
      · exact Nat.le_add_right _ _
      · next st hst => exact (Store.adminCount_setUserPassword hst).le
  | delete id =>
    simp only [Task.exec]
    split
    · exact Nat.le_add_right _ _
    · next st hst => exact (Store.adminCount_deleteUser hst).ge
  | setSignup enabled => exact Nat.le_add_right _ _
  | _ =>
    simp only [Task.exec]
    repeat' split
    all_goals exact Nat.le_add_right _ _

/-! ### The record -/

/-- The machine, and for each request that is being handled how many enabled administrators it may
still count on. -/
structure Watched where
  sys : AdminSystem
  credit : List ℕ

/-- One step. A request that looks finds what is there. What a statement takes is taken from
everyone's credit, what it adds is added to that of its own request. -/
def Watched.step (b : Bcrypt) (w : Watched) (op : AdminOp) : Watched where
  sys := w.sys.step b op
  credit := match op with
    | .exec i raw =>
      match w.sys.tasks[i]? with
      | none => w.credit
      | some t =>
        let before := w.sys.api.st.adminCount
        let after := (t.exec b w.sys.api w.sys.now raw).2.st.adminCount
        let others := w.credit.map (· - (before - after))
        let own := if t.looks then after else w.credit.getD i 0 + after - before
        match (t.exec b w.sys.api w.sys.now raw).1 with
        | .next _ => others.set i own
        | .done _ => others.eraseIdx i
    | .restart _ _ _ => []
    | op => w.credit ++ List.replicate ((w.sys.step b op).tasks.length - w.sys.tasks.length) 0

/-- The record of a state that is looked at for the first time: nothing is known about the requests
that are under way. -/
def Watched.of (s : AdminSystem) : Watched := ⟨s, s.tasks.map fun _ => 0⟩

/-- A statement that takes an enabled administrator away belongs to a request that may count on
another one. -/
def Covered (w : Watched) : AdminOp → Prop
  | .exec i _ => ∀ t ∈ w.sys.tasks[i]?, t.takes w.sys.api.st = true → 2 ≤ w.credit.getD i 0
  | _ => True

instance (w : Watched) : (op : AdminOp) → Decidable (Covered w op)
  | .exec i _ => inferInstanceAs (Decidable
      (∀ t ∈ w.sys.tasks[i]?, t.takes w.sys.api.st = true → 2 ≤ w.credit.getD i 0))
  | .login _ | .signup _ | .logout _ | .createUser _ _ | .updateUser _ _ _ | .deleteUser _ _
  | .signupToggle _ _ | .advance _ | .restart _ _ _ => .isTrue trivial

/-- There is an enabled administrator, and no request counts on more of them than there are. -/
structure AdminInv (w : Watched) : Prop where
  pos : 0 < w.sys.api.st.adminCount
  credit_le : ∀ k ∈ w.credit, k ≤ w.sys.api.st.adminCount

namespace AdminInv

variable {w : Watched}

theorem getD_le (h : AdminInv w) (i : ℕ) : w.credit.getD i 0 ≤ w.sys.api.st.adminCount := by
  rw [List.getD_eq_getElem?_getD]
  cases hi : w.credit[i]? with
  | none => exact Nat.zero_le _
  | some k => exact h.credit_le k (List.mem_of_getElem? hi)

/-- A step that leaves the accounts alone. New requests have not looked yet. -/
theorem of_st_eq (h : AdminInv w) {s : AdminSystem} (hst : s.api.st = w.sys.api.st) (k : ℕ) :
    AdminInv ⟨s, w.credit ++ List.replicate k 0⟩ := by
  refine ⟨by rw [hst]; exact h.pos, ?_⟩
  intro c hc
  rw [hst]
  rcases List.mem_append.mp hc with hc | hc
  · exact h.credit_le c hc
  · rw [List.eq_of_mem_replicate hc]
    exact Nat.zero_le _

theorem exec (h : AdminInv w) (b : Bcrypt) {i : ℕ} {raw : Option (List UInt8)}
    (hop : Covered w (.exec i raw)) : AdminInv (w.step b (.exec i raw)) := by
  cases ht : w.sys.tasks[i]? with
  | none =>
    simp only [Watched.step, AdminSystem.step, ht]
    exact h
  | some t =>
    have hle := adminCount_exec b w.sys.api w.sys.now raw t
    have hown := h.getD_le i
    have hpos : 0 < (t.exec b w.sys.api w.sys.now raw).2.st.adminCount := by
      cases htakes : t.takes w.sys.api.st with
      | false =>
        rw [htakes] at hle
        exact h.pos.trans_le hle
      | true =>
        have hcovered := hop t ht htakes
        rw [htakes, Bool.toNat_true] at hle
        omega
    have hothers : ∀ k ∈ w.credit.map (· - (w.sys.api.st.adminCount -
        (t.exec b w.sys.api w.sys.now raw).2.st.adminCount)),
        k ≤ (t.exec b w.sys.api w.sys.now raw).2.st.adminCount := by
      intro k hk
      obtain ⟨c, hc, rfl⟩ := List.mem_map.mp hk
      have := h.credit_le c hc
      omega
    simp only [Watched.step, AdminSystem.step, ht]
    rcases hexec : t.exec b w.sys.api w.sys.now raw with ⟨o, a⟩
    rw [hexec] at hpos hothers
    cases o with
    | done reply =>
      exact ⟨hpos, fun k hk => hothers k (List.mem_of_mem_eraseIdx hk)⟩
    | next t' =>
      refine ⟨hpos, ?_⟩
      intro k hk
      rcases List.mem_or_eq_of_mem_set hk with hk | rfl
      · exact hothers k hk
      · split_ifs
        · exact le_refl _
        · simp only
          omega

end AdminInv

theorem exists_of_map_eq_ok {ε α β : Type*} {x : Except ε α} {f : α → β} {y : β}
    (h : x.map f = .ok y) : ∃ z, x = .ok z ∧ f z = y := by
  cases x with
  | error e => cases h
  | ok z => exact ⟨z, rfl, Except.ok.inj h⟩

theorem adminCount_ensureAdminUser {st st' : Store} {b : Bcrypt} {now : ℤ}
    {raw : Option (List UInt8)} {explicit legacyHash : String} {fresh : Bool}
    (h : st.ensureAdminUser b now raw explicit legacyHash = .ok (fresh, st')) :
    st.adminCount ≤ st'.adminCount := by
  rw [Store.ensureAdminUser] at h
  split_ifs at h
  · split at h
    · obtain ⟨res, hres, heq⟩ := exists_of_map_eq_ok h
      obtain ⟨rfl, rfl⟩ := Prod.mk.inj heq
      exact Store.adminCount_createUser hres
    · obtain ⟨res, hres, heq⟩ := exists_of_map_eq_ok h
      obtain ⟨rfl, rfl⟩ := Prod.mk.inj heq
      exact (Store.adminCount_setUserPassword hres).le
  · obtain ⟨rfl, rfl⟩ := Prod.mk.inj (Except.ok.inj h)
    exact le_refl _
  · obtain ⟨res, hres, heq⟩ := exists_of_map_eq_ok h
    obtain ⟨rfl, rfl⟩ := Prod.mk.inj heq
    rw [Store.createUserWithHash] at hres
    split at hres
    · cases hres
    · next hins =>
      obtain rfl := Except.ok.inj hres
      obtain ⟨row, hrows, -⟩ := Store.insertUser_spec hins
      exact Store.adminCount_append hrows
  · obtain ⟨rfl, rfl⟩ := Prod.mk.inj (Except.ok.inj h)
    exact le_refl _

/-- Starting the server again takes no administrator away. -/
theorem adminCount_ensureAdminPassword {st st' : Store} {b : Bcrypt} {now : ℤ} {explicit : String}
    {raw raw' : Option (List UInt8)}
    (h : ensureAdminPassword st b now explicit raw raw' = some st') :
    st.adminCount ≤ st'.adminCount := by
  rw [ensureAdminPassword] at h
  split at h
  · cases h
  · next hst =>
    obtain rfl := Option.some.inj h
    exact adminCount_ensureAdminUser hst
  · next st₁ hst =>
    obtain ⟨bytes, -, hcreate⟩ := Option.bind_eq_some_iff.mp h
    split at hcreate
    · cases hcreate
    · next hok =>
      obtain rfl := Option.some.inj hcreate
      exact (adminCount_ensureAdminUser hst).trans (Store.adminCount_createUser hok)

theorem st_spawn (s : AdminSystem) (r : Except ApiError Task) : (s.spawn r).api.st = s.api.st := by
  cases r <;> rfl

theorem AdminInv.step (b : Bcrypt) (w : Watched) (op : AdminOp) (h : AdminInv w)
    (hop : Covered w op) : AdminInv (w.step b op) := by
  cases op with
  | exec i raw => exact h.exec b hop
  | restart explicit raw raw' =>
    refine ⟨?_, by simp [Watched.step]⟩
    simp only [Watched.step, AdminSystem.step, AdminSystem.start]
    cases hst : ensureAdminPassword w.sys.api.st b w.sys.now explicit raw raw' with
    | none => exact h.pos
    | some st => exact h.pos.trans_le (adminCount_ensureAdminPassword hst)
  | login body => exact h.of_st_eq (st_spawn _ _) _
  | signup body => exact h.of_st_eq (st_spawn _ (.ok (.readSignup body))) _
  | createUser cookie body => exact h.of_st_eq (st_spawn _ _) _
  | updateUser cookie pathID body => exact h.of_st_eq (st_spawn _ _) _
  | deleteUser cookie pathID => exact h.of_st_eq (st_spawn _ _) _
  | signupToggle cookie body => exact h.of_st_eq (st_spawn _ _) _
  | logout cookie =>
    refine h.of_st_eq ?_ _
    cases cookie <;> rfl
  | advance d => exact h.of_st_eq (s := w.sys.step b (.advance d)) rfl _

/-- **There is always an enabled administrator**, in every state of every run that starts with one
and in which a statement that takes an enabled administrator away belongs to a request that may
count on another one. -/
theorem exists_admin_run (b : Bcrypt) {s : AdminSystem}
    (hadmin : ∃ r ∈ s.api.st.users.rows, r.role = .admin ∧ r.disabled = false)
    {ops : List AdminOp} (h : Along (Watched.step b) Covered (.of s) ops) :
    ∃ r ∈ (run (AdminSystem.step b) s ops).api.st.users.rows,
      r.role = .admin ∧ r.disabled = false := by
  have hinv : AdminInv (.of s) := ⟨Store.exists_admin_iff.mp hadmin, by simp [Watched.of]⟩
  have hrun := run_induction_along hinv (AdminInv.step b) h
  have hsys : ∀ w op, (Watched.step b w op).sys = w.sys.step b op := fun _ _ => rfl
  rw [Store.exists_admin_iff, show s = (Watched.of s).sys from rfl,
    ← view_run Watched.sys hsys (.of s) ops]
  exact hrun.pos

/-- `root` and `eve` are logged in. -/
def sampleAdmins : AdminSystem :=
  run (AdminSystem.step sampleBcrypt) (.start sampleAccounts 0)
    (sampleLogin "root" [1] ++ sampleLogin "eve" [2])

/-- Each of them asks for the other one to be deleted. -/
def mutualDelete : List AdminOp :=
  [.deleteUser (some "01") "2", .deleteUser (some "02") "1"]

/-- The first request is done before the second one counts. -/
theorem exists_admin_one_by_one :
    ∃ r ∈ (run (AdminSystem.step sampleBcrypt) sampleAdmins
        (mutualDelete ++ [.exec 0 none, .exec 1 none, .exec 0 none, .exec 0 none,
          .exec 0 none])).api.st.users.rows, r.role = .admin ∧ r.disabled = false :=
  exists_admin_run _ (by decide +kernel) (by decide +kernel)

/-- **Both count before either acts**, and no administrator is left. -/
theorem mutual_delete_leaves_none :
    (∃ r ∈ sampleAdmins.api.st.users.rows, r.role = .admin ∧ r.disabled = false) ∧
      ¬ ∃ r ∈ (run (AdminSystem.step sampleBcrypt) sampleAdmins
        (mutualDelete ++ [.exec 0 none, .exec 1 none, .exec 0 none, .exec 1 none,
          .exec 0 none, .exec 0 none])).api.st.users.rows,
        r.role = .admin ∧ r.disabled = false := by
  decide +kernel

end AdminApi

end OverMesh
