import OverMesh.AdminApi.LastAdmin
import OverMesh.AdminApi.UpdateUser

/-!
# Recovering the administrator account

At its start the server calls `EnsureAdminPassword`, with the value of the `-admin-password` flag or
with none. It is to leave behind an administrator who can log in: by the password of the flag, by an
account that was there, by the hash of an older database, or by a password it makes up. All but the
second come down to the account named `admin`, which may be missing, and which may also be there
without being an enabled administrator.

## Main results

* `Store.exists_createUser`, `Store.createUser_of_taken` — when an account can be created
* `Store.checkPassword_setUserPassword` — what a new password does for a login
* `ensureAdminPassword_recovers_iff` — **from which databases the recovery works**
-/

namespace OverMesh

open GoText Store

namespace Store

variable {s : Store} {b : Bcrypt} {now : ℤ} {salt : List UInt8} {name username password : String}

theorem exists_hashPassword (b : Bcrypt) (salt : List UInt8) (h : password.utf8ByteSize ≤ 72) :
    ∃ hash, hashPassword b (some salt) password = some hash :=
  Option.isSome_iff_exists.mp ((b.generate_isSome salt password).mpr h)

/-- An account whose name is free can be inserted. -/
theorem exists_insertUser (hfree : s.users.byUniq name = none) (now : ℤ) (hash : String)
    (r : Role) : ∃ s' u, s.insertUser now name hash r = some (s', u) ∧ u.role = r := by
  have hsome : (s.users.insert? (fun id => ⟨id, name, hash, r, false, unixSeconds now⟩)
      fun _ => rfl).isSome :=
    AutoTable.isSome_insert? fun x hx row hrow hsame =>
      AutoTable.byUniq_eq_none_iff.mp hfree row hrow (hsame.trans hx.symm)
  obtain ⟨t, ht⟩ := Option.isSome_iff_exists.mp hsome
  rw [insertUser, ht]
  exact ⟨_, _, rfl, rfl⟩

theorem insertUser_of_taken {r₀ : UserRow} (htaken : s.users.byUniq name = some r₀) (now : ℤ)
    (hash : String) (r : Role) : s.insertUser now name hash r = none := by
  obtain ⟨hr₀, hname⟩ := AutoTable.byUniq_eq_some_iff.mp htaken
  rw [insertUser, AutoTable.insert?_of_taken hr₀ hname rfl, Option.map_none]

/-- **An account is created** if its name is free and its password fits. -/
theorem exists_createUser {role : String} {r : Role}
    (hname : normalizeUsername username = some name) (hrole : Role.parse role = some r)
    (hfree : s.users.byUniq name = none)
    (hmin : 8 ≤ password.utf8ByteSize) (hmax : password.utf8ByteSize ≤ 72) (b : Bcrypt) (now : ℤ)
    (salt : List UInt8) :
    ∃ s' u, s.createUser b now (some salt) username password role = .ok (s', u) ∧ u.role = r := by
  obtain ⟨hash, hhash⟩ := exists_hashPassword b salt hmax
  obtain ⟨s', u, hins, hu⟩ := exists_insertUser hfree now hash r
  refine ⟨s', u, ?_, hu⟩
  simp only [createUser, hname, hrole, if_neg (not_lt.mpr hmin), hhash, hins]

theorem createUser_of_taken {r₀ : UserRow} (hname : normalizeUsername username = some name)
    (htaken : s.users.byUniq name = some r₀) (b : Bcrypt) (now : ℤ) (raw : Option (List UInt8))
    (password role : String) : ∃ e, s.createUser b now raw username password role = .error e := by
  rw [createUser, hname]
  dsimp only
  split
  · exact ⟨_, rfl⟩
  · split_ifs
    · exact ⟨_, rfl⟩
    · split
      · exact ⟨_, rfl⟩
      · rw [insertUser_of_taken htaken]
        exact ⟨_, rfl⟩

/-- A new account with the role of an administrator can log in, and is enabled. -/
theorem admin_of_createUser {s' : Store} {raw : Option (List UInt8)} {role : String} {u : User}
    (h : s.createUser b now raw username password role = .ok (s', u)) (hu : u.role = .admin) :
    0 < s'.adminCount ∧ s'.checkPassword b username password = .ok u := by
  refine ⟨exists_admin_iff.mp ?_, checkPassword_createUser h⟩
  obtain ⟨r, hr, -, hdisabled, hrole⟩ := backs_of_createUser h
  exact ⟨r, hr, hrole hu, hdisabled⟩

/-- **A new password** opens the account, if it is enabled. -/
theorem checkPassword_setUserPassword {r : UserRow} (hname : normalizeUsername username = some name)
    (hr : s.users.byUniq name = some r) (hmin : 8 ≤ password.utf8ByteSize)
    (hmax : password.utf8ByteSize ≤ 72) (b : Bcrypt) (salt : List UInt8) :
    ∃ s', s.setUserPassword b (some salt) r.id password = .ok s' ∧
      s'.adminCount = s.adminCount ∧
      s'.checkPassword b username password =
        if r.disabled then .error .disabled else .ok r.user := by
  obtain ⟨hash, hhash⟩ := exists_hashPassword b salt hmax
  obtain ⟨hmem, hrname⟩ := AutoTable.byUniq_eq_some_iff.mp hr
  obtain ⟨s', hs', hrow⟩ := exists_updateUser (AutoTable.byId_eq_some_iff.mpr ⟨hmem, rfl⟩)
    ({ · with passwordHash := hash }) (fun _ => rfl) fun _ => rfl
  have hset : s.setUserPassword b (some salt) r.id password = .ok s' := by
    simp only [setUserPassword, if_neg (not_lt.mpr hmin), hhash, hs']
  have hlogin : s'.users.byUniq name = some { r with passwordHash := hash } :=
    AutoTable.byUniq_eq_some_iff.mpr ⟨(AutoTable.byId_eq_some_iff.mp hrow).1, hrname⟩
  refine ⟨s', hset, (adminCount_setUserPassword hset).symm, ?_⟩
  simp only [checkPassword, hname, hlogin, b.compare_generate salt password hash hhash, if_true]
  rfl

end Store

namespace AdminApi

/-- What the recovery is for: there is an enabled administrator, and a password that was given opens
the account `admin`, as an administrator. -/
def Recovered (b : Bcrypt) (explicit : String) (st : Store) : Prop :=
  0 < st.adminCount ∧
    (explicit ≠ "" → ∃ u, st.checkPassword b "admin" explicit = .ok u ∧ u.role = .admin)

theorem normalizeUsername_admin : normalizeUsername "admin" = some "admin" := by decide +kernel

theorem parse_admin : Role.parse "admin" = some .admin := if_pos rfl

section Recovery

variable {st : Store} {b : Bcrypt} {now : ℤ} {explicit : String} {salt : List UInt8}
  {raw raw' : Option (List UInt8)}

/-! ### With a password -/

theorem ensureAdminPassword_of_missing {st' : Store} {u : User} (hexplicit : explicit ≠ "")
    (hfree : st.users.byUniq "admin" = none)
    (hcreate : st.createUser b now raw "admin" explicit "admin" = .ok (st', u)) :
    ensureAdminPassword st b now explicit raw raw' = some st' := by
  rw [ensureAdminPassword, ensureAdminUser, if_pos hexplicit, userByName, hfree]
  simp only [Option.map_none, hcreate, Except.map]

theorem ensureAdminPassword_of_present {st' : Store} {r : UserRow} (hexplicit : explicit ≠ "")
    (hr : st.users.byUniq "admin" = some r)
    (hset : st.setUserPassword b raw r.id explicit = .ok st') :
    ensureAdminPassword st b now explicit raw raw' = some st' := by
  have hid : r.user.id = r.id := rfl
  rw [ensureAdminPassword, ensureAdminUser, if_pos hexplicit, userByName, hr]
  simp only [Option.map_some, hid, hset, Except.map]

/-- With a password, what matters is the account of that name. -/
theorem recovers_explicit_iff (hexplicit : explicit ≠ "") (hmin : 8 ≤ explicit.utf8ByteSize)
    (hmax : explicit.utf8ByteSize ≤ 72) :
    (∃ st', ensureAdminPassword st b now explicit (some salt) raw' = some st' ∧
      Recovered b explicit st') ↔
      ∀ r, st.users.byUniq "admin" = some r → r.role = .admin ∧ r.disabled = false := by
  cases hr : st.users.byUniq "admin" with
  | none =>
    obtain ⟨st', u, hcreate, hu⟩ := exists_createUser normalizeUsername_admin parse_admin hr
      hmin hmax b now salt
    obtain ⟨hcount, hlogin⟩ := admin_of_createUser hcreate hu
    refine ⟨fun _ r h => absurd h (Option.some_ne_none r).symm, fun _ => ?_⟩
    exact ⟨st', ensureAdminPassword_of_missing hexplicit hr hcreate, hcount,
      fun _ => ⟨u, hlogin, hu⟩⟩
  | some r =>
    obtain ⟨st', hset, hcount, hlogin⟩ :=
      checkPassword_setUserPassword normalizeUsername_admin hr hmin hmax b salt
    rw [ensureAdminPassword_of_present hexplicit hr hset]
    constructor
    · rintro ⟨st'', hst, -, hcheck⟩ r' hr'
      obtain rfl := Option.some.inj hst
      obtain rfl := Option.some.inj hr'
      obtain ⟨u, hu, hrole⟩ := hcheck hexplicit
      rw [hlogin] at hu
      split_ifs at hu with hdisabled
      obtain rfl := Except.ok.inj hu
      exact ⟨hrole, by simpa using hdisabled⟩
    · intro h
      obtain ⟨hrole, hdisabled⟩ := h r rfl
      have hadmin : 0 < st.adminCount :=
        exists_admin_iff.mp ⟨r, (AutoTable.byUniq_eq_some_iff.mp hr).1, hrole, hdisabled⟩
      refine ⟨st', rfl, hcount ▸ hadmin, fun _ => ⟨r.user, ?_, hrole⟩⟩
      rw [hlogin, hdisabled]
      rfl

/-! ### Without a password -/

/-- Without a password, an administrator is kept. -/
theorem ensureAdminPassword_of_admin (hcount : 0 < st.adminCount) :
    ensureAdminPassword st b now "" raw raw' = some st := by
  rw [ensureAdminPassword, ensureAdminUser, if_neg (fun h => h rfl), if_pos hcount]

/-- The account `admin` comes from the hash of an older database, or gets a password that is made
up. -/
theorem exists_ensureAdminPassword_of_free (hcount : ¬0 < st.adminCount)
    (hfree : st.users.byUniq "admin" = none) (hlen : salt.length = 12) (b : Bcrypt) (now : ℤ)
    (salt' : List UInt8) :
    ∃ st', ensureAdminPassword st b now "" (some salt) (some salt') = some st' ∧
      0 < st'.adminCount := by
  rw [ensureAdminPassword, ensureAdminUser, if_neg (fun h => h rfl), if_neg hcount]
  by_cases hlegacy : (st.setting "admin_password_hash").getD "" ≠ ""
  · obtain ⟨st', u, hins, hu⟩ := exists_insertUser hfree now
      ((st.setting "admin_password_hash").getD "") .admin
    obtain ⟨row, hrows, hrow, -, -, hdisabled⟩ := insertUser_spec hins
    rw [if_pos hlegacy, createUserWithHash, hins]
    refine ⟨st', rfl, exists_admin_iff.mp ⟨row, ?_, ?_, hdisabled⟩⟩
    · rw [hrows]
      exact List.mem_append_right _ (List.mem_singleton_self row)
    · rw [← hu, ← hrow]
      rfl
  · have hsize : (String.ofList (hexEncode salt)).utf8ByteSize = 24 := by
      rw [utf8ByteSize_hexEncode, hlen]
    obtain ⟨st', u, hcreate, hu⟩ :=
      exists_createUser normalizeUsername_admin parse_admin hfree
        (by omega : 8 ≤ (String.ofList (hexEncode salt)).utf8ByteSize) (by omega) b now salt'
    rw [if_neg hlegacy]
    simp only [Option.bind_some, hcreate]
    exact ⟨st', rfl, (admin_of_createUser hcreate hu).1⟩

theorem ensureAdminPassword_of_taken {r : UserRow} (hcount : ¬0 < st.adminCount)
    (hr : st.users.byUniq "admin" = some r) : ensureAdminPassword st b now "" raw raw' = none := by
  rw [ensureAdminPassword, ensureAdminUser, if_neg (fun h => h rfl), if_neg hcount]
  by_cases hlegacy : (st.setting "admin_password_hash").getD "" ≠ ""
  · rw [if_pos hlegacy, createUserWithHash, insertUser_of_taken hr]
    rfl
  · rw [if_neg hlegacy]
    cases raw with
    | none => rfl
    | some bytes =>
      obtain ⟨e, he⟩ := createUser_of_taken normalizeUsername_admin hr b now raw'
        (String.ofList (hexEncode bytes)) "admin"
      simp only [Option.bind_some, he]

/-- Without a password, an enabled administrator is needed, or the name of the new one. -/
theorem recovers_implicit_iff (hlen : salt.length = 12) (salt' : List UInt8) :
    (∃ st', ensureAdminPassword st b now "" (some salt) (some salt') = some st' ∧
      Recovered b "" st') ↔ 0 < st.adminCount ∨ st.users.byUniq "admin" = none := by
  by_cases hcount : 0 < st.adminCount
  · rw [ensureAdminPassword_of_admin hcount]
    exact ⟨fun _ => .inl hcount, fun _ => ⟨st, rfl, hcount, fun h => absurd rfl h⟩⟩
  · cases hr : st.users.byUniq "admin" with
    | none =>
      obtain ⟨st', hst, hpos⟩ :=
        exists_ensureAdminPassword_of_free hcount hr hlen b now salt'
      exact ⟨fun _ => .inr rfl, fun _ => ⟨st', hst, hpos, fun h => absurd rfl h⟩⟩
    | some r =>
      rw [ensureAdminPassword_of_taken hcount hr]
      simp [hcount]

end Recovery

/-- **From which databases the recovery works.** With a password: unless the name `admin` belongs to
a member or to a disabled account. Without: unless there is no enabled administrator and the name is
taken. -/
theorem ensureAdminPassword_recovers_iff (st : Store) (b : Bcrypt) (now : ℤ) (explicit : String)
    (bytes salt : List UInt8)
    (hsize : explicit = "" ∨ 8 ≤ explicit.utf8ByteSize ∧ explicit.utf8ByteSize ≤ 72)
    (hbytes : explicit = "" → bytes.length = 12) :
    (∃ st', ensureAdminPassword st b now explicit (some bytes) (some salt) = some st' ∧
      0 < st'.adminCount ∧
      (explicit ≠ "" → ∃ u, st'.checkPassword b "admin" explicit = .ok u ∧ u.role = .admin)) ↔
    (explicit ≠ "" → ∀ r, st.users.byUniq "admin" = some r →
      r.role = .admin ∧ r.disabled = false) ∧
    (explicit = "" → 0 < st.adminCount ∨ st.users.byUniq "admin" = none) := by
  by_cases hexplicit : explicit = ""
  · subst hexplicit
    refine (recovers_implicit_iff (hbytes rfl) salt).trans ?_
    exact ⟨fun h => ⟨fun h' => absurd rfl h', fun _ => h⟩, fun h => h.2 rfl⟩
  · obtain ⟨hmin, hmax⟩ := hsize.resolve_left hexplicit
    refine (recovers_explicit_iff hexplicit hmin hmax).trans ?_
    exact ⟨fun h => ⟨fun _ => h, fun h' => absurd h' hexplicit⟩, fun h => h.1 hexplicit⟩

/-- The administrator `root` and the member `mia` get an account `admin` with the given password. -/
theorem ensureAdminPassword_members :
    ∃ st', ensureAdminPassword sampleMembers sampleBcrypt 0 "recovery" (some []) (some []) =
        some st' ∧
      0 < st'.adminCount ∧
      ("recovery" ≠ "" → ∃ u, st'.checkPassword sampleBcrypt "admin" "recovery" = .ok u ∧
        u.role = .admin) := by
  have hfree : sampleMembers.users.byUniq "admin" = none := by decide +kernel
  refine (ensureAdminPassword_recovers_iff sampleMembers sampleBcrypt 0 "recovery" [] []
    (.inr (by decide)) (fun h => absurd h (by decide))).mpr
    ⟨fun _ r h => ?_, fun h => absurd h (by decide)⟩
  rw [hfree] at h
  exact absurd h (Option.some_ne_none r).symm

/-- A member has taken the name `admin`, and there is no administrator. -/
def sampleTaken : Store :=
  match empty.createUser sampleBcrypt 0 (some []) "admin" "password" "member" with
  | .error _ => .empty
  | .ok (s, _) => s

/-- The server does not start on such a database, and with a password for recovery it starts without
an administrator. -/
theorem ensureAdminPassword_taken :
    (ensureAdminPassword sampleTaken sampleBcrypt 0 "" (some (List.replicate 12 0))
        (some [])).isNone = true ∧
      (ensureAdminPassword sampleTaken sampleBcrypt 0 "recovery" (some []) (some [])).map
        Store.adminCount = some 0 := by
  decide +kernel

end AdminApi

end OverMesh
