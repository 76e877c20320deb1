import OverMesh.Store.Basic

/-!
# Accounts

The users of `internal/store`. An account is its row without the password hash. Passwords go through
`bcrypt`, of which only what the package promises is assumed: which passwords it hashes, and that a
password matches its hash.

## Main definitions

* `Bcrypt` — the hash functions
* `Store.createUser`, `checkPassword`, `setUserRole`, `setUserDisabled`, `setUserPassword`,
  `deleteUser`, `ensureAdminUser`
* `Store.Backs` — the row of an account is enabled and has at least the role of a copy of it

## Main results

* `checkPassword_createUser` — a new account can log in
* `backs_of_checkPassword`, `backs_of_createUser` — what a login returns is backed by its row
* `Backs.setUserRole`, `Backs.setUserDisabled`, `Backs.deleteUser` — what it takes to stay backed
-/

namespace OverMesh

open GoText

/-- `golang.org/x/crypto/bcrypt`. `generate` takes the salt the random generator returned. -/
structure Bcrypt where
  generate : List UInt8 → String → Option String
  compare : String → String → Bool
  /-- Passwords of more than 72 bytes are refused. -/
  generate_isSome : ∀ salt password,
    (generate salt password).isSome ↔ password.utf8ByteSize ≤ 72
  compare_generate : ∀ salt password hash,
    generate salt password = some hash → compare hash password = true

/-- The check `role != RoleAdmin && role != RoleMember`. -/
def Role.parse (role : String) : Option Role :=
  if role = "admin" then some .admin else if role = "member" then some .member else none

theorem Role.parse_eq_member_iff {role : String} :
    Role.parse role = some .member ↔ role = "member" := by
  rw [Role.parse]
  split_ifs with hadmin hmember
  · simp [hadmin]
  · simp [hmember]
  · simp [hmember]

/-- An account. -/
structure User where
  id : ℤ
  username : String
  role : Role
  disabled : Bool
  createdAt : ℤ
  deriving DecidableEq

/-- `scanUser`. -/
def UserRow.user (r : UserRow) : User := ⟨r.id, r.username, r.role, r.disabled, r.createdAt⟩

/-- Why a statement about accounts fails. `hash` is an error of `bcrypt`, `constraint` one of the
database. -/
inductive UserError where
  | badUsername
  | badRole (role : String)
  | shortPassword
  | hash
  | taken (username : String)
  | constraint
  | notFound
  | disabled
  | wrongPassword
  deriving DecidableEq

/-- The text of an error. `quote` is the `%q` verb, `hash` and `constraint` are the texts of
`bcrypt` and of the database. -/
def UserError.message (quote : String → String) (hash constraint : String) : UserError → String
  | .badUsername => "usernames are 1-32 chars: a-z 0-9 . _ - (must start alphanumeric)"
  | .badRole role => s!"bad role {quote role}"
  | .shortPassword => "password must be at least 8 characters"
  | .hash => hash
  | .taken username => s!"username {quote username} is taken"
  | .constraint => constraint
  | .notFound => "store: not found"
  | .disabled => "account is disabled"
  | .wrongPassword => "wrong password"

/-! ### User names -/

/-- `[a-z0-9]`. -/
def usernameFirst (c : Char) : Bool := 'a' ≤ c ∧ c ≤ 'z' ∨ '0' ≤ c ∧ c ≤ '9'

/-- `[a-z0-9._-]`. -/
def usernameRest (c : Char) : Bool := usernameFirst c ∨ c = '.' ∨ c = '_' ∨ c = '-'

/-- `usernameRe`. -/
def usernameRe : List Char → Bool
  | [] => false
  | c :: cs => usernameFirst c && cs.length ≤ 31 && cs.all usernameRest

/-- `NormalizeUsername`. -/
def normalizeUsername (u : String) : Option String :=
  if usernameRe ((trimSpace u.toList).map toLower) then
    some (String.ofList ((trimSpace u.toList).map toLower))
  else none

namespace Store

/-! ### Settings -/

/-- `Setting`. -/
def setting (s : Store) (key : String) : Option String := s.settings.lookup key

/-- `SetSetting`. -/
def setSetting (s : Store) (key value : String) : Store :=
  { s with settings := s.settings.insert key value }

/-! ### The statements -/

/-- The insertion of `CreateUser` and of `createUserWithHash`. `none` is a taken user name. -/
def insertUser (s : Store) (now : ℤ) (username hash : String) (role : Role) :
    Option (Store × User) :=
  (s.users.insert? (fun id => ⟨id, username, hash, role, false, unixSeconds now⟩)
    fun _ => rfl).map fun t =>
      ({ s with users := t }, ⟨s.users.seq + 1, username, role, false, unixSeconds now⟩)

/-- What `bcrypt.GenerateFromPassword` returns when the random generator returns `raw`. -/
def hashPassword (b : Bcrypt) (raw : Option (List UInt8)) (password : String) : Option String :=
  raw.bind fun salt => b.generate salt password

/-- `CreateUser`. -/
def createUser (s : Store) (b : Bcrypt) (now : ℤ) (raw : Option (List UInt8))
    (username password role : String) : Except UserError (Store × User) :=
  match normalizeUsername username with
  | none => .error .badUsername
  | some username =>
    match Role.parse role with
    | none => .error (.badRole role)
    | some r =>
      if password.utf8ByteSize < 8 then .error .shortPassword
      else match hashPassword b raw password with
        | none => .error .hash
        | some hash =>
          match s.insertUser now username hash r with
          | none => .error (.taken username)
          | some res => .ok res

/-- `createUserWithHash`. -/
def createUserWithHash (s : Store) (now : ℤ) (username hash : String) (role : Role) :
    Except UserError (Store × User) :=
  match s.insertUser now username hash role with
  | none => .error .constraint
  | some res => .ok res

/-- `UserByName`. -/
def userByName (s : Store) (username : String) : Option User :=
  (s.users.byUniq username).map UserRow.user

/-- `UserByID`. -/
def userByID (s : Store) (id : ℤ) : Option User := (s.users.byId id).map UserRow.user

/-- `AdminCount`. -/
def adminCount (s : Store) : ℕ := s.users.rows.countP fun r => r.role = .admin ∧ r.disabled = false

/-- `CheckPassword`. -/
def checkPassword (s : Store) (b : Bcrypt) (username password : String) : Except UserError User :=
  match normalizeUsername username with
  | none => .error .badUsername
  | some username =>
    match s.users.byUniq username with
    | none => .error .notFound
    | some r =>
      if r.disabled then .error .disabled
      else if b.compare r.passwordHash password then .ok r.user
      else .error .wrongPassword

/-- An `UPDATE users SET … WHERE id = ?`. No row is `ErrNotFound`. -/
def updateUser (s : Store) (id : ℤ) (f : UserRow → UserRow) (hid : ∀ r, (f r).id = r.id)
    (hname : ∀ r, (f r).username = r.username) : Except UserError Store :=
  if s.users.byId id = none then .error .notFound
  else .ok { s with users := s.users.update (·.id = id) f hid fun r => by rw [hname] }

/-- `SetUserDisabled`. -/
def setUserDisabled (s : Store) (id : ℤ) (disabled : Bool) : Except UserError Store :=
  s.updateUser id ({ · with disabled := disabled }) (fun _ => rfl) fun _ => rfl

/-- `SetUserRole`. -/
def setUserRole (s : Store) (id : ℤ) (role : String) : Except UserError Store :=
  match Role.parse role with
  | none => .error (.badRole role)
  | some r => s.updateUser id ({ · with role := r }) (fun _ => rfl) fun _ => rfl

/-- `SetUserPassword`. -/
def setUserPassword (s : Store) (b : Bcrypt) (raw : Option (List UInt8)) (id : ℤ)
    (password : String) : Except UserError Store :=
  if password.utf8ByteSize < 8 then .error .shortPassword
  else match hashPassword b raw password with
    | none => .error .hash
    | some hash => s.updateUser id ({ · with passwordHash := hash }) (fun _ => rfl) fun _ => rfl

/-- `DeleteUser`. -/
def deleteUser (s : Store) (id : ℤ) : Except UserError Store :=
  if s.users.byId id = none then .error .notFound
  else .ok { s with users := s.users.delete (·.id = id) }

/-- `EnsureAdminUser`. The result says whether a password has to be generated. -/
def ensureAdminUser (s : Store) (b : Bcrypt) (now : ℤ) (raw : Option (List UInt8))
    (explicitPassword legacyHash : String) : Except UserError (Bool × Store) :=
  if explicitPassword ≠ "" then
    match s.userByName "admin" with
    | none =>
      (s.createUser b now raw "admin" explicitPassword "admin").map fun res => (false, res.1)
    | some u => (s.setUserPassword b raw u.id explicitPassword).map (false, ·)
  else if 0 < s.adminCount then .ok (false, s)
  else if legacyHash ≠ "" then
    (s.createUserWithHash now "admin" legacyHash .admin).map fun res => (false, res.1)
  else .ok (true, s)

/-! ### What the statements do -/

section Spec

variable {s s' : Store} {b : Bcrypt} {now id : ℤ} {raw : Option (List UInt8)}
  {username password role hash : String} {u : User}

theorem insertUser_spec {r : Role} (h : s.insertUser now username hash r = some (s', u)) :
    ∃ row : UserRow, s'.users.rows = s.users.rows ++ [row] ∧ row.user = u ∧
      row.username = username ∧ row.passwordHash = hash ∧ row.disabled = false := by
  obtain ⟨t, ht, heq⟩ := Option.map_eq_some_iff.mp h
  obtain ⟨rfl, rfl⟩ := Prod.mk.inj heq
  exact ⟨_, AutoTable.rows_insert? ht, rfl, rfl, rfl, rfl⟩

/-- A created account is a new row with the normalised name and the hash of the password. -/
theorem createUser_ok (h : s.createUser b now raw username password role = .ok (s', u)) :
    ∃ (name : String) (salt : List UInt8) (row : UserRow), normalizeUsername username = some name ∧
      b.generate salt password = some row.passwordHash ∧
      s'.users.rows = s.users.rows ++ [row] ∧ row.user = u ∧ row.username = name ∧
      row.disabled = false := by
  rw [createUser] at h
  cases hname : normalizeUsername username with
  | none => simp [hname] at h
  | some name =>
    cases hrole : Role.parse role with
    | none => simp [hname, hrole] at h
    | some r =>
      simp only [hname, hrole] at h
      split_ifs at h
      cases hhash : hashPassword b raw password with
      | none => simp [hhash] at h
      | some hash =>
        cases hins : s.insertUser now name hash r with
        | none => simp [hhash, hins] at h
        | some res =>
          simp only [hhash, hins, Except.ok.injEq] at h
          subst h
          obtain ⟨salt, -, hsalt⟩ := Option.bind_eq_some_iff.mp hhash
          obtain ⟨row, hrows, hu, hn, hh, hd⟩ := insertUser_spec hins
          exact ⟨name, salt, row, rfl, hh ▸ hsalt, hrows, hu, hn, hd⟩

theorem updateUser_ok {f : UserRow → UserRow} {hid hname}
    (h : s.updateUser id f hid hname = .ok s') :
    s'.users.rows = s.users.rows.map fun r => if r.id = id then f r else r := by
  rw [updateUser] at h
  split_ifs at h
  obtain rfl := Except.ok.inj h
  simp [AutoTable.rows_update]

/-- The account a successful login returns has an enabled row. -/
theorem checkPassword_ok (h : s.checkPassword b username password = .ok u) :
    ∃ row ∈ s.users.rows, row.user = u ∧ row.disabled = false := by
  rw [checkPassword] at h
  split at h
  · cases h
  · split at h
    · cases h
    · next row hrow =>
      split_ifs at h with hdisabled hcompare
      obtain rfl := Except.ok.inj h
      exact ⟨row, (AutoTable.byUniq_eq_some_iff.mp hrow).1, rfl, by simpa using hdisabled⟩

/-- **A new account can log in** with the credentials it was created with. -/
theorem checkPassword_createUser (h : s.createUser b now raw username password role = .ok (s', u)) :
    s'.checkPassword b username password = .ok u := by
  obtain ⟨name, salt, row, hname, hhash, hrows, rfl, rfl, hdisabled⟩ := createUser_ok h
  have hrow : s'.users.byUniq row.username = some row := by
    refine AutoTable.byUniq_eq_some_iff.mpr ⟨?_, rfl⟩
    rw [hrows]
    exact List.mem_append_right _ (List.mem_singleton_self row)
  simp [checkPassword, hname, hrow, hdisabled, b.compare_generate salt password _ hhash]

end Spec

/-! ### Copies of an account -/

/-- The row of the account is enabled and has at least the role the copy `u` says. -/
def Backs (s : Store) (u : User) : Prop :=
  ∃ r ∈ s.users.rows, r.id = u.id ∧ r.disabled = false ∧ (u.role = .admin → r.role = .admin)

section Backs

variable {s s' : Store} {b : Bcrypt} {now id : ℤ} {raw : Option (List UInt8)}
  {username password role : String} {u v : User}

theorem backs_of_row {r : UserRow} (hr : r ∈ s.users.rows) (hdisabled : r.disabled = false) :
    s.Backs r.user :=
  ⟨r, hr, rfl, hdisabled, fun h => h⟩

theorem backs_of_checkPassword (h : s.checkPassword b username password = .ok u) : s.Backs u := by
  obtain ⟨row, hrow, rfl, hdisabled⟩ := checkPassword_ok h
  exact backs_of_row hrow hdisabled

theorem backs_of_createUser (h : s.createUser b now raw username password role = .ok (s', u)) :
    s'.Backs u := by
  obtain ⟨-, -, row, -, -, hrows, rfl, -, hdisabled⟩ := createUser_ok h
  refine backs_of_row ?_ hdisabled
  rw [hrows]
  exact List.mem_append_right _ (List.mem_singleton_self row)

namespace Backs

theorem mono (h : s.Backs u) (hrows : ∀ r ∈ s.users.rows, r ∈ s'.users.rows) : s'.Backs u := by
  obtain ⟨r, hr, hrest⟩ := h
  exact ⟨r, hrows r hr, hrest⟩

theorem createUser (h : s.Backs u)
    (hs : s.createUser b now raw username password role = .ok (s', v)) : s'.Backs u := by
  obtain ⟨-, -, row, -, -, hrows, -⟩ := createUser_ok hs
  refine h.mono ?_
  intro r hr
  rw [hrows]
  exact List.mem_append_left _ hr

/-- An update keeps a copy backed if the assignment does so on the row of the copy. -/
theorem updateUser {f : UserRow → UserRow} {hid hname} (h : s.Backs u)
    (hs : s.updateUser id f hid hname = .ok s')
    (hf : u.id = id → ∀ r, r.disabled = false → (u.role = .admin → r.role = .admin) →
      (f r).disabled = false ∧ (u.role = .admin → (f r).role = .admin)) : s'.Backs u := by
  obtain ⟨r, hr, hrid, hdisabled, hrole⟩ := h
  refine ⟨if r.id = id then f r else r, ?_, ?_⟩
  · rw [updateUser_ok hs]
    exact List.mem_map_of_mem hr
  · split_ifs with hi
    · exact ⟨(hid r).trans hrid, hf (hrid.symm.trans hi) r hdisabled hrole⟩
    · exact ⟨hrid, hdisabled, hrole⟩

theorem setUserPassword (h : s.Backs u) (hs : s.setUserPassword b raw id password = .ok s') :
    s'.Backs u := by
  rw [Store.setUserPassword] at hs
  split_ifs at hs
  split at hs
  · cases hs
  · exact h.updateUser hs fun _ _ hdisabled hrole => ⟨hdisabled, hrole⟩

/-- A new role is no demotion of the copy. -/
theorem setUserRole (h : s.Backs u) (hs : s.setUserRole id role = .ok s')
    (hrole : Role.parse role = some .member → u.id = id → u.role ≠ .admin) : s'.Backs u := by
  rw [Store.setUserRole] at hs
  split at hs
  · cases hs
  · next r hr =>
    refine h.updateUser hs fun hu _ hdisabled _ => ⟨hdisabled, ?_⟩
    intro hadmin
    cases r with
    | admin => rfl
    | member => exact absurd hadmin (hrole hr hu)

/-- The account of the copy is not the one that is disabled. -/
theorem setUserDisabled {disabled : Bool} (h : s.Backs u)
    (hs : s.setUserDisabled id disabled = .ok s') (hne : disabled = true → u.id ≠ id) :
    s'.Backs u := by
  rw [Store.setUserDisabled] at hs
  refine h.updateUser hs fun hu _ _ hrole => ⟨?_, hrole⟩
  exact Bool.eq_false_iff.mpr fun htrue => hne htrue hu

/-- The account of the copy is not the one that is deleted. -/
theorem deleteUser (h : s.Backs u) (hs : s.deleteUser id = .ok s') (hne : u.id ≠ id) :
    s'.Backs u := by
  rw [Store.deleteUser] at hs
  split_ifs at hs
  obtain rfl := Except.ok.inj hs
  obtain ⟨r, hr, hrid, hrest⟩ := h
  exact ⟨r, AutoTable.mem_delete.mpr ⟨hr, by simpa [hrid] using hne⟩, hrid, hrest⟩

end Backs

end Backs

end Store

end OverMesh
