import OverMesh.Store.Users
import OverMesh.Internal.Runs

/-!
# Sessions

Who an administrative request is made for. A login copies the account into a session that lives for
twelve hours, and `auth` and `admin` decide from that copy. Roles, the disabled flag and the
accounts themselves are changed by other handlers, which do not look at the sessions.

The handlers run concurrently. A request that is being handled is a `Task`, the point in its handler
that comes next; `Task.exec` takes it to the statement after that. A run is any sequence of
requests coming in, tasks taking one step, time passing and the server being restarted.

## Main definitions

* `Api`, `Api.sessionUser`, `Api.auth`, `Api.admin`
* `Task`, `Task.exec` — the handlers, one statement at a time
* `AdminSystem`, `AdminOp`, `AdminSystem.step`
* `Undisturbed` — no account is demoted, disabled or deleted under a live session

## Main results

* `authorized_run` — **in a run that disturbs no session, what passes `auth` and `admin` is made
  for an enabled account and for an enabled administrator**
-/

namespace OverMesh

open GoText Runs

namespace AdminApi

/-! ### Requests and replies -/

/-- The error replies. -/
inductive ApiError where
  | badBody
  | badUserID
  | noSuchUser
  | demoteLastAdmin
  | deleteLastAdmin
  | refused (e : UserError)
  | internal (e : UserError)
  | wrongCredentials
  | signupDisabled
  | entropy
  | notLoggedIn
  | adminRequired
  deriving DecidableEq

namespace ApiError

/-- The status of a reply. -/
def status : ApiError → ℕ
  | .badBody | .badUserID | .refused _ => 400
  | .wrongCredentials | .notLoggedIn => 401
  | .adminRequired => 403
  | .noSuchUser | .signupDisabled => 404
  | .demoteLastAdmin | .deleteLastAdmin => 409
  | .internal _ | .entropy => 500

/-- The text of a reply. -/
def message (quote : String → String) (hash constraint : String) : ApiError → String
  | .badBody => "bad request body"
  | .badUserID => "bad user id"
  | .noSuchUser => "no such user"
  | .demoteLastAdmin => "cannot demote or disable the last admin"
  | .deleteLastAdmin => "cannot delete the last admin"
  | .refused e | .internal e => e.message quote hash constraint
  | .wrongCredentials => "wrong username or password"
  | .signupDisabled => "signup is disabled on this server"
  | .entropy => "entropy failure"
  | .notLoggedIn => "not logged in"
  | .adminRequired => "admin access required"

end ApiError

/-- The other replies. -/
inductive Reply where
  | ok
  | account (username : String) (role : Role)
  | user (u : User)
  | signup (enabled : Bool)

/-- The body of a login and of a signup. -/
structure Credentials where
  username : String
  password : String

/-- The body of `POST /api/users`. -/
structure CreateRequest where
  username : String
  password : String
  role : String

/-- The body of `PUT /api/users/{id}`. -/
structure UpdateRequest where
  role : Option String
  disabled : Option Bool
  password : Option String

/-- The request takes the role of an administrator away or disables the account. -/
def UpdateRequest.demoting (req : UpdateRequest) : Bool :=
  (req.role.any (· ≠ "admin")) || req.disabled = some true

/-! ### Sessions -/

/-- `sessionTTL`. -/
def sessionTTL : ℤ := 12 * 3600 * 10 ^ 9

/-- `session`. -/
structure Session where
  user : User
  exp : ℤ

/-- `API`. -/
structure Api where
  st : Store
  sessions : List (String × Session)

namespace Api

/-- `gcSessionsLocked`. -/
def gcSessionsLocked (a : Api) (now : ℤ) : Api :=
  { a with sessions := a.sessions.filter fun e => ¬ e.2.exp < now }

/-- `startSession`. `raw` is what the random generator returned. -/
def startSession (a : Api) (now : ℤ) (raw : List UInt8) (u : User) : Api :=
  let token := String.ofList (hexEncode raw)
  let a := a.gcSessionsLocked now
  { a with sessions := (token, ⟨u, now + sessionTTL⟩) :: a.sessions.filter (·.1 ≠ token) }

/-- `handleLogout`. -/
def handleLogout (a : Api) (cookie : Option String) : Api :=
  match cookie with
  | none => a
  | some token => { a with sessions := a.sessions.filter (·.1 ≠ token) }

/-- `sessionUser`. -/
def sessionUser (a : Api) (now : ℤ) (cookie : Option String) : Option User :=
  match cookie with
  | none => none
  | some token =>
    match a.sessions.find? (·.1 = token) with
    | none => none
    | some e => if e.2.exp < now then none else some e.2.user

/-- `auth`. -/
def auth (a : Api) (now : ℤ) (cookie : Option String) : Except ApiError User :=
  match a.sessionUser now cookie with
  | none => .error .notLoggedIn
  | some u => .ok u

/-- `admin`. -/
def admin (a : Api) (now : ℤ) (cookie : Option String) : Except ApiError User :=
  match a.sessionUser now cookie with
  | none => .error .notLoggedIn
  | some u => if u.role ≠ .admin then .error .adminRequired else .ok u

/-- `signupEnabled`. -/
def signupEnabled (a : Api) : Bool := a.st.setting "signup_enabled" = some "1"

/-- The copies of accounts that live sessions hold. -/
def copies (a : Api) (now : ℤ) : List User :=
  (a.sessions.filter fun e => ¬ e.2.exp < now).map (·.2.user)

end Api

/-! ### The handlers -/

/-- A request that is being handled, as the point of its handler that comes next. -/
inductive Task where
  /-- `handleLogin` before `CheckPassword`. -/
  | checkPassword (req : Credentials)
  /-- `handleLogin` and `handleSignup` before `startSession`. -/
  | startSession (u : User)
  /-- `handleSignup` before it reads the toggle. -/
  | readSignup (body : Option Credentials)
  | signup (req : Credentials)
  | createUser (req : CreateRequest)
  /-- `handleUpdateUser` before `UserByID`. -/
  | updateUser (id : ℤ) (req : UpdateRequest)
  /-- `handleUpdateUser` before `AdminCount`. -/
  | updateCount (id : ℤ) (req : UpdateRequest)
  | setRole (id : ℤ) (req : UpdateRequest)
  | setDisabled (id : ℤ) (req : UpdateRequest)
  | setPassword (id : ℤ) (req : UpdateRequest)
  /-- `handleDeleteUser` before `UserByID`. -/
  | deleteUser (id : ℤ)
  /-- `handleDeleteUser` before `AdminCount`. -/
  | deleteCount (id : ℤ)
  | delete (id : ℤ)
  | setSignup (enabled : Bool)

/-- Where a task gets to. -/
inductive Outcome where
  | next (t : Task)
  | done (reply : Except ApiError Reply)

/-- One statement of a handler. `raw` is what the random generator returns. -/
def Task.exec (b : Bcrypt) (a : Api) (now : ℤ) (raw : Option (List UInt8)) : Task → Outcome × Api
  | .checkPassword req =>
    match a.st.checkPassword b req.username req.password with
    | .error _ => (.done (.error .wrongCredentials), a)
    | .ok u => (.next (.startSession u), a)
  | .startSession u =>
    match raw with
    | none => (.done (.error .entropy), a)
    | some raw => (.done (.ok (.account u.username u.role)), a.startSession now raw u)
  | .readSignup body =>
    if a.signupEnabled then
      match body with
      | none => (.done (.error .badBody), a)
      | some req => (.next (.signup req), a)
    else (.done (.error .signupDisabled), a)
  | .signup req =>
    match a.st.createUser b now raw req.username req.password "member" with
    | .error e => (.done (.error (.refused e)), a)
    | .ok (st, u) => (.next (.startSession u), { a with st := st })
  | .createUser req =>
    match a.st.createUser b now raw req.username req.password
        (if req.role = "" then "member" else req.role) with
    | .error e => (.done (.error (.refused e)), a)
    | .ok (st, u) => (.done (.ok (.user u)), { a with st := st })
  | .updateUser id req =>
    match a.st.userByID id with
    | none => (.done (.error .noSuchUser), a)
    | some target =>
      if target.role = .admin ∧ req.demoting then (.next (.updateCount id req), a)
      else (.next (.setRole id req), a)
  | .updateCount id req =>
    if a.st.adminCount ≤ 1 then (.done (.error .demoteLastAdmin), a)
    else (.next (.setRole id req), a)
  | .setRole id req =>
    match req.role with
    | none => (.next (.setDisabled id req), a)
    | some role =>
      match a.st.setUserRole id role with
      | .error e => (.done (.error (.refused e)), a)
      | .ok st => (.next (.setDisabled id req), { a with st := st })
  | .setDisabled id req =>
    match req.disabled with
    | none => (.next (.setPassword id req), a)
    | some disabled =>
      match a.st.setUserDisabled id disabled with
      | .error e => (.done (.error (.refused e)), a)
      | .ok st => (.next (.setPassword id req), { a with st := st })
  | .setPassword id req =>
    match req.password with
    | none => (.done (.ok .ok), a)
    | some password =>
      match a.st.setUserPassword b raw id password with
      | .error e => (.done (.error (.refused e)), a)
      | .ok st => (.done (.ok .ok), { a with st := st })
  | .deleteUser id =>
    match a.st.userByID id with
    | none => (.done (.error .noSuchUser), a)
    | some target =>
      if target.role = .admin then (.next (.deleteCount id), a) else (.next (.delete id), a)
  | .deleteCount id =>
    if a.st.adminCount ≤ 1 then (.done (.error .deleteLastAdmin), a) else (.next (.delete id), a)
  | .delete id =>
    match a.st.deleteUser id with
    | .error e => (.done (.error (.internal e)), a)
    | .ok st => (.done (.ok .ok), { a with st := st })
  | .setSignup enabled =>
    (.done (.ok (.signup enabled)),
      { a with st := a.st.setSetting "signup_enabled" (if enabled then "1" else "0") })

namespace Api

variable (a : Api) (now : ℤ) (cookie : Option String)

/-- `ParseInt` of the path value `id`. -/
def userID (pathID : String) : Except ApiError ℤ :=
  match parseInt 64 pathID.toList with
  | none => .error .badUserID
  | some id => .ok id

/-- The decoded body. `none` is a body that is not what the handler decodes. -/
def decoded {α : Type} : Option α → Except ApiError α
  | none => .error .badBody
  | some req => .ok req

/-- `handleLogin`, up to the first statement. -/
def handleLogin (body : Option Credentials) : Except ApiError Task := do
  let req ← decoded body
  return .checkPassword ⟨if req.username = "" then "admin" else req.username, req.password⟩

/-- `handleCreateUser`, up to the first statement. -/
def handleCreateUser (body : Option CreateRequest) : Except ApiError Task := do
  let _ ← a.admin now cookie
  return .createUser (← decoded body)

/-- `handleUpdateUser`, up to the first statement. -/
def handleUpdateUser (pathID : String) (body : Option UpdateRequest) : Except ApiError Task := do
  let _ ← a.admin now cookie
  let id ← userID pathID
  return .updateUser id (← decoded body)

/-- `handleDeleteUser`, up to the first statement. -/
def handleDeleteUser (pathID : String) : Except ApiError Task := do
  let _ ← a.admin now cookie
  return .deleteUser (← userID pathID)

/-- `handleSignupToggle`, up to the first statement. -/
def handleSignupToggle (body : Option Bool) : Except ApiError Task := do
  let _ ← a.admin now cookie
  return .setSignup (← decoded body)

end Api

/-! ### The machine -/

/-- The interface, the clock, and the requests that are being handled. -/
structure AdminSystem where
  api : Api
  now : ℤ
  tasks : List Task

/-- The steps. A request comes in with its cookie and its body. -/
inductive AdminOp where
  | login (body : Option Credentials)
  | signup (body : Option Credentials)
  | logout (cookie : Option String)
  | createUser (cookie : Option String) (body : Option CreateRequest)
  | updateUser (cookie : Option String) (pathID : String) (body : Option UpdateRequest)
  | deleteUser (cookie : Option String) (pathID : String)
  | signupToggle (cookie : Option String) (body : Option Bool)
  /-- The `i`-th task runs one statement. -/
  | exec (i : ℕ) (raw : Option (List UInt8))
  | advance (d : ℕ)
  /-- The process is started again, with the value of the `-admin-password` flag. -/
  | restart (explicit : String) (raw raw' : Option (List UInt8))

/-- `EnsureAdminPassword`, and the database it leaves. An error ends the process. -/
def ensureAdminPassword (st : Store) (b : Bcrypt) (now : ℤ) (explicit : String)
    (raw raw' : Option (List UInt8)) : Option Store :=
  match st.ensureAdminUser b now raw explicit ((st.setting "admin_password_hash").getD "") with
  | .error _ => none
  | .ok (false, st) => some st
  | .ok (true, st) =>
    raw.bind fun bytes =>
      match st.createUser b now raw' "admin" (String.ofList (hexEncode bytes)) "admin" with
      | .error _ => none
      | .ok (st, _) => some st

namespace AdminSystem

/-- A server that was just started. -/
def start (st : Store) (now : ℤ) : AdminSystem := ⟨⟨st, []⟩, now, []⟩

/-- A request that passed its checks is handled from here on. -/
def spawn (s : AdminSystem) : Except ApiError Task → AdminSystem
  | .error _ => s
  | .ok t => { s with tasks := s.tasks ++ [t] }

/-- One step. -/
def step (b : Bcrypt) (s : AdminSystem) : AdminOp → AdminSystem
  | .login body => s.spawn (Api.handleLogin body)
  | .signup body => s.spawn (.ok (.readSignup body))
  | .logout cookie => { s with api := s.api.handleLogout cookie }
  | .createUser cookie body => s.spawn (s.api.handleCreateUser s.now cookie body)
  | .updateUser cookie pathID body => s.spawn (s.api.handleUpdateUser s.now cookie pathID body)
  | .deleteUser cookie pathID => s.spawn (s.api.handleDeleteUser s.now cookie pathID)
  | .signupToggle cookie body => s.spawn (s.api.handleSignupToggle s.now cookie body)
  | .exec i raw =>
    match s.tasks[i]? with
    | none => s
    | some t =>
      match t.exec b s.api s.now raw with
      | (.next t', a) => { s with api := a, tasks := s.tasks.set i t' }
      | (.done _, a) => { s with api := a, tasks := s.tasks.eraseIdx i }
  | .advance d => { s with now := s.now + d }
  | .restart explicit raw raw' =>
    start ((ensureAdminPassword s.api.st b s.now explicit raw raw').getD s.api.st) s.now

end AdminSystem

/-! ### Copies in use -/

/-- The account a session is about to be started for. -/
def Task.account : Task → Option User
  | .startSession u => some u
  | _ => none

/-- The same for the rest of a handler. -/
def Outcome.account : Outcome → Option User
  | .next t => t.account
  | .done _ => none

/-- The copies of accounts in use: those of live sessions and of logins under way. -/
def AdminSystem.held (s : AdminSystem) : List User :=
  s.api.copies s.now ++ s.tasks.filterMap Task.account

/-- The next statement of the task takes nothing away from the copy `u`. -/
def Task.Spares (u : User) : Task → Prop
  | .setRole id req => req.role = some "member" → u.id = id → u.role ≠ .admin
  | .setDisabled id req => req.disabled = some true → u.id ≠ id
  | .delete id => u.id ≠ id
  | _ => True

instance (u : User) (t : Task) : Decidable (t.Spares u) := by
  cases t <;> unfold Task.Spares <;> infer_instance

/-- The step demotes, disables or deletes no account that a copy in use is of. A demotion is
harmless if the copy is the one of a member. -/
def Undisturbed (s : AdminSystem) : AdminOp → Prop
  | .exec i _ => ∀ t ∈ s.tasks[i]?, ∀ u ∈ s.held, t.Spares u
  | _ => True

namespace Api

variable {a : Api} {now : ℤ} {cookie : Option String} {u : User}

/-- What passes is a copy in use. -/
theorem mem_copies_of_sessionUser (h : a.sessionUser now cookie = some u) : u ∈ a.copies now := by
  unfold sessionUser at h
  split at h
  · cases h
  · split at h
    · cases h
    · next e he =>
      split_ifs at h with hexp
      obtain rfl := Option.some.inj h
      refine List.mem_map.mpr ⟨e, List.mem_filter.mpr ⟨List.mem_of_find?_eq_some he, ?_⟩, rfl⟩
      simpa using hexp

theorem copies_filter {p : String × Session → Bool}
    (h : u ∈ ({ a with sessions := a.sessions.filter p } : Api).copies now) : u ∈ a.copies now := by
  obtain ⟨e, he, rfl⟩ := List.mem_map.mp h
  obtain ⟨hmem, hlive⟩ := List.mem_filter.mp he
  exact List.mem_map_of_mem (List.mem_filter.mpr ⟨(List.mem_filter.mp hmem).1, hlive⟩)

/-- Starting a session adds one copy. -/
theorem copies_startSession {raw : List UInt8} {v : User}
    (h : u ∈ (a.startSession now raw v).copies now) : u = v ∨ u ∈ a.copies now := by
  obtain ⟨e, he, rfl⟩ := List.mem_map.mp h
  obtain ⟨hmem, hlive⟩ := List.mem_filter.mp he
  rcases List.mem_cons.mp hmem with rfl | hmem
  · exact .inl rfl
  · have hold := (List.mem_filter.mp (List.mem_filter.mp hmem).1).1
    exact .inr (List.mem_map_of_mem (List.mem_filter.mpr ⟨hold, hlive⟩))

/-- Copies only go as time passes. -/
theorem copies_advance {d : ℕ} (h : u ∈ a.copies (now + d)) : u ∈ a.copies now := by
  obtain ⟨e, he, rfl⟩ := List.mem_map.mp h
  obtain ⟨hmem, hlive⟩ := List.mem_filter.mp he
  refine List.mem_map_of_mem (List.mem_filter.mpr ⟨hmem, ?_⟩)
  simp only [decide_not, Bool.not_eq_true', decide_eq_false_iff_not] at hlive ⊢
  omega

end Api

namespace Task

variable {b : Bcrypt} {a : Api} {now : ℤ} {raw : Option (List UInt8)} {t : Task} {u : User}

/-- A statement that spares a copy keeps it backed. -/
theorem backs_exec (h : a.st.Backs u) (hspare : t.Spares u) :
    (t.exec b a now raw).2.st.Backs u := by
  cases t with
  | signup req | createUser req =>
    simp only [exec]
    split
    · exact h
    · next hst => exact h.createUser hst
  | setRole id req =>
    simp only [exec]
    split
    · exact h
    · next role hrole =>
      split
      · exact h
      · next st hst =>
        refine h.setUserRole hst fun hmember => hspare ?_
        rw [hrole, Role.parse_eq_member_iff.mp hmember]
  | setDisabled id req =>
    simp only [exec]
    split
    · exact h
    · next disabled hdisabled =>
      split
      · exact h
      · next st hst =>
        refine h.setUserDisabled hst fun htrue => hspare ?_
        rw [hdisabled, htrue]
  | setPassword id req =>
    simp only [exec]
    split
    · exact h
    · split
      · exact h
      · next st hst => exact h.setUserPassword hst
  | delete id =>
    simp only [exec]
    split
    · exact h
    · next st hst => exact h.deleteUser hst hspare
  | updateCount id req | deleteCount id =>
    simp only [exec]
    split <;> exact h
  | updateUser id req | deleteUser id =>
    simp only [exec]
    split
    · exact h
    · split <;> exact h
  | checkPassword req | startSession v =>
    simp only [exec]
    split <;> exact h
  | readSignup body =>
    simp only [exec]
    split_ifs
    · split <;> exact h
    · exact h
  | setSignup enabled => exact h

/-- What a statement does to the sessions and to the session that is about to start. -/
theorem exec_cases (b : Bcrypt) (a : Api) (now : ℤ) (raw : Option (List UInt8)) (t : Task) :
    (t.exec b a now raw).2.sessions = a.sessions ∧
        (∀ u, (t.exec b a now raw).1.account = some u → (t.exec b a now raw).2.st.Backs u) ∨
      ∃ bytes u, t = .startSession u ∧ (t.exec b a now raw).2 = a.startSession now bytes u ∧
        (t.exec b a now raw).1.account = none := by
  cases t with
  | startSession u =>
    cases raw with
    | none => exact .inl ⟨rfl, fun _ h => nomatch h⟩
    | some bytes => exact .inr ⟨bytes, u, rfl, rfl, rfl⟩
  | checkPassword req =>
    refine .inl ?_
    simp only [exec]
    split
    · exact ⟨rfl, fun _ h => nomatch h⟩
    · next u hu =>
      refine ⟨rfl, ?_⟩
      intro v hv
      obtain rfl := Option.some.inj hv
      exact Store.backs_of_checkPassword hu
  | signup req =>
    refine .inl ?_
    simp only [exec]
    split
    · exact ⟨rfl, fun _ h => nomatch h⟩
    · next st u hu =>
      refine ⟨rfl, ?_⟩
      intro v hv
      obtain rfl := Option.some.inj hv
      exact Store.backs_of_createUser hu
  | setSignup enabled => exact .inl ⟨rfl, fun _ h => nomatch h⟩
  | _ =>
    refine .inl ?_
    simp only [exec]
    repeat' split
    all_goals exact ⟨rfl, fun _ h => nomatch h⟩

end Task

/-- No session is about to start once the checks have passed. -/
def NoSession (r : Except ApiError Task) : Prop := ∀ t, r = .ok t → t.account = none

namespace NoSession

theorem pure {t : Task} (h : t.account = none) : NoSession (.ok t) := by
  rintro t' ⟨⟩
  exact h

/-- Checks that come before do not matter. -/
theorem bind {α : Type} {x : Except ApiError α} {f : α → Except ApiError Task}
    (h : ∀ y, NoSession (f y)) : NoSession (x >>= f) := by
  intro t ht
  cases x with
  | error e => cases ht
  | ok y => exact h y t ht

end NoSession

/-! ### Runs -/

/-- Every copy in use is backed by the row of its account. -/
def SessionInv (s : AdminSystem) : Prop := ∀ u ∈ s.held, s.api.st.Backs u

namespace SessionInv

variable {s : AdminSystem}

theorem start (st : Store) (now : ℤ) : SessionInv (.start st now) := fun _ hu => nomatch hu

theorem spawn (h : SessionInv s) {r : Except ApiError Task} (hr : NoSession r) :
    SessionInv (s.spawn r) := by
  cases r with
  | error e => exact h
  | ok t =>
    intro u hu
    refine h u ?_
    simpa [AdminSystem.held, AdminSystem.spawn, hr t rfl] using hu

/-- The next statement of the `i`-th task. -/
theorem exec (h : SessionInv s) (b : Bcrypt) {i : ℕ} {raw : Option (List UInt8)}
    (hop : Undisturbed s (.exec i raw)) : SessionInv (s.step b (.exec i raw)) := by
  simp only [AdminSystem.step]
  cases ht : s.tasks[i]? with
  | none => exact h
  | some t =>
    have hmem : t ∈ s.tasks := List.mem_of_getElem? ht
    -- A copy that was in use is still backed.
    have hkept : ∀ u ∈ s.held, (t.exec b s.api s.now raw).2.st.Backs u := fun u hu =>
      Task.backs_exec (h u hu) (hop t ht u hu)
    have hnew : ∀ u, u ∈ (t.exec b s.api s.now raw).2.copies s.now ∨
        (t.exec b s.api s.now raw).1.account = some u ∨ u ∈ s.tasks.filterMap Task.account →
        (t.exec b s.api s.now raw).2.st.Backs u := by
      intro u hu
      rcases Task.exec_cases b s.api s.now raw t with ⟨hsessions, haccount⟩ |
        ⟨bytes, v, rfl, hapi, haccount⟩
      · rcases hu with hu | hu | hu
        · refine hkept u (List.mem_append_left _ ?_)
          rwa [Api.copies, hsessions] at hu
        · exact haccount u hu
        · exact hkept u (List.mem_append_right _ hu)
      · rcases hu with hu | hu | hu
        · rw [hapi] at hu
          rcases Api.copies_startSession hu with rfl | hu
          · exact hkept u (List.mem_append_right _ (List.mem_filterMap.mpr ⟨_, hmem, rfl⟩))
          · exact hkept u (List.mem_append_left _ hu)
        · rw [haccount] at hu
          cases hu
        · exact hkept u (List.mem_append_right _ hu)
    rcases hexec : t.exec b s.api s.now raw with ⟨o, a⟩
    rw [hexec] at hnew
    simp only [hexec]
    cases o with
    | next t' =>
      intro u hu
      rcases List.mem_append.mp hu with hu | hu
      · exact hnew u (.inl hu)
      · obtain ⟨t'', ht'', haccount⟩ := List.mem_filterMap.mp hu
        rcases List.mem_or_eq_of_mem_set ht'' with ht'' | rfl
        · exact hnew u (.inr (.inr (List.mem_filterMap.mpr ⟨t'', ht'', haccount⟩)))
        · exact hnew u (.inr (.inl haccount))
    | done reply =>
      intro u hu
      rcases List.mem_append.mp hu with hu | hu
      · exact hnew u (.inl hu)
      · obtain ⟨t'', ht'', haccount⟩ := List.mem_filterMap.mp hu
        have hold := List.mem_of_mem_eraseIdx ht''
        exact hnew u (.inr (.inr (List.mem_filterMap.mpr ⟨t'', hold, haccount⟩)))

theorem step (b : Bcrypt) (s : AdminSystem) (op : AdminOp) (h : SessionInv s)
    (hop : Undisturbed s op) : SessionInv (s.step b op) := by
  cases op with
  | login body => exact h.spawn (.bind fun _ => .pure rfl)
  | signup body => exact h.spawn (.pure rfl)
  | createUser cookie body => exact h.spawn (.bind fun _ => .bind fun _ => .pure rfl)
  | updateUser cookie pathID body =>
    exact h.spawn (.bind fun _ => .bind fun _ => .bind fun _ => .pure rfl)
  | deleteUser cookie pathID => exact h.spawn (.bind fun _ => .bind fun _ => .pure rfl)
  | signupToggle cookie body => exact h.spawn (.bind fun _ => .bind fun _ => .pure rfl)
  | exec i raw => exact h.exec b hop
  | restart explicit raw raw' => exact .start _ _
  | logout cookie =>
    cases cookie with
    | none => exact h
    | some token =>
      intro u hu
      refine h u ?_
      rcases List.mem_append.mp hu with hu | hu
      · exact List.mem_append_left _ (Api.copies_filter hu)
      · exact List.mem_append_right _ hu
  | advance d =>
    intro u hu
    refine h u ?_
    rcases List.mem_append.mp hu with hu | hu
    · exact List.mem_append_left _ (Api.copies_advance hu)
    · exact List.mem_append_right _ hu

end SessionInv

/-- What the two checks are for: whoever passes has an enabled account now, and whoever passes as an
administrator is one now. -/
structure Authorized (s : AdminSystem) : Prop where
  auth : ∀ cookie u, s.api.auth s.now cookie = .ok u →
    ∃ r ∈ s.api.st.users.rows, r.id = u.id ∧ r.disabled = false
  admin : ∀ cookie u, s.api.admin s.now cookie = .ok u →
    ∃ r ∈ s.api.st.users.rows, r.id = u.id ∧ r.disabled = false ∧ r.role = .admin

theorem SessionInv.authorized {s : AdminSystem} (h : SessionInv s) : Authorized s := by
  have hcopy : ∀ cookie u, s.api.sessionUser s.now cookie = some u → s.api.st.Backs u :=
    fun cookie u hu => h u (List.mem_append_left _ (Api.mem_copies_of_sessionUser hu))
  constructor
  · intro cookie u hu
    rw [Api.auth] at hu
    split at hu
    · cases hu
    · next v hv =>
      obtain rfl := Except.ok.inj hu
      obtain ⟨r, hr, hid, hdisabled, -⟩ := hcopy cookie v hv
      exact ⟨r, hr, hid, hdisabled⟩
  · intro cookie u hu
    rw [Api.admin] at hu
    split at hu
    · cases hu
    · next v hv =>
      split_ifs at hu with hrole
      obtain rfl := Except.ok.inj hu
      obtain ⟨r, hr, hid, hdisabled, hadmin⟩ := hcopy cookie v hv
      exact ⟨r, hr, hid, hdisabled, hadmin (not_not.mp hrole)⟩

/-- **Requests are made for accounts that may make them**, in every state of every run in which no
account is demoted, disabled or deleted while a live session or a login under way has a copy of
it. -/
theorem authorized_run (b : Bcrypt) (st : Store) (now : ℤ) {ops : List AdminOp}
    (h : Along (AdminSystem.step b) Undisturbed (.start st now) ops) :
    Authorized (run (AdminSystem.step b) (.start st now) ops) :=
  (run_induction_along (SessionInv.start st now) (SessionInv.step b) h).authorized

/-! ### Two administrators -/

/-- A hash that is the password. -/
def sampleBcrypt : Bcrypt where
  generate _ password := if password.utf8ByteSize ≤ 72 then some password else none
  compare hash password := hash = password
  generate_isSome _ password := by simp
  compare_generate _ password hash h := by
    simp only [Option.ite_none_right_eq_some, Option.some.injEq] at h
    simp [h.2]

/-- The administrators `root` and `eve`. -/
def sampleAccounts : Store :=
  let add (s : Store) (name : String) : Store :=
    match s.createUser sampleBcrypt 0 (some []) name "password" "admin" with
    | .error _ => s
    | .ok (s, _) => s
  add (add .empty "root") "eve"

/-- A login whose session gets the token of `raw`. -/
def sampleLogin (name : String) (raw : List UInt8) : List AdminOp :=
  [.login (some ⟨name, "password"⟩), .exec 0 none, .exec 0 (some raw)]

/-- `root` deletes account 2. -/
def sampleDelete : List AdminOp :=
  [.deleteUser (some "01") "2", .exec 0 none, .exec 0 none, .exec 0 none]

instance (s : AdminSystem) (op : AdminOp) : Decidable (Undisturbed s op) := by
  cases op <;> unfold Undisturbed <;> infer_instance

/-- `eve` logs out before `root` deletes the account. -/
theorem authorized_run_logout :
    Authorized (run (AdminSystem.step sampleBcrypt) (.start sampleAccounts 0)
      (sampleLogin "root" [1] ++ sampleLogin "eve" [2] ++ [.logout (some "02")] ++ sampleDelete)) :=
  authorized_run _ _ _ (by decide +kernel)

/-- **A deleted administrator passes.** `eve` is logged in while `root` deletes the account, and
still passes `admin` afterwards. -/
theorem admin_deleted_account :
    let s := run (AdminSystem.step sampleBcrypt) (.start sampleAccounts 0)
      (sampleLogin "root" [1] ++ sampleLogin "eve" [2] ++ sampleDelete)
    ∃ u, s.api.admin s.now (some "02") = .ok u ∧ ∀ r ∈ s.api.st.users.rows, r.id ≠ u.id :=
  ⟨⟨2, "eve", .admin, false, 0⟩, by decide +kernel, by decide +kernel⟩

end AdminApi

end OverMesh
