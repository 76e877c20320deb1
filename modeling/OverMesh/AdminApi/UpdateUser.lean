import OverMesh.AdminApi.Members

/-!
# Updating an account

`handleUpdateUser` takes a new role, a new disabled flag and a new password in one request, and
applies them one after the other, each with its own check. A request that is refused at the password
has by then changed the role and the flag. Here one request is followed from its arrival to its
reply with no other in between.

## Main results

* `Task.finish_of_next`, `Task.finish_of_done` — how a handler goes on
* `Task.finish_updateUser_of_late`, `Task.finish_updateUser_of_not_late` — how far a request gets
* `AdminServer.updateUser_atomic_iff` — **when a refused update leaves the account as it was**
-/

namespace OverMesh

open GoText

namespace Store

variable {s : Store} {id : ℤ} {r : UserRow}

/-- An update of a row that is there. -/
theorem exists_updateUser (hr : s.users.byId id = some r) (f : UserRow → UserRow)
    (hid : ∀ r, (f r).id = r.id) (hname : ∀ r, (f r).username = r.username) :
    ∃ s', s.updateUser id f hid hname = .ok s' ∧ s'.users.byId id = some (f r) := by
  have hsome : s.users.byId id ≠ none := by
    rw [hr]
    exact Option.some_ne_none r
  obtain ⟨hmem, hrid⟩ := AutoTable.byId_eq_some_iff.mp hr
  have hok : ∃ s', s.updateUser id f hid hname = .ok s' := ⟨_, if_neg hsome⟩
  obtain ⟨s', hok⟩ := hok
  refine ⟨s', hok, AutoTable.byId_eq_some_iff.mpr ⟨?_, (hid r).trans hrid⟩⟩
  rw [updateUser_ok hok]
  exact List.mem_map.mpr ⟨r, hmem, if_pos hrid⟩

end Store

namespace AdminApi

namespace UpdateRequest

/-- The account once the role and the flag are set. -/
def applied (req : UpdateRequest) (r : UserRow) : UserRow :=
  { r with
    role := (req.role.bind Role.parse).getD r.role
    disabled := req.disabled.getD r.disabled }

/-- The role, if there is one, is a role. -/
def RoleOk (req : UpdateRequest) : Prop := ∀ role ∈ req.role, (Role.parse role).isSome = true

/-- There is a password, and it is too short or cannot be hashed. -/
def PasswordRefused (req : UpdateRequest) (b : Bcrypt) (raw : Option (List UInt8)) : Prop :=
  ∃ password ∈ req.password,
    password.utf8ByteSize < 8 ∨ Store.hashPassword b raw password = none

/-- The request does not take the last administrator away from `st`. -/
def AdminsOk (req : UpdateRequest) (st : Store) (r : UserRow) : Prop :=
  r.role = .admin → req.demoting = true → 1 < st.adminCount

end UpdateRequest

namespace Task

variable {b : Bcrypt} {now : ℤ} {raw : Task → Option (List UInt8)} {a a' : Api} {t t' : Task}
  {reply : Except ApiError Reply}

theorem finish_of_done (h : t.exec b a now (raw t) = (.done reply, a')) :
    t.finish b now raw a = (reply, a') := by
  rw [finish]
  split
  · next h' _ =>
    rw [h] at h'
    cases h'
    rfl
  · next h' _ =>
    rw [h] at h'
    cases h'

theorem finish_of_next (h : t.exec b a now (raw t) = (.next t', a')) :
    t.finish b now raw a = t'.finish b now raw a' := by
  rw [finish]
  split
  · next h' _ =>
    rw [h] at h'
    cases h'
  · next h' _ =>
    rw [h] at h'
    cases h'
    rfl

variable {id : ℤ} {req : UpdateRequest} {r : UserRow}

/-! ### The statements of the handler, last to first -/

/-- A refused password is the end of the request. -/
theorem finish_setPassword_of_refused (now : ℤ) (a : Api)
    (h : req.PasswordRefused b (raw (.setPassword id req))) :
    ∃ e, (setPassword id req).finish b now raw a = (.error e, a) := by
  obtain ⟨password, hpassword, hrefused⟩ := h
  have hset : ∃ e, a.st.setUserPassword b (raw (.setPassword id req)) id password = .error e := by
    rw [Store.setUserPassword]
    by_cases hshort : password.utf8ByteSize < 8
    · exact ⟨_, if_pos hshort⟩
    · rw [if_neg hshort, hrefused.resolve_left hshort]
      exact ⟨_, rfl⟩
  obtain ⟨e, hset⟩ := hset
  refine ⟨.refused e, finish_of_done ?_⟩
  rw [exec, Option.mem_def.mp hpassword]
  simp only [hset]

theorem finish_setPassword_of_accepted (now : ℤ) (hr : a.st.users.byId id = some r)
    (h : ¬req.PasswordRefused b (raw (.setPassword id req))) :
    ((setPassword id req).finish b now raw a).1 = .ok .ok := by
  cases hpassword : req.password with
  | none =>
    have hexec : (setPassword id req).exec b a now (raw (.setPassword id req)) =
        (.done (.ok .ok), a) := by
      rw [exec, hpassword]
    rw [finish_of_done hexec]
  | some password =>
    have hlong : ¬password.utf8ByteSize < 8 := fun hshort => h ⟨password, hpassword, .inl hshort⟩
    cases hhash : Store.hashPassword b (raw (.setPassword id req)) password with
    | none => exact absurd ⟨password, hpassword, .inr hhash⟩ h
    | some hash =>
      obtain ⟨st, hst, -⟩ := Store.exists_updateUser hr ({ · with passwordHash := hash })
        (fun _ => rfl) fun _ => rfl
      have hexec : (setPassword id req).exec b a now (raw (.setPassword id req)) =
          (.done (.ok .ok), { a with st := st }) := by
        rw [exec, hpassword]
        simp only [Store.setUserPassword, if_neg hlong, hhash, hst]
      rw [finish_of_done hexec]

theorem exec_setDisabled (b : Bcrypt) (now : ℤ) (raw : Option (List UInt8)) (req : UpdateRequest)
    (hr : a.st.users.byId id = some r) :
    ∃ a', (setDisabled id req).exec b a now raw = (.next (.setPassword id req), a') ∧
      a'.st.users.byId id = some { r with disabled := req.disabled.getD r.disabled } := by
  cases hdisabled : req.disabled with
  | none =>
    refine ⟨a, ?_, hr⟩
    rw [exec, hdisabled]
  | some disabled =>
    obtain ⟨st, hst, hrow⟩ := Store.exists_updateUser hr ({ · with disabled := disabled })
      (fun _ => rfl) fun _ => rfl
    refine ⟨{ a with st := st }, ?_, hrow⟩
    rw [exec, hdisabled]
    simp only [Store.setUserDisabled, hst]

theorem exec_setRole (b : Bcrypt) (now : ℤ) (raw : Option (List UInt8))
    (hr : a.st.users.byId id = some r) (hrole : req.RoleOk) :
    ∃ a', (setRole id req).exec b a now raw = (.next (.setDisabled id req), a') ∧
      a'.st.users.byId id = some { r with role := (req.role.bind Role.parse).getD r.role } := by
  cases hgiven : req.role with
  | none =>
    refine ⟨a, ?_, hr⟩
    rw [exec, hgiven]
  | some role =>
    obtain ⟨parsed, hparsed⟩ := Option.isSome_iff_exists.mp (hrole role hgiven)
    obtain ⟨st, hst, hrow⟩ := Store.exists_updateUser hr ({ · with role := parsed })
      (fun _ => rfl) fun _ => rfl
    refine ⟨{ a with st := st }, ?_, ?_⟩
    · rw [exec, hgiven]
      simp only [Store.setUserRole, hparsed, hst]
    · rw [hrow, Option.bind_some, hparsed, Option.getD_some]

theorem finish_setRole_of_bad (b : Bcrypt) (now : ℤ) (raw : Task → Option (List UInt8)) (a : Api)
    (id : ℤ) (hrole : ¬req.RoleOk) : ∃ e, (setRole id req).finish b now raw a = (.error e, a) := by
  rw [UpdateRequest.RoleOk] at hrole
  push Not at hrole
  obtain ⟨role, hgiven, hbad⟩ := hrole
  refine ⟨.refused (.badRole role), finish_of_done ?_⟩
  rw [exec, Option.mem_def.mp hgiven]
  have hparse : Role.parse role = none := by simpa using hbad
  simp only [Store.setUserRole, hparse]

/-- The check for the last administrator lets the request pass, or is its end. -/
theorem finish_updateUser_cases (b : Bcrypt) (now : ℤ) (raw : Task → Option (List UInt8))
    (req : UpdateRequest) (hr : a.st.users.byId id = some r) : req.AdminsOk a.st r ∧
        (updateUser id req).finish b now raw a = (setRole id req).finish b now raw a ∨
      ¬req.AdminsOk a.st r ∧
        (updateUser id req).finish b now raw a = (.error .demoteLastAdmin, a) := by
  have huser : a.st.userByID id = some r.user := by rw [Store.userByID, hr, Option.map_some]
  by_cases hadmin : r.role = .admin ∧ req.demoting = true
  · have hnext : (updateUser id req).finish b now raw a =
        (updateCount id req).finish b now raw a := by
      refine finish_of_next ?_
      rw [exec, huser]
      exact if_pos hadmin
    rw [hnext]
    by_cases hcount : a.st.adminCount ≤ 1
    · refine .inr ⟨fun hok => absurd (hok hadmin.1 hadmin.2) (by omega), finish_of_done ?_⟩
      rw [exec, if_pos hcount]
    · refine .inl ⟨fun _ _ => by omega, finish_of_next ?_⟩
      rw [exec, if_neg hcount]
  · refine .inl ⟨fun h h' => absurd ⟨h, h'⟩ hadmin, finish_of_next ?_⟩
    rw [exec, huser]
    exact if_neg hadmin

theorem finish_updateUser_of_none (hr : a.st.users.byId id = none) :
    (updateUser id req).finish b now raw a = (.error .noSuchUser, a) := by
  refine finish_of_done ?_
  rw [exec, Store.userByID, hr, Option.map_none]

/-! ### The request -/

theorem finish_setRole (b : Bcrypt) (now : ℤ) (raw : Task → Option (List UInt8))
    (hr : a.st.users.byId id = some r) (hrole : req.RoleOk) :
    ∃ a', (setRole id req).finish b now raw a = (setPassword id req).finish b now raw a' ∧
      a'.st.users.byId id = some (req.applied r) := by
  obtain ⟨a₁, hexec₁, hrow₁⟩ := exec_setRole b now (raw (.setRole id req)) hr hrole
  obtain ⟨a₂, hexec₂, hrow₂⟩ := exec_setDisabled b now (raw (.setDisabled id req)) req hrow₁
  exact ⟨a₂, (finish_of_next hexec₁).trans (finish_of_next hexec₂), hrow₂⟩

/-- **A request that is refused at its password** has set the role and the flag. -/
theorem finish_updateUser_of_late (a : Api) (now : ℤ) (raw : Task → Option (List UInt8))
    (req : UpdateRequest) (hr : a.st.users.byId id = some r) (hadmins : req.AdminsOk a.st r)
    (hrole : req.RoleOk) (hrefused : req.PasswordRefused b (raw (.setPassword id req))) :
    ∃ e a', (updateUser id req).finish b now raw a = (.error e, a') ∧
      a'.st.users.byId id = some (req.applied r) := by
  rcases finish_updateUser_cases b now raw req hr with ⟨-, heq⟩ | ⟨hnot, -⟩
  · obtain ⟨a', hfinish, hrow⟩ := finish_setRole b now raw hr hrole
    obtain ⟨e, herror⟩ := finish_setPassword_of_refused now a' hrefused
    exact ⟨e, a', heq.trans (hfinish.trans herror), hrow⟩
  · exact absurd hadmins hnot

/-- **Any other request that is refused** has done nothing. -/
theorem finish_updateUser_of_not_late {e : ApiError} (hr : a.st.users.byId id = some r)
    (hlate : ¬(req.AdminsOk a.st r ∧ req.RoleOk ∧
      req.PasswordRefused b (raw (.setPassword id req))))
    (he : (updateUser id req).finish b now raw a = (.error e, a')) : a' = a := by
  rcases finish_updateUser_cases b now raw req hr with ⟨hadmins, heq⟩ | ⟨-, heq⟩
  · rw [heq] at he
    by_cases hrole : req.RoleOk
    · have haccepted : ¬req.PasswordRefused b (raw (.setPassword id req)) :=
        fun h => hlate ⟨hadmins, hrole, h⟩
      obtain ⟨a₁, hfinish, hrow⟩ := finish_setRole b now raw hr hrole
      have hok := finish_setPassword_of_accepted now hrow haccepted
      rw [← hfinish, he] at hok
      cases hok
    · obtain ⟨e', herror⟩ := finish_setRole_of_bad b now raw a id hrole
      exact (congrArg Prod.snd (he.symm.trans herror))
  · exact congrArg Prod.snd (he.symm.trans heq)

end Task

namespace AdminServer

variable {s : AdminServer} {b : Bcrypt} {now : ℤ} {rand : Task → Option (List UInt8)}
  {raw : Option (List UInt8)} {cookie : Option String} {pathID : String}
  {body : Option UpdateRequest}

/-- The request comes from an administrator, is well formed and about the account `r`, and it gets
as far as its password, which is refused. -/
structure RefusedLate (s : AdminServer) (b : Bcrypt) (now : ℤ) (rand : Task → Option (List UInt8))
    (cookie : Option String) (pathID : String) (body : Option UpdateRequest) (id : ℤ)
    (req : UpdateRequest) (r : UserRow) : Prop where
  admin : ∃ u, s.api.admin now cookie = .ok u
  path : parseInt 64 pathID.toList = some id
  body : body = some req
  row : s.c.st.users.byId id = some r
  admins : req.AdminsOk s.c.st r
  role : req.RoleOk
  password : req.PasswordRefused b (rand (.setPassword id req))

/-- What becomes of a request before the first statement. -/
theorem handleUpdateUser_cases (a : Api) (now : ℤ) (cookie : Option String) (pathID : String)
    (body : Option UpdateRequest) : (∃ e, a.handleUpdateUser now cookie pathID body = .error e ∧
      ¬∃ u id req, a.admin now cookie = .ok u ∧ parseInt 64 pathID.toList = some id ∧
        body = some req) ∨
      ∃ u id req, a.admin now cookie = .ok u ∧ parseInt 64 pathID.toList = some id ∧
        body = some req ∧ a.handleUpdateUser now cookie pathID body = .ok (.updateUser id req) := by
  rw [Api.handleUpdateUser, Api.userID]
  cases hadmin : a.admin now cookie with
  | error e => exact .inl ⟨e, rfl, by simp⟩
  | ok u =>
    cases hid : parseInt 64 pathID.toList with
    | none => exact .inl ⟨_, rfl, by simp⟩
    | some id =>
      cases body with
      | none => exact .inl ⟨_, rfl, by simp⟩
      | some req => exact .inr ⟨u, id, req, rfl, rfl, rfl, rfl⟩

theorem st_runTask (t : Task) :
    (s.runTask b now rand (.ok t)).2.c.st = (t.finish b now rand s.api).2.st := by
  rw [runTask]
  split
  · next h => rw [h]; rfl
  · next h => rw [h]; rfl

theorem runTask_error_iff {t : Task} : (∃ e, (s.runTask b now rand (.ok t)).1 = .error e) ↔
      ∃ e, (t.finish b now rand s.api).1 = .error e := by
  rw [runTask]
  split
  · next e _ h =>
    rw [h]
    exact ⟨fun _ => ⟨e, rfl⟩, fun _ => ⟨_, rfl⟩⟩
  · next h =>
    rw [h]
    simp

/-- **When a refused update leaves the account as it was**: unless it is refused at its password
after it has changed the role or the flag. -/
theorem updateUser_atomic_iff (s : AdminServer) (b : Bcrypt) (now : ℤ)
    (rand : Task → Option (List UInt8)) (raw : Option (List UInt8)) (cookie : Option String)
    (pathID : String) (body : Option UpdateRequest) :
    (∀ e, (s.serve b now rand raw cookie (.updateUser pathID body)).1 = .error e →
      ∀ id, parseInt 64 pathID.toList = some id →
        (s.serve b now rand raw cookie (.updateUser pathID body)).2.c.st.users.byId id =
          s.c.st.users.byId id) ↔
    ∀ id req r, RefusedLate s b now rand cookie pathID body id req r → req.applied r = r := by
  rw [serve]
  rcases handleUpdateUser_cases s.api now cookie pathID body with
    ⟨e, herror, hnone⟩ | ⟨u, id, req, hadmin, hid, hbody, hok⟩
  · rw [herror]
    refine ⟨fun _ id req r h => ?_, fun _ _ _ _ _ => rfl⟩
    obtain ⟨u, hu⟩ := h.admin
    exact absurd ⟨u, id, req, hu, h.path, h.body⟩ hnone
  rw [hok]
  constructor
  · intro hatomic id' req' r h
    obtain rfl : id = id' := Option.some.inj (hid.symm.trans h.path)
    obtain rfl : req = req' := Option.some.inj (hbody.symm.trans h.body)
    obtain ⟨e, a', hfinish, hrow⟩ :=
      Task.finish_updateUser_of_late s.api now rand req h.row h.admins h.role h.password
    obtain ⟨e', he'⟩ := runTask_error_iff.mpr ⟨e, congrArg Prod.fst hfinish⟩
    have hsame := hatomic e' he' id hid
    rw [st_runTask, hfinish, hrow, h.row] at hsame
    exact Option.some.inj hsame
  · intro hall e he id' hid'
    obtain rfl : id = id' := Option.some.inj (hid.symm.trans hid')
    obtain ⟨e', he'⟩ := runTask_error_iff.mp ⟨e, he⟩
    rw [st_runTask]
    cases hrow : s.c.st.users.byId id with
    | none =>
      rw [Task.finish_updateUser_of_none (a := s.api) hrow]
      exact hrow
    | some r =>
      by_cases hlate : req.AdminsOk s.c.st r ∧ req.RoleOk ∧
          req.PasswordRefused b (rand (.setPassword id req))
      · obtain ⟨e, a', hfinish, hrow'⟩ :=
          Task.finish_updateUser_of_late s.api now rand req hrow hlate.1 hlate.2.1 hlate.2.2
        rw [hfinish, hrow',
          hall id req r ⟨⟨u, hadmin⟩, hid, hbody, hrow, hlate.1, hlate.2.1, hlate.2.2⟩]
      · have hapi := Task.finish_updateUser_of_not_late (a := s.api) hrow hlate (Prod.ext he' rfl)
        exact (congrArg (fun a : Api => a.st.users.byId id) hapi).trans hrow

/-- `root` is logged in. -/
def sampleRoot : AdminServer :=
  { sampleServer sampleMembers with
    sessions := [("02", ⟨⟨1, "root", .admin, false, 0⟩, sessionTTL⟩)] }

/-- `root` asks to disable `mia` and to give them a password of one byte. The request is refused,
and `mia` is disabled. -/
theorem updateUser_partly :
    let res := sampleRoot.serve sampleBcrypt 0 (fun _ => none) none (some "02")
      (.updateUser "2" (some ⟨none, some true, some "x"⟩))
    (∃ e, res.1 = .error e) ∧ sampleRoot.c.st.userByID 2 = some sampleMember ∧
      res.2.c.st.userByID 2 = some { sampleMember with disabled := true } := by
  have hrow : sampleRoot.c.st.users.byId 2 = some ⟨2, "mia", "password", .member, false, 0⟩ := by
    decide +kernel
  have hrefused : UpdateRequest.PasswordRefused ⟨none, some true, some "x"⟩ sampleBcrypt none :=
    ⟨"x", rfl, .inl (by decide)⟩
  obtain ⟨e, a', hfinish, hrow'⟩ := Task.finish_updateUser_of_late sampleRoot.api 0 (fun _ => none)
    ⟨none, some true, some "x"⟩ hrow (fun h => absurd h (by decide))
    (fun role hrole => absurd hrole (by simp)) hrefused
  have hok : sampleRoot.api.handleUpdateUser 0 (some "02") "2" (some ⟨none, some true, some "x"⟩) =
      .ok (.updateUser 2 ⟨none, some true, some "x"⟩) := rfl
  rw [serve, hok]
  refine ⟨runTask_error_iff.mpr ⟨e, congrArg Prod.fst hfinish⟩, ?_, ?_⟩
  · rw [Store.userByID, hrow]
    rfl
  · rw [st_runTask, hfinish, Store.userByID, hrow']
    rfl

end AdminServer

end AdminApi

end OverMesh
