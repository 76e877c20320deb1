import OverMesh.AdminApi.Acl
import OverMesh.AdminApi.CheckAcl
import OverMesh.AdminApi.Sessions
import OverMesh.Store.SetupKeys

/-!
# The administrative interface

The route table of `internal/adminapi` with the handlers behind it. `AdminServer.serve` handles one
request from beginning to end. The handlers about accounts and sessions are the tasks of
`AdminApi.Sessions`, run to their end.

Three routes need no login. The other requests come with a cookie, and go through `auth`, which lets
every account pass, or `admin`.

The audit log is not modelled: handlers write it and only the page that shows it reads it.

## Main definitions

* `Request`, `Failure`, `Body`
* `AdminServer`, `AdminServer.serve`
* `AdminServer.handleDevices`, `AdminServer.handleSetupKeys` — the two lists
-/

namespace OverMesh

open GoText

namespace Store

/-- `Users`. -/
def allUsers (s : Store) : List User := s.users.rows.map UserRow.user

/-- `SetupKeys`, newest first. -/
def setupKeysIn (s : Store) (networkID : ℤ) : List SetupKey :=
  (s.setupKeys.rows.filter (·.networkID = networkID)).reverse

/-- `SetupKeyByID`. -/
def setupKeyByID (s : Store) (id : ℤ) : Option SetupKey := s.setupKeys.byId id

end Store

namespace AdminApi

/-! ### Tasks to their end -/

namespace Task

/-- How many statements there may be to come. -/
def rank : Task → ℕ
  | .startSession _ | .createUser _ | .setPassword _ _ | .delete _ | .setSignup _ => 1
  | .checkPassword _ | .signup _ | .setDisabled _ _ | .deleteCount _ => 2
  | .readSignup _ | .setRole _ _ | .deleteUser _ => 3
  | .updateCount _ _ => 4
  | .updateUser _ _ => 5

end Task

/-- The same for where a task gets to. -/
def Outcome.rank : Outcome → ℕ
  | .next t => t.rank
  | .done _ => 0

namespace Task

/-- Every statement takes a handler closer to its end. -/
theorem rank_exec (b : Bcrypt) (a : Api) (now : ℤ) (raw : Option (List UInt8)) (t : Task) :
    (t.exec b a now raw).1.rank < t.rank := by
  -- In each branch of each statement two numerals are compared.
  cases t <;> simp only [exec]
  all_goals repeat' split
  all_goals simp [Outcome.rank, rank]

/-- The handler from here on. `raw` is what the random generator returns to each statement. -/
def finish (b : Bcrypt) (now : ℤ) (raw : Task → Option (List UInt8)) (a : Api) (t : Task) :
    Except ApiError Reply × Api :=
  match t.exec b a now (raw t), rank_exec b a now (raw t) t with
  | (.done reply, a'), _ => (reply, a')
  | (.next t', a'), hrank =>
    have : t'.rank < t.rank := hrank
    finish b now raw a' t'
termination_by t.rank

end Task

/-! ### Requests and replies -/

/-- The body of `POST /api/setupkeys`. An empty one counts as all zeros. -/
structure KeyRequest where
  reusable : Bool
  expiresHours : ℤ

/-- The body of `PUT /api/devices/{id}/routes`. -/
structure RouteRequest where
  route : String
  approved : Bool

/-- The body of `POST /api/acl/check`. -/
structure CheckRequest where
  srcID : ℤ
  dstID : ℤ
  protocol : String
  port : UInt16

/-- A request by its route, with the path value and the decoded body. `none` is a body that the
handler cannot decode. -/
inductive Request where
  | login (body : Option Credentials)
  | signup (body : Option Credentials)
  | authInfo
  | logout
  | status
  | devices
  | deleteDevice (pathID : String)
  | setupKeys
  | createSetupKey (body : Option KeyRequest)
  | revokeSetupKey (pathID : String)
  | setRouteApproval (pathID : String) (body : Option RouteRequest)
  | getACL
  | setACL (body : Option (List ACLRule))
  | checkACL (body : Option CheckRequest)
  | users
  | createUser (body : Option CreateRequest)
  | updateUser (pathID : String) (body : Option UpdateRequest)
  | deleteUser (pathID : String)
  | signupToggle (body : Option Bool)
  | audit

/-- The error replies. -/
inductive Failure where
  | api (e : ApiError)
  | badDeviceID
  | noSuchDevice
  | notYourDevice
  | noSuchRoute
  | route (e : Coordinator.RouteError)
  | badKeyID
  | noSuchKey
  | notYourKey
  /-- `NewSetupKey` has failed. -/
  | newSetupKey
  | acl (e : ACLError)
  | checkACL (e : CheckACLError)

namespace Failure

/-- The status of a reply. -/
def status : Failure → ℕ
  | .api e => e.status
  | .badDeviceID | .badKeyID | .route _ | .acl _ => 400
  | .notYourDevice | .notYourKey => 403
  | .noSuchDevice | .noSuchRoute | .noSuchKey | .checkACL _ => 404
  | .newSetupKey => 500

/-- The text of a reply. The parameters are the `%q` verb and the texts of errors of other
packages. -/
def message (quote parseError : String → String) (hash constraint : String) : Failure → String
  | .api e => e.message quote hash constraint
  | .badDeviceID => "bad device id"
  | .noSuchDevice => "no such device"
  | .notYourDevice => "not your device"
  | .noSuchRoute => "no such device or route"
  | .route e => e.message parseError
  | .badKeyID => "bad key id"
  | .noSuchKey => "no such key"
  | .notYourKey => "not your key"
  | .newSetupKey => constraint
  | .acl e => e.message quote
  | .checkACL e => e.message

end Failure

/-- The body of `GET /api/status`. -/
structure StatusJSON where
  version : String
  network : String
  v4Prefix : String
  v6Prefix : String
  dnsDomain : String
  username : String
  role : Role
  signupEnabled : Bool
  deriving DecidableEq

/-- `deviceJSON`. -/
structure DeviceJSON where
  id : ℤ
  hostname : String
  ipv4 : String
  ipv6 : String
  os : String
  online : Bool
  lastSeen : ℤ
  created : ℤ
  routes : List (String × Bool)
  owner : String
  deriving DecidableEq

/-- `setupKeyJSON`. -/
structure SetupKeyJSON where
  id : ℤ
  key : String
  reusable : Bool
  revoked : Bool
  expired : Bool
  expiresAt : ℤ
  usedCount : ℕ
  created : ℤ
  owner : String
  deriving DecidableEq

/-- The bodies of the other replies. -/
inductive Body where
  | reply (r : Reply)
  | authInfo (signupEnabled : Bool)
  | status (s : StatusJSON)
  | devices (ds : List DeviceJSON)
  | setupKeys (ks : List SetupKeyJSON)
  | setupKey (k : SetupKeyJSON)
  | acl (rules : List ACLRule)
  | allowed (b : Bool)
  | users (us : List User)
  | audit

/-! ### The handlers -/

/-- `API`. `version` is what `version.Long` returns. -/
structure AdminServer where
  c : Coordinator
  nw : Network
  sessions : List (String × Session)
  version : String

namespace AdminServer

/-- What the account handlers see of the server. -/
def api (s : AdminServer) : Api := ⟨s.c.st, s.sessions⟩

/-- The server after an account handler. -/
def withApi (s : AdminServer) (a : Api) : AdminServer :=
  { s with c := { s.c with st := a.st }, sessions := a.sessions }

/-- The account that is called `admin` owns what nobody owns. -/
def ownerName (st : Store) (id : ℤ) : String :=
  if id = 0 then "admin"
  else match st.userByID id with
    | none => "?"
    | some u => u.username

/-- One turn of the loops that look up owners: a name is looked up once. -/
def addOwner (st : Store) (names : AList fun _ : ℤ => String) (id : ℤ) :
    AList fun _ : ℤ => String :=
  if id ∈ names then names
  else names.insert id (match st.userByID id with
    | none => "?"
    | some u => u.username)

/-- `ownerNames`. -/
def ownerNames (st : Store) (nodes : List Node) : AList fun _ : ℤ => String :=
  nodes.foldl (fun names n => addOwner st names n.ownerUserID) (AList.insert 0 "admin" ∅)

/-- The members of a network see their own things only. -/
def visible (u : User) (ownerUserID : ℤ) : Bool := u.role = .admin || ownerUserID = u.id

/-- The entry of a device. -/
def deviceJSON (s : AdminServer) (owner : String) (n : Node) : DeviceJSON where
  id := n.id
  hostname := n.hostname
  ipv4 := n.ipv4.string
  ipv6 := n.ipv6.string
  os := n.os
  online := s.c.online n.id
  lastSeen := if 0 < n.lastSeen then n.lastSeen else 0
  created := n.createdAt
  routes := (s.c.st.nodeRoutes n.id).map fun r => (r.route, r.approved)
  owner := owner

/-- `handleDevices`. -/
def handleDevices (s : AdminServer) (u : User) : List DeviceJSON :=
  let nodes := s.c.st.nodesInNetwork s.nw.id
  let names := ownerNames s.c.st nodes
  (nodes.filter fun n => visible u n.ownerUserID).map fun n =>
    s.deviceJSON ((names.lookup n.ownerUserID).getD "") n

/-- `handleDeleteDevice`. -/
def handleDeleteDevice (s : AdminServer) (pathID : String) (u : User) :
    Except Failure Body × AdminServer :=
  match parseInt 64 pathID.toList with
  | none => (.error .badDeviceID, s)
  | some id =>
    match s.c.st.nodeByID id with
    | none => (.error .noSuchDevice, s)
    | some n =>
      if visible u n.ownerUserID then
        match s.c.deleteNode id with
        | (false, c) => (.error .noSuchDevice, { s with c := c })
        | (true, c) => (.ok (.reply .ok), { s with c := c })
      else (.error .notYourDevice, s)

/-- The entry of a setup key. -/
def setupKeyJSON (now : ℤ) (owner : String) (k : SetupKey) : SetupKeyJSON where
  id := k.id
  key := k.key
  reusable := k.reusable
  revoked := k.revoked
  expired := k.isExpired now
  expiresAt := if 0 < k.expiresAt then k.expiresAt else 0
  usedCount := k.usedCount
  created := k.createdAt
  owner := owner

/-- One turn of the loop of `handleSetupKeys`. -/
def setupKeysTurn (st : Store) (now : ℤ) (u : User)
    (acc : (AList fun _ : ℤ => String) × List SetupKeyJSON) (k : SetupKey) :
    (AList fun _ : ℤ => String) × List SetupKeyJSON :=
  if visible u k.ownerUserID then
    let names := addOwner st acc.1 k.ownerUserID
    (names, acc.2 ++ [setupKeyJSON now ((names.lookup k.ownerUserID).getD "") k])
  else acc

/-- `handleSetupKeys`. -/
def handleSetupKeys (s : AdminServer) (now : ℤ) (u : User) : List SetupKeyJSON :=
  ((s.c.st.setupKeysIn s.nw.id).foldl (setupKeysTurn s.c.st now u)
    (AList.insert 0 "admin" ∅, [])).2

/-- `time.Duration(hours) * time.Hour`, in 64 bits. -/
def hoursDuration (hours : ℤ) : ℤ := (hours * (3600 * 10 ^ 9)).bmod (2 ^ 64)

/-- `handleCreateSetupKey`. `raw` is what the random generator returns. -/
def handleCreateSetupKey (s : AdminServer) (now : ℤ) (raw : Option (List UInt8))
    (body : Option KeyRequest) (u : User) : Except Failure Body × AdminServer :=
  match body with
  | none => (.error (.api .badBody), s)
  | some req =>
    let exp := if 0 < req.expiresHours then some (now + hoursDuration req.expiresHours) else none
    match raw with
    | none => (.error .newSetupKey, s)
    | some raw =>
      match s.c.st.newSetupKey now raw s.nw.id req.reusable exp u.id with
      | none => (.error .newSetupKey, s)
      | some st =>
        (.ok (.setupKey {
            id := s.c.st.setupKeys.seq + 1
            key := Store.setupKeyText raw
            reusable := req.reusable
            revoked := false
            expired := false
            expiresAt := (exp.map unixSeconds).getD 0
            usedCount := 0
            created := unixSeconds now
            owner := u.username }), { s with c := { s.c with st := st } })

/-- `handleRevokeSetupKey`. -/
def handleRevokeSetupKey (s : AdminServer) (pathID : String) (u : User) :
    Except Failure Body × AdminServer :=
  match parseInt 64 pathID.toList with
  | none => (.error .badKeyID, s)
  | some id =>
    match s.c.st.setupKeyByID id with
    | none => (.error .noSuchKey, s)
    | some k =>
      if visible u k.ownerUserID then
        match s.c.st.revokeSetupKey id with
        | none => (.error .noSuchKey, s)
        | some st => (.ok (.reply .ok), { s with c := { s.c with st := st } })
      else (.error .notYourKey, s)

/-- `handleStatus`. -/
def handleStatus (s : AdminServer) (u : User) : StatusJSON where
  version := s.version
  network := s.nw.name
  v4Prefix := s.nw.v4Prefix.string
  v6Prefix := s.nw.v6Prefix.string
  dnsDomain := if s.c.dnsBase ≠ "" then s.nw.name ++ "." ++ s.c.dnsBase else ""
  username := u.username
  role := u.role
  signupEnabled := s.api.signupEnabled

/-- `handleSetRouteApproval`. -/
def handleSetRouteApproval (s : AdminServer) (pathID : String) (body : Option RouteRequest) :
    Except Failure Body × AdminServer :=
  match parseInt 64 pathID.toList with
  | none => (.error .badDeviceID, s)
  | some id =>
    match body with
    | none => (.error (.api .badBody), s)
    | some req =>
      match s.c.setRouteApproved id req.route req.approved with
      | (.error .notFound, c) => (.error .noSuchRoute, { s with c := c })
      | (.error e, c) => (.error (.route e), { s with c := c })
      | (.ok (), c) => (.ok (.reply .ok), { s with c := c })

/-- `handleSetACL` behind the decoder. -/
def handleSetACL (s : AdminServer) (body : Option (List ACLRule)) :
    Except Failure Body × AdminServer :=
  match body with
  | none => (.error (.api .badBody), s)
  | some rules =>
    match AdminApi.handleSetACL s.c s.nw.id rules with
    | (.error e, c) => (.error (.acl e), { s with c := c })
    | (.ok (), c) => (.ok (.reply .ok), { s with c := c })

/-- `handleCheckACL` behind the decoder. -/
def handleCheckACL (s : AdminServer) (body : Option CheckRequest) : Except Failure Body :=
  match body with
  | none => .error (.api .badBody)
  | some req =>
    match AdminApi.handleCheckACL s.c.st req.srcID req.dstID req.protocol req.port with
    | .error e => .error (.checkACL e)
    | .ok b => .ok (.allowed b)

/-! ### The route table -/

section Serve

variable (b : Bcrypt) (now : ℤ) (rand : Task → Option (List UInt8)) (raw : Option (List UInt8))
  (cookie : Option String)

/-- `auth`. -/
def auth (s : AdminServer) (next : User → Except Failure Body × AdminServer) :
    Except Failure Body × AdminServer :=
  match s.api.auth now cookie with
  | .error e => (.error (.api e), s)
  | .ok u => next u

/-- `admin`. -/
def admin (s : AdminServer) (next : User → Except Failure Body × AdminServer) :
    Except Failure Body × AdminServer :=
  match s.api.admin now cookie with
  | .error e => (.error (.api e), s)
  | .ok u => next u

/-- A handler about accounts, from its first statement to its end. -/
def runTask (s : AdminServer) (t : Except ApiError Task) : Except Failure Body × AdminServer :=
  match t with
  | .error e => (.error (.api e), s)
  | .ok t =>
    match t.finish b now rand s.api with
    | (.error e, a) => (.error (.api e), s.withApi a)
    | (.ok r, a) => (.ok (.reply r), s.withApi a)

/-- `Register`: one request. `rand` is what the random generator returns to the statements of the
account handlers, `raw` what it returns to `NewSetupKey`. -/
def serve (s : AdminServer) : Request → Except Failure Body × AdminServer
  | .login body => s.runTask b now rand (Api.handleLogin body)
  | .signup body => s.runTask b now rand (.ok (.readSignup body))
  | .authInfo => (.ok (.authInfo s.api.signupEnabled), s)
  | .logout => (.ok (.reply .ok), s.withApi (s.api.handleLogout cookie))
  | .status => s.auth now cookie fun u => (.ok (.status (s.handleStatus u)), s)
  | .devices => s.auth now cookie fun u => (.ok (.devices (s.handleDevices u)), s)
  | .deleteDevice pathID => s.auth now cookie (s.handleDeleteDevice pathID)
  | .setupKeys => s.auth now cookie fun u => (.ok (.setupKeys (s.handleSetupKeys now u)), s)
  | .createSetupKey body => s.auth now cookie (s.handleCreateSetupKey now raw body)
  | .revokeSetupKey pathID => s.auth now cookie (s.handleRevokeSetupKey pathID)
  | .setRouteApproval pathID body =>
    s.admin now cookie fun _ => s.handleSetRouteApproval pathID body
  | .getACL => s.admin now cookie fun _ => (.ok (.acl (s.c.st.acl s.nw.id)), s)
  | .setACL body => s.admin now cookie fun _ => s.handleSetACL body
  | .checkACL body => s.admin now cookie fun _ => (s.handleCheckACL body, s)
  | .users => s.admin now cookie fun _ => (.ok (.users s.c.st.allUsers), s)
  | .createUser body => s.runTask b now rand (s.api.handleCreateUser now cookie body)
  | .updateUser pathID body => s.runTask b now rand (s.api.handleUpdateUser now cookie pathID body)
  | .deleteUser pathID => s.runTask b now rand (s.api.handleDeleteUser now cookie pathID)
  | .signupToggle body => s.runTask b now rand (s.api.handleSignupToggle now cookie body)
  | .audit => s.admin now cookie fun _ => (.ok .audit, s)

end Serve

end AdminServer

end AdminApi

end OverMesh
