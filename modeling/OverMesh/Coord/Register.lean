import OverMesh.Coord.Basic
import OverMesh.Internal.FirstFree
import OverMesh.Store.SetupKeys

/-!
# Registration

`Register` of `internal/coord`: a known machine key refreshes its row, an unknown one has to present
a setup key and is given a name and addresses. The five effects of an enrolment happen in sequence
and each may be followed by an error return: the key is charged, an IPv4 address is reserved, the
row is inserted with the IPv4 address standing in for the IPv6 address, the IPv6 address is derived
from the row id, and the routes are written.

Everything that is proved about registration elsewhere goes through lemmas that say what a call can
do: `register_spec`, and below it `reRegister_spec` and `enroll_spec`.

## Main definitions

* `sanitizeHostname`, `dedupeHostname`, `normalizeRoutes`
* `Coordinator.register`, with `Coordinator.reRegister` and `Coordinator.enroll`
* `EnrollResult` — the four ways an enrolment can end

## Main results

* `dedupeHostname_free` — the search for a free name ends, and ends at a free name
* `reRegister_spec`, `enroll_spec`, `register_spec`
-/

namespace OverMesh

open Netip GoText Ipam Key Store

/-! ### Host names -/

/-- The characters `hostnameRe` leaves alone. -/
def hostnameChar (c : Char) : Bool := 'a' ≤ c ∧ c ≤ 'z' ∨ '0' ≤ c ∧ c ≤ '9' ∨ c = '-'

/-- `hostnameRe.ReplaceAllString(h, "-")`: every run of other characters becomes one hyphen.
`inRun` says whether the character before belonged to such a run. -/
def replaceRuns : Bool → List Char → List Char
  | _, [] => []
  | inRun, c :: cs =>
    if hostnameChar c then c :: replaceRuns false cs
    else if inRun then replaceRuns true cs
    else '-' :: replaceRuns true cs

/-- `strings.Trim(h, "-")`. -/
def trimHyphens (h : List Char) : List Char :=
  ((h.dropWhile (· = '-')).reverse.dropWhile (· = '-')).reverse

/-- `sanitizeHostname`. After the replacement a character is a byte. -/
def sanitizeHostname (h : String) : String :=
  String.ofList ((trimHyphens (replaceRuns false ((trimSpace h.toList).map toLower))).take 63)

/-- The `i`-th name `dedupeHostname` tries: `base`, `base-2`, `base-3` and so on. -/
def candidate (base : String) : ℕ → String
  | 0 => base
  | i + 1 => base ++ "-" ++ String.ofList (decString (i + 2))

/-- The loop of `dedupeHostname` from the `i`-th name on, for at most `fuel` names. -/
def dedupeFrom (taken : String → Bool) (base : String) : ℕ → ℕ → String
  | 0, i => candidate base i
  | fuel + 1, i =>
    if taken (candidate base i) then dedupeFrom taken base fuel (i + 1) else candidate base i

/-- `dedupeHostname`. One name more than there are nodes is enough, see `dedupeHostname_free`. -/
def dedupeHostname (st : Store) (networkID : ℤ) (base : String) : String :=
  dedupeFrom (st.hostnameTaken networkID) base ((st.nodesInNetwork networkID).length + 1) 0

theorem candidate_injective (base : String) : Function.Injective (candidate base) := by
  intro i j h
  have hcancel : ∀ k : ℕ, (candidate base (k + 1)).toList =
      base.toList ++ '-' :: decString (k + 2) := fun k => by simp [candidate]
  have hlist := congrArg String.toList h
  cases i with
  | zero =>
    cases j with
    | zero => rfl
    | succ j =>
      rw [hcancel] at hlist
      simp [candidate] at hlist
  | succ i =>
    cases j with
    | zero =>
      rw [hcancel] at hlist
      simp [candidate] at hlist
    | succ j =>
      rw [hcancel, hcancel, List.append_cancel_left_eq, List.cons.injEq] at hlist
      have := decString_inj (by omega) (by omega) hlist.2
      omega

theorem dedupeFrom_eq_search (taken : String → Bool) (base : String) (fuel i : ℕ) :
    dedupeFrom taken base fuel i = FirstFree.search taken (candidate base) fuel i := by
  induction fuel generalizing i with
  | zero => rfl
  | succ fuel ih => rw [dedupeFrom, FirstFree.search, ih]

/-- **The search for a name ends at a free one.** The names are distinct, so one name more than
there are nodes cannot all be taken. -/
theorem dedupeHostname_free (st : Store) (networkID : ℤ) (base : String) :
    st.hostnameTaken networkID (dedupeHostname st networkID base) = false := by
  rw [dedupeHostname, dedupeFrom_eq_search]
  refine FirstFree.search_free (candidate_injective base)
    (l := (st.nodesInNetwork networkID).map (·.hostname)) ?_ (by simp)
  intro name htaken
  rw [hostnameTaken, List.any_eq_true] at htaken
  obtain ⟨n, hn, hname⟩ := htaken
  rw [decide_eq_true_iff] at hname
  exact List.mem_map.mpr ⟨n, mem_nodesInNetwork.mpr ⟨hn, hname.1⟩, hname.2⟩

/-- The loop of `dedupeHostname` stops: its result is the first candidate that is free. -/
theorem dedupeHostname_stops (st : Store) (networkID : ℤ) (base : String) :
    ∃ k ≤ (st.nodesInNetwork networkID).length + 1,
      dedupeHostname st networkID base = candidate base k ∧
      (∀ j < k, st.hostnameTaken networkID (candidate base j) = true) ∧
      st.hostnameTaken networkID (candidate base k) = false := by
  obtain ⟨k, hk, heq, hbefore, -⟩ := FirstFree.search_eq (st.hostnameTaken networkID)
    (candidate base) ((st.nodesInNetwork networkID).length + 1) 0
  have hfree := dedupeHostname_free st networkID base
  rw [← dedupeFrom_eq_search, Nat.zero_add] at heq
  rw [dedupeHostname, heq] at hfree
  refine ⟨k, hk, heq, ?_, hfree⟩
  intro j hj
  have := hbefore j hj
  rwa [Nat.zero_add] at this

/-! ### Routes -/

/-- The loop of `normalizeRoutes`, with the routes kept so far. The error is the bad route. -/
def normalizeFrom : List String → List String → Except String (List String)
  | out, [] => .ok out
  | out, r :: rs =>
    match Coordinator.normalizeRoute r with
    | none => .error r
    | some norm => normalizeFrom (if norm ∈ out then out else out ++ [norm]) rs

/-- `normalizeRoutes`. -/
def normalizeRoutes (routes : List String) : Except String (List String) := normalizeFrom [] routes

/-! ### The calls -/

/-- The arguments of `Register`. -/
structure RegisterRequest where
  mkey : MachinePublic
  nkey : NodePublic
  setupKey : String
  hostname : String
  osName : String
  advertisedRoutes : List String
  deriving DecidableEq

/-- Why `Register` fails. `store` is a failed constraint, `notFound` a failed lookup. -/
inductive RegisterError where
  | badRoute (route : String)
  | setupKeyRequired
  | setupKey (e : SetupKeyError)
  | ipam (e : Ipam.Error)
  | store
  | notFound
  deriving DecidableEq

/-- The text of an error. `quote` is the `%q` verb, `parseError` the error of the prefix parser,
`constraint` the one of the database. -/
def RegisterError.message (quote parseError : String → String) (constraint : String) :
    RegisterError → String
  | .badRoute r => s!"bad advertised route {quote r}: {parseError r}"
  | .setupKeyRequired => "unknown device: a setup key is required to join"
  | .setupKey e => e.message
  | .ipam e => e.message
  | .store => constraint
  | .notFound => "store: not found"

/-- What `Register` returns. -/
abbrev RegisterResult := Except RegisterError (Node × Network)

namespace Coordinator

/-- The name a returning machine gets: the one it offers if that is new and free. -/
def newName (st : Store) (n : Node) (hostname : String) : String :=
  if hostname ≠ "" ∧ hostname ≠ n.hostname ∧ st.hostnameTaken n.networkID hostname = false then
    hostname
  else n.hostname

/-- The part of `Register` for a known machine key. -/
def reRegister (c : Coordinator) (req : RegisterRequest) (routes : List String) (n : Node) :
    RegisterResult × Coordinator :=
  let name := newName c.st n (sanitizeHostname req.hostname)
  let st := c.st.updateNodeOnRegister n.id req.nkey.string name req.osName
  match st.setAdvertisedRoutes n.id routes with
  | none => (.error .store, { c with st := st })
  | some st =>
    match st.networkByID n.networkID with
    | none => (.error .notFound, { c with st := st })
    | some nw =>
      (.ok ({ n with nodeKey := req.nkey.string, hostname := name, os := req.osName }, nw),
        ({ c with st := st }).notifyNetworkLocked n.networkID)

/-- The row an enrolment inserts. -/
def enrolledNode (st : Store) (req : RegisterRequest) (nw : Network) (ownerID : ℤ) (v4 : Addr) :
    Node where
  id := 0
  networkID := nw.id
  hostname := dedupeHostname st nw.id
    (if sanitizeHostname req.hostname = "" then "node" else sanitizeHostname req.hostname)
  machineKey := req.mkey.string
  nodeKey := req.nkey.string
  ipv4 := v4
  -- Stands in until the row id is known.
  ipv6 := v4
  os := req.osName
  endpoints := []
  createdAt := 0
  lastSeen := 0
  ownerUserID := ownerID

/-- The part of `Register` for an unknown machine, after its setup key was used. -/
def enroll (c : Coordinator) (now : ℤ) (req : RegisterRequest) (routes : List String)
    (nw : Network) (ownerID : ℤ) : RegisterResult × Coordinator :=
  match c.allocatorFor nw with
  | .error e => (.error (.ipam e), c)
  | .ok (alloc, c) =>
    match alloc.allocateV4 with
    | (.error e, alloc) =>
      (.error (.ipam e), { c with ipams := Function.update c.ipams nw.id (some alloc) })
    | (.ok v4, alloc) =>
      match c.st.createNode now (enrolledNode c.st req nw ownerID v4) with
      | none => (.error .store,
          { c with ipams := Function.update c.ipams nw.id (some (alloc.release v4)) })
      | some (st, n) =>
        let c : Coordinator := { c with
          st := st
          ipams := Function.update c.ipams nw.id (some alloc) }
        match alloc.allocateV6For n.id.toNat with
        | .error e => (.error (.ipam e), c)
        | .ok v6 =>
          let st := c.st.updateNodeIPv6 n.id v6
          match if routes = [] then some st else st.setAdvertisedRoutes n.id routes with
          | none => (.error .store, { c with st := st })
          | some st =>
            (.ok ({ n with ipv6 := v6 }, nw), ({ c with st := st }).notifyNetworkLocked nw.id)

/-- `Register`. -/
def register (c : Coordinator) (now : ℤ) (req : RegisterRequest) : RegisterResult × Coordinator :=
  match normalizeRoutes req.advertisedRoutes with
  | .error r => (.error (.badRoute r), c)
  | .ok routes =>
    match c.st.nodeByMachineKey req.mkey.string with
    | some n => c.reRegister req routes n
    | none =>
      if req.setupKey = "" then (.error .setupKeyRequired, c)
      else match c.st.useSetupKey now req.setupKey with
        | (.error e, st) => (.error (.setupKey e), { c with st := st })
        | (.ok (nw, ownerID), st) => ({ c with st := st }).enroll now req routes nw ownerID

/-! ### What a call can do -/

variable {c : Coordinator} {now : ℤ} {req : RegisterRequest} {routes : List String}

/-- **Returning machines.** The call succeeds; it rewrites the row and the routes of the node. -/
theorem reRegister_spec (req : RegisterRequest) (routes : List String) {n : Node}
    (hn : n ∈ c.st.nodes.rows) : ∃ st name nw, c.st.networkByID n.networkID = some nw ∧
      st.nodes = (c.st.updateNodeOnRegister n.id req.nkey.string name req.osName).nodes ∧
      name = newName c.st n (sanitizeHostname req.hostname) ∧
      st.networks = c.st.networks ∧ st.setupKeys = c.st.setupKeys ∧
      st.aclRules = c.st.aclRules ∧
      (∀ id ≠ n.id, st.approvedNodeRoutes id = c.st.approvedNodeRoutes id) ∧
      c.reRegister req routes n =
        (.ok ({ n with nodeKey := req.nkey.string, hostname := name, os := req.osName }, nw),
          ({ c with st := st }).notifyNetworkLocked n.networkID) := by
  obtain ⟨nw, hnw, -⟩ := exists_networkByID hn
  set name := newName c.st n (sanitizeHostname req.hostname) with hname
  have hrow : ∃ m ∈ (c.st.updateNodeOnRegister n.id req.nkey.string name req.osName).nodes.rows,
      m.id = n.id := by
    refine ⟨{ n with nodeKey := req.nkey.string, hostname := name, os := req.osName }, ?_, rfl⟩
    rw [updateNodeOnRegister, rows_nodes_updateNode]
    exact List.mem_map.mpr ⟨n, hn, by rw [if_pos rfl]⟩
  obtain ⟨st, hst⟩ := exists_setAdvertisedRoutes routes hrow
  obtain ⟨hnodes, hnetworks, hkeys, hacl, -⟩ := setAdvertisedRoutes_spec hst
  refine ⟨st, name, nw, hnw, hnodes, hname, hnetworks, hkeys, hacl, ?_, ?_⟩
  · intro id hid
    exact (approvedNodeRoutes_setAdvertisedRoutes hst hid).trans rfl
  · have hnw' : st.networkByID n.networkID = some nw := by
      rw [networkByID, hnetworks]
      exact hnw
    rw [reRegister]
    simp only [← hname, hst, hnw']

/-- **The four ways an enrolment can end**, once the setup key was used. -/
inductive EnrollResult (c : Coordinator) (now : ℤ) (req : RegisterRequest) (nw : Network)
    (ownerID : ℤ) : RegisterResult × Coordinator → Prop
  /-- The prefixes of the network are refused. -/
  | refused {e : Ipam.Error} (h : c.allocatorFor nw = .error e) :
    EnrollResult c now req nw ownerID (.error (.ipam e), c)
  /-- There is no free IPv4 address. -/
  | exhausted {a : Allocator} {c' : Coordinator} {e : Ipam.Error}
    (ha : c.allocatorFor nw = .ok (a, c')) (h4 : a.allocateV4.1 = .error e) :
    EnrollResult c now req nw ownerID (.error (.ipam e),
      { c with ipams := Function.update c.ipams nw.id (some a.allocateV4.2) })
  /-- The row was inserted, but its id does not fit the IPv6 prefix. -/
  | halfBuilt {a : Allocator} {c' : Coordinator} {v4 : Addr} {st : Store} {n : Node}
    {e : Ipam.Error} (ha : c.allocatorFor nw = .ok (a, c')) (h4 : a.allocateV4.1 = .ok v4)
    (hn : c.st.createNode now (enrolledNode c.st req nw ownerID v4) = some (st, n))
    (h6 : a.allocateV4.2.allocateV6For n.id.toNat = .error e) :
    EnrollResult c now req nw ownerID (.error (.ipam e),
      { c with st := st, ipams := Function.update c.ipams nw.id (some a.allocateV4.2) })
  /-- The node is enrolled. -/
  | enrolled {a : Allocator} {c' : Coordinator} {v4 v6 : Addr} {st st' : Store} {n : Node}
    (ha : c.allocatorFor nw = .ok (a, c')) (h4 : a.allocateV4.1 = .ok v4)
    (hn : c.st.createNode now (enrolledNode c.st req nw ownerID v4) = some (st, n))
    (h6 : a.allocateV4.2.allocateV6For n.id.toNat = .ok v6)
    (hnodes : st'.nodes = (st.updateNodeIPv6 n.id v6).nodes)
    (hnetworks : st'.networks = st.networks) (hkeys : st'.setupKeys = st.setupKeys)
    (hacl : st'.aclRules = st.aclRules)
    (hroutes : ∀ id ≠ n.id, st'.approvedNodeRoutes id = st.approvedNodeRoutes id) :
    EnrollResult c now req nw ownerID (.ok ({ n with ipv6 := v6 }, nw),
      ({ c with
        st := st'
        ipams := Function.update c.ipams nw.id (some a.allocateV4.2) }).notifyNetworkLocked nw.id)

/-- Writing the routes of a node that was just inserted succeeds. -/
theorem exists_routes_of_createNode {st st' : Store} {n₀ n : Node} (routes : List String)
    (v6 : Addr) (hn : st.createNode now n₀ = some (st', n)) :
    ∃ st'', (if routes = [] then some (st'.updateNodeIPv6 n.id v6)
        else (st'.updateNodeIPv6 n.id v6).setAdvertisedRoutes n.id routes) = some st'' ∧
      st''.nodes = (st'.updateNodeIPv6 n.id v6).nodes ∧ st''.networks = st'.networks ∧
      st''.setupKeys = st'.setupKeys ∧ st''.aclRules = st'.aclRules ∧
      ∀ id ≠ n.id, st''.approvedNodeRoutes id = st'.approvedNodeRoutes id := by
  split_ifs with hnil
  · exact ⟨_, rfl, rfl, rfl, rfl, rfl, fun _ _ => rfl⟩
  · have hrow : ∃ m ∈ (st'.updateNodeIPv6 n.id v6).nodes.rows, m.id = n.id := by
      obtain ⟨-, hrows, -⟩ := createNode_spec hn
      refine ⟨{ n with ipv6 := v6 }, ?_, rfl⟩
      rw [updateNodeIPv6, rows_nodes_updateNode, hrows]
      exact List.mem_map.mpr ⟨n, by simp, by rw [if_pos rfl]⟩
    obtain ⟨st'', hst''⟩ := exists_setAdvertisedRoutes routes hrow
    obtain ⟨hnodes, hnetworks, hkeys, hacl, -⟩ := setAdvertisedRoutes_spec hst''
    exact ⟨st'', hst'', hnodes, hnetworks, hkeys, hacl,
      fun id hid => (approvedNodeRoutes_setAdvertisedRoutes hst'' hid).trans rfl⟩

/-- Every enrolment of an unknown machine in an existing network ends in one of the four ways: the
insertion and the writing of the routes cannot fail. -/
theorem enroll_spec {nw : Network} {ownerID : ℤ}
    (hmk : c.st.nodeByMachineKey req.mkey.string = none)
    (hnw : ∃ w ∈ c.st.networks.rows, w.id = nw.id) :
    EnrollResult c now req nw ownerID (c.enroll now req routes nw ownerID) := by
  cases ha : c.allocatorFor nw with
  | error e =>
    rw [enroll, ha]
    exact .refused ha
  | ok ac =>
    obtain ⟨a, c'⟩ := ac
    obtain ⟨hc', -⟩ := allocatorFor_ok ha
    cases h4 : a.allocateV4.1 with
    | error e =>
      have hpair : a.allocateV4 = (.error e, a.allocateV4.2) := Prod.ext h4 rfl
      have hres : c.enroll now req routes nw ownerID = (.error (.ipam e),
          { c with ipams := Function.update c.ipams nw.id (some a.allocateV4.2) }) := by
        simp only [enroll, ha, hc']
        rw [hpair]
        simp only [Function.update_idem]
      rw [hres]
      exact .exhausted ha h4
    | ok v4 =>
      have hpair : a.allocateV4 = (.ok v4, a.allocateV4.2) := Prod.ext h4 rfl
      obtain ⟨st, n, hn⟩ := exists_createNode (n := enrolledNode c.st req nw ownerID v4) now
        hnw hmk
      cases h6 : a.allocateV4.2.allocateV6For n.id.toNat with
      | error e =>
        have hres : c.enroll now req routes nw ownerID = (.error (.ipam e), { c with
            st := st, ipams := Function.update c.ipams nw.id (some a.allocateV4.2) }) := by
          simp only [enroll, ha, hc']
          rw [hpair]
          simp only [hn, h6, Function.update_idem]
        rw [hres]
        exact .halfBuilt ha h4 hn h6
      | ok v6 =>
        obtain ⟨st', hst', hnodes, hnetworks, hkeys, hacl, hroutes⟩ :=
          exists_routes_of_createNode routes v6 hn
        have hres : c.enroll now req routes nw ownerID = (.ok ({ n with ipv6 := v6 }, nw),
            ({ c with
              st := st'
              ipams := Function.update c.ipams nw.id
                (some a.allocateV4.2) }).notifyNetworkLocked nw.id) := by
          simp only [enroll, ha, hc']
          rw [hpair]
          simp only [hn, h6, hst', Function.update_idem]
        rw [hres]
        exact .enrolled ha h4 hn h6 hnodes hnetworks hkeys hacl hroutes

/-- The request fails before anything is written. -/
def Rejected (c : Coordinator) (now : ℤ) (req : RegisterRequest) : Prop :=
  (∃ r, normalizeRoutes req.advertisedRoutes = .error r) ∨
    c.st.nodeByMachineKey req.mkey.string = none ∧
      (req.setupKey = "" ∨ ∃ e, c.st.readSetupKey now req.setupKey = .error e)

theorem not_rejected {k : SetupKey} (hroutes : normalizeRoutes req.advertisedRoutes = .ok routes)
    (hkey : req.setupKey ≠ "") (hread : c.st.readSetupKey now req.setupKey = .ok k) :
    ¬ Rejected c now req := by
  rintro (⟨r, hr⟩ | ⟨-, hempty | ⟨e, he⟩⟩)
  · rw [hroutes] at hr
    cases hr
  · exact hkey hempty
  · rw [hread] at he
    cases he

/-- **What a call of `Register` can do.** -/
inductive RegisterOutcome (c : Coordinator) (now : ℤ) (req : RegisterRequest) :
    RegisterResult × Coordinator → Prop
  /-- The request is refused, and nothing has changed. -/
  | rejected {e : RegisterError} (h : Rejected c now req) : RegisterOutcome c now req (.error e, c)
  /-- The machine is known. -/
  | returning {routes : List String} {n : Node}
    (hroutes : normalizeRoutes req.advertisedRoutes = .ok routes)
    (hn : c.st.nodeByMachineKey req.mkey.string = some n) :
    RegisterOutcome c now req (c.reRegister req routes n)
  /-- The machine is unknown and its setup key was charged. -/
  | enrolling {routes : List String} {k : SetupKey} {nw : Network}
    {res : RegisterResult × Coordinator}
    (hroutes : normalizeRoutes req.advertisedRoutes = .ok routes)
    (hmk : c.st.nodeByMachineKey req.mkey.string = none) (hkey : req.setupKey ≠ "")
    (hread : c.st.readSetupKey now req.setupKey = .ok k)
    (hnw : c.st.networkByID k.networkID = some nw)
    (hres : EnrollResult { c with st := c.st.chargeSetupKey k } now req nw k.ownerUserID res) :
    RegisterOutcome c now req res

theorem register_spec (c : Coordinator) (now : ℤ) (req : RegisterRequest) :
    RegisterOutcome c now req (c.register now req) := by
  rw [register]
  cases hroutes : normalizeRoutes req.advertisedRoutes with
  | error r => exact .rejected (.inl ⟨r, hroutes⟩)
  | ok routes =>
    cases hn : c.st.nodeByMachineKey req.mkey.string with
    | some n => exact .returning hroutes hn
    | none =>
      by_cases hkey : req.setupKey = ""
      · simp only [hkey, if_true]
        exact .rejected (.inr ⟨hn, .inl hkey⟩)
      · simp only [if_neg hkey]
        cases hread : c.st.readSetupKey now req.setupKey with
        | error e =>
          rw [useSetupKey_of_error hread]
          exact .rejected (.inr ⟨hn, .inr ⟨e, hread⟩⟩)
        | ok k =>
          obtain ⟨nw, hnw, huse⟩ := useSetupKey_of_ok hread
          rw [huse]
          refine .enrolling hroutes hn hkey hread hnw (enroll_spec hn ?_)
          exact ⟨nw, (AutoTable.byId_eq_some_iff.mp hnw).1, rfl⟩

/-! ### A small mesh

One network of two addresses with both of them taken, a reusable key `sk-01` and a single-use key
`sk-02`. -/

/-- The key whose bytes are all `b`. -/
def sampleKey (b : UInt8) : Bytes32 := ⟨List.replicate 32 b, rfl⟩

/-- Machine `b` with node key `b`. -/
def sampleRequest (b : UInt8) (setupKey : String) : RegisterRequest :=
  ⟨⟨sampleKey b⟩, ⟨sampleKey b⟩, setupKey, "host", "linux", []⟩

/-- `10.0.0.0/30`. -/
def samplePrefix4 : Prefix := ⟨.v4 0x0a000000#32, 30, by decide, rfl⟩

/-- `fd00::/64`. -/
def samplePrefix6 : Prefix :=
  ⟨.v6 0xfd000000000000000000000000000000#128 "", 64, by decide, rfl⟩

/-- The network and the two setup keys. -/
def sampleStore : Store :=
  let s := Store.empty.ensureNetwork "default" samplePrefix4 samplePrefix6
  let s := (s.newSetupKey 0 [1] 1 true none 0).getD s
  (s.newSetupKey 0 [2] 1 false none 0).getD s

/-- The coordinator after the machines 1 and 2 have joined with the reusable key. -/
def sampleMesh : Coordinator :=
  let c := Coordinator.new sampleStore [] [] "mesh"
  let c := (c.register 0 (sampleRequest 1 "sk-01")).2
  (c.register 0 (sampleRequest 2 "sk-01")).2

/-- The row of machine `b` in the sample mesh. -/
def sampleNode (b : UInt8) (hostname : String) : Node where
  id := b.toNat
  networkID := 1
  hostname := hostname
  machineKey := (Coordinator.sampleRequest b "").mkey.string
  nodeKey := (Coordinator.sampleRequest b "").nkey.string
  ipv4 := .v4 (0x0a000000#32 + BitVec.ofNat 32 b.toNat)
  ipv6 := .v6 (0xfd000000000000000000000000000000#128 + BitVec.ofNat 128 b.toNat) ""
  os := "linux"
  endpoints := []
  createdAt := 0
  lastSeen := 0
  ownerUserID := 0

end Coordinator

end OverMesh
