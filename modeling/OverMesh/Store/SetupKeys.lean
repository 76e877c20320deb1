import OverMesh.Store.Basic

/-!
# Setup keys

The pre-auth keys of `internal/store`. `UseSetupKey` reads and validates the row in one statement
and records the use in another, and nothing but the coordinator's lock keeps other statements from
running in between. The two are separate definitions here, `readSetupKey` and `chargeSetupKey`, so
that a concurrent revocation can be placed between them; `useSetupKey` is both in a row.

## Main results

* `readSetupKey_ok_iff` — exactly which keys are accepted
* `useSetupKey_of_ok`, `useSetupKey_of_error` — a use of a usable key charges it once, a refused use
  leaves the database alone
* `Uncharged.key_cases`, `Uncharged.exists_key` — what the other statements do to the keys
-/

namespace OverMesh

open Netip GoText

/-- Why a setup key is unusable. `notFound` is the error of the network lookup. -/
inductive SetupKeyError where
  | unknown
  | revoked
  | expired
  | spent
  | notFound
  deriving DecidableEq

/-- The text of an error. -/
def SetupKeyError.message : SetupKeyError → String
  | .unknown => "unknown setup key"
  | .revoked => "setup key has been revoked"
  | .expired => "setup key has expired"
  | .spent => "setup key was single-use and is spent"
  | .notFound => "store: not found"

namespace SetupKey

/-- `time.Now().After(k.ExpiresAt)` for a key that has an expiry. -/
def isExpired (k : SetupKey) (now : ℤ) : Bool := 0 < k.expiresAt ∧ k.expiresAt * 10 ^ 9 < now

/-- A key without the flag that may change at any time. -/
def body (k : SetupKey) : SetupKey := { k with revoked := false }

/-- Rows with one body agree in all but the flag. -/
theorem of_body {k k' : SetupKey} (h : k.body = k'.body) :
    k.id = k'.id ∧ k.networkID = k'.networkID ∧ k.ownerUserID = k'.ownerUserID ∧
      k.reusable = k'.reusable ∧ k.usedCount = k'.usedCount := by
  simp only [body, SetupKey.mk.injEq] at h
  obtain ⟨hid, hnw, -, hreusable, -, -, hused, -, howner⟩ := h
  exact ⟨hid, hnw, howner, hreusable, hused⟩

end SetupKey

namespace Store

/-- The key text of 24 random bytes. -/
def setupKeyText (raw : List UInt8) : String := "sk-" ++ String.ofList (hexEncode raw)

/-- `NewSetupKey`. `raw` is what the random generator returned, `expiresAt = none` the zero time.
The result is `none` when a constraint fails: no such network, or the key text is taken. -/
def newSetupKey (s : Store) (now : ℤ) (raw : List UInt8) (networkID : ℤ) (reusable : Bool)
    (expiresAt : Option ℤ) (ownerUserID : ℤ) : Option Store :=
  if hfk : ∃ w ∈ s.networks.rows, w.id = networkID then
    match h : s.setupKeys.insert? (fun id => {
        id := id
        networkID := networkID
        key := setupKeyText raw
        reusable := reusable
        revoked := false
        expiresAt := (expiresAt.map unixSeconds).getD 0
        usedCount := 0
        createdAt := unixSeconds now
        ownerUserID := ownerUserID }) (fun _ => rfl) with
    | none => none
    | some t => some { s with
        setupKeys := t
        setupKeys_fk := fun k hk => by
          rcases (AutoTable.mem_insert? h).mp hk with hk | rfl
          · exact s.setupKeys_fk k hk
          · exact hfk }
  else none

/-- An `UPDATE setup_keys SET … WHERE id = ?`. -/
def updateSetupKey (s : Store) (id : ℤ) (f : SetupKey → SetupKey) (hid : ∀ k, (f k).id = k.id)
    (hkey : ∀ k, (f k).key = k.key) (hnw : ∀ k, (f k).networkID = k.networkID) : Store :=
  { s with
    setupKeys := s.setupKeys.update (·.id = id) f hid fun k => by rw [hkey]
    setupKeys_fk := fun k hk => by
      obtain ⟨k₀, hk₀, rfl⟩ := AutoTable.mem_update.mp hk
      obtain ⟨w, hw, hwk⟩ := s.setupKeys_fk k₀ hk₀
      refine ⟨w, hw, hwk.trans ?_⟩
      split <;> simp [hnw] }

/-- `RevokeSetupKey`. `none` is `ErrNotFound`. -/
def revokeSetupKey (s : Store) (id : ℤ) : Option Store :=
  if s.setupKeys.byId id = none then none
  else some (s.updateSetupKey id ({ · with revoked := true }) (fun _ => rfl) (fun _ => rfl)
    fun _ => rfl)

/-- The first half of `UseSetupKey`: read the key and check that it is usable. -/
def readSetupKey (s : Store) (now : ℤ) (keyStr : String) : Except SetupKeyError SetupKey :=
  match s.setupKeys.byUniq (String.ofList (trimSpace keyStr.toList)) with
  | none => .error .unknown
  | some k =>
    if k.revoked then .error .revoked
    else if k.isExpired now then .error .expired
    else if !k.reusable && 0 < k.usedCount then .error .spent
    else .ok k

/-- The second half: record the use of the key that was read. -/
def chargeSetupKey (s : Store) (k : SetupKey) : Store :=
  s.updateSetupKey k.id (fun k => { k with usedCount := k.usedCount + 1 }) (fun _ => rfl)
    (fun _ => rfl) fun _ => rfl

/-- `UseSetupKey`. -/
def useSetupKey (s : Store) (now : ℤ) (keyStr : String) :
    Except SetupKeyError (Network × ℤ) × Store :=
  match s.readSetupKey now keyStr with
  | .error e => (.error e, s)
  | .ok k =>
    (match (s.chargeSetupKey k).networkByID k.networkID with
      | none => .error .notFound
      | some nw => .ok (nw, k.ownerUserID),
     s.chargeSetupKey k)

/-! ### What the statements do -/

section Update

variable {s : Store} {id : ℤ} {f : SetupKey → SetupKey} {hid : ∀ k, (f k).id = k.id}
  {hkey : ∀ k, (f k).key = k.key} {hnw : ∀ k, (f k).networkID = k.networkID}

@[simp] theorem rows_setupKeys_updateSetupKey :
    (s.updateSetupKey id f hid hkey hnw).setupKeys.rows =
      s.setupKeys.rows.map fun k => if k.id = id then f k else k := by
  simp [updateSetupKey, AutoTable.rows_update]

end Update

/-- What a successful `NewSetupKey` does to the database: one more key, of the given owner. -/
theorem newSetupKey_spec {s s' : Store} {now nw owner : ℤ} {raw : List UInt8} {reusable : Bool}
    {expiresAt : Option ℤ} (h : s.newSetupKey now raw nw reusable expiresAt owner = some s') :
    (∃ k : SetupKey, k.ownerUserID = owner ∧ s'.setupKeys.rows = s.setupKeys.rows ++ [k]) ∧
      s'.nodes = s.nodes ∧ s'.routeTable = s.routeTable ∧ s'.aclRules = s.aclRules ∧
      s'.users = s.users ∧ s'.settings = s.settings := by
  rw [newSetupKey] at h
  split at h
  · split at h
    · cases h
    · next t ht =>
      obtain rfl := Option.some.inj h
      exact ⟨⟨_, rfl, AutoTable.rows_insert? ht⟩, rfl, rfl, rfl, rfl, rfl⟩
  · cases h

/-- What a successful `RevokeSetupKey` does to the database. -/
theorem revokeSetupKey_spec {s s' : Store} {id : ℤ} (h : s.revokeSetupKey id = some s') :
    s'.setupKeys.rows =
        s.setupKeys.rows.map (fun k => if k.id = id then { k with revoked := true } else k) ∧
      s'.nodes = s.nodes ∧ s'.routeTable = s.routeTable ∧ s'.aclRules = s.aclRules ∧
      s'.users = s.users ∧ s'.settings = s.settings := by
  rw [revokeSetupKey] at h
  split_ifs at h
  obtain rfl := Option.some.inj h
  exact ⟨rows_setupKeys_updateSetupKey, rfl, rfl, rfl, rfl, rfl⟩

@[simp] theorem nodes_newSetupKey (s : Store) (now : ℤ) (raw : List UInt8) (nw : ℤ)
    (reusable : Bool) (expiresAt : Option ℤ) (owner : ℤ) :
    ((s.newSetupKey now raw nw reusable expiresAt owner).getD s).nodes = s.nodes := by
  rw [newSetupKey]
  split
  · split <;> rfl
  · rfl

@[simp] theorem nodes_revokeSetupKey (s : Store) (id : ℤ) :
    ((s.revokeSetupKey id).getD s).nodes = s.nodes := by
  rw [revokeSetupKey]
  split <;> rfl

section Charge

variable {s : Store} {k : SetupKey}

theorem rows_setupKeys_chargeSetupKey :
    (s.chargeSetupKey k).setupKeys.rows = s.setupKeys.rows.map fun k' =>
      if k'.id = k.id then { k' with usedCount := k'.usedCount + 1 } else k' :=
  rows_setupKeys_updateSetupKey

@[simp] theorem nodes_chargeSetupKey : (s.chargeSetupKey k).nodes = s.nodes := rfl

end Charge

section Use

variable {s : Store} {now : ℤ} {keyStr : String} {k : SetupKey}

/-- **Which keys are accepted.** The row is there, it is not revoked, its expiry has not passed, and
it is reusable or was never used. -/
theorem readSetupKey_ok_iff : s.readSetupKey now keyStr = .ok k ↔
      k ∈ s.setupKeys.rows ∧ k.key = String.ofList (trimSpace keyStr.toList) ∧
        k.revoked = false ∧ k.isExpired now = false ∧ (k.reusable = true ∨ k.usedCount = 0) := by
  have hrow : ∀ k' : SetupKey,
      s.setupKeys.byUniq (String.ofList (trimSpace keyStr.toList)) = some k' ↔
        k' ∈ s.setupKeys.rows ∧ k'.key = String.ofList (trimSpace keyStr.toList) := fun k' => by
    rw [AutoTable.byUniq_eq_some_iff, Option.some.injEq]
  rw [readSetupKey]
  constructor
  · intro h
    split at h
    · cases h
    · next k' hk' =>
      split_ifs at h with hrev hexp hspent
      obtain rfl := Except.ok.inj h
      obtain ⟨hmem, hkey⟩ := (hrow k').mp hk'
      refine ⟨hmem, hkey, by simpa using hrev, by simpa using hexp, ?_⟩
      rw [Bool.and_eq_true, not_and_or] at hspent
      simpa using hspent
  · rintro ⟨hmem, hkey, hrev, hexp, hspent⟩
    rw [(hrow k).mpr ⟨hmem, hkey⟩]
    rcases hspent with h | h <;> simp [hrev, hexp, h]

/-- **A refused use** leaves the database alone. -/
theorem useSetupKey_of_error {e : SetupKeyError} (h : s.readSetupKey now keyStr = .error e) :
    s.useSetupKey now keyStr = (.error e, s) := by
  rw [useSetupKey, h]

/-- **A usable key** is charged, and the answer is its network, which is in the database, and its
owner. -/
theorem useSetupKey_of_ok (h : s.readSetupKey now keyStr = .ok k) :
    ∃ nw, s.networkByID k.networkID = some nw ∧
      s.useSetupKey now keyStr = (.ok (nw, k.ownerUserID), s.chargeSetupKey k) := by
  obtain ⟨hmem, -⟩ := readSetupKey_ok_iff.mp h
  obtain ⟨nw, hnw, hid⟩ := s.setupKeys_fk k hmem
  have hfound : (s.chargeSetupKey k).networkByID k.networkID = some nw :=
    AutoTable.byId_eq_some_iff.mpr ⟨hnw, hid⟩
  refine ⟨nw, hfound, ?_⟩
  simp only [useSetupKey, h, hfound]

end Use

/-! ### Statements that charge nothing -/

/-- From `st` to `st'` no key was charged or went away. At most one is new. -/
def Uncharged (st st' : Store) : Prop :=
  st'.setupKeys.rows.map SetupKey.body = st.setupKeys.rows.map SetupKey.body ∨
    ∃ k, st'.setupKeys.rows = st.setupKeys.rows ++ [k] ∧ k.usedCount = 0

namespace Uncharged

variable {st st' : Store}

theorem of_eq (h : st'.setupKeys = st.setupKeys) : Uncharged st st' := .inl (by rw [h])

/-- A key row was there before, or is new and unused. -/
theorem key_cases (h : Uncharged st st') {k' : SetupKey} (hk' : k' ∈ st'.setupKeys.rows) :
    (∃ k ∈ st.setupKeys.rows, k.body = k'.body) ∨
      k'.usedCount = 0 ∧ ∀ k ∈ st.setupKeys.rows, k.id ≠ k'.id := by
  rcases h with hsame | ⟨k, hrows, hused⟩
  · have hmem : k'.body ∈ st.setupKeys.rows.map SetupKey.body := by
      rw [← hsame]
      exact List.mem_map_of_mem hk'
    obtain ⟨k, hk, he⟩ := List.mem_map.mp hmem
    exact .inl ⟨k, hk, he⟩
  · have hasc := st'.setupKeys.ascending
    rw [hrows, List.pairwise_append] at hasc
    rw [hrows, List.mem_append, List.mem_singleton] at hk'
    rcases hk' with hk' | rfl
    · exact .inl ⟨k', hk', rfl⟩
    · exact .inr ⟨hused, fun k hk => ne_of_lt (hasc.2.2 k hk k' (List.mem_singleton_self _))⟩

theorem exists_key (h : Uncharged st st') {k : SetupKey} (hk : k ∈ st.setupKeys.rows) :
    ∃ k' ∈ st'.setupKeys.rows, k'.body = k.body := by
  rcases h with hsame | ⟨new, hrows, -⟩
  · have hmem : k.body ∈ st'.setupKeys.rows.map SetupKey.body := by
      rw [hsame]
      exact List.mem_map_of_mem hk
    obtain ⟨k', hk', he⟩ := List.mem_map.mp hmem
    exact ⟨k', hk', he⟩
  · refine ⟨k, ?_, rfl⟩
    rw [hrows]
    exact List.mem_append_left _ hk

theorem newSetupKey (st : Store) (now : ℤ) (raw : List UInt8) (nw : ℤ) (reusable : Bool)
    (expiresAt : Option ℤ) (owner : ℤ) :
    Uncharged st ((st.newSetupKey now raw nw reusable expiresAt owner).getD st) := by
  rw [Store.newSetupKey]
  split
  · split
    · exact .of_eq rfl
    · next t ht => exact .inr ⟨_, AutoTable.rows_insert? ht, rfl⟩
  · exact .of_eq rfl

theorem revokeSetupKey (st : Store) (id : ℤ) : Uncharged st ((st.revokeSetupKey id).getD st) := by
  rw [Store.revokeSetupKey]
  split
  · exact .of_eq rfl
  · refine .inl ?_
    rw [Option.getD_some, rows_setupKeys_updateSetupKey, List.map_map]
    refine List.map_congr_left ?_
    intro k _
    rw [Function.comp_apply]
    split <;> rfl

end Uncharged

end Store

end OverMesh
