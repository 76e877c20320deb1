import OverMesh.AdminApi.Members
import OverMesh.Internal.Runs

/-!
# How long a setup key lasts

A request for a setup key names its lifetime in hours. The handler multiplies it out to nanoseconds
in 64 bits, adds it to the clock, and the store keeps the whole seconds of the sum; on the way back
seconds that are not positive mean that the key never expires. The key is then looked at through
whatever else happens to the table of keys: other keys are made and revoked, and all are used.

## Main results

* `Store.Lasting.step`, `Store.Lasting.run` — a key that nobody revokes stays as it was made, but
  for the count of its uses
* `Store.accepts_iff` — it is accepted until its expiry
* `AdminServer.lifetime_iff` — **which lifetimes are honoured**
-/

namespace OverMesh

open GoText Runs

/-- The statements that touch the table of setup keys. -/
inductive KeyStatement where
  | new (now : ℤ) (raw : List UInt8) (networkID : ℤ) (reusable : Bool) (expiresAt : Option ℤ)
    (ownerUserID : ℤ)
  | revoke (id : ℤ)
  | use (now : ℤ) (keyStr : String)

namespace SetupKey

/-- A key without the count of its uses. -/
def lasting (k : SetupKey) : SetupKey := { k with usedCount := 0 }

theorem of_lasting {k k' : SetupKey} (h : k'.lasting = k.lasting) :
    k'.id = k.id ∧ k'.key = k.key ∧ k'.reusable = k.reusable ∧ k'.revoked = k.revoked ∧
      k'.expiresAt = k.expiresAt := by
  simp only [lasting, SetupKey.mk.injEq] at h
  obtain ⟨hid, -, hkey, hreusable, hrevoked, hexp, -, -, -⟩ := h
  exact ⟨hid, hkey, hreusable, hrevoked, hexp⟩

end SetupKey

namespace Store

variable {s s' : Store} {k : SetupKey}

/-- What a statement leaves behind. -/
def keyStep (s : Store) : KeyStatement → Store
  | .new now raw networkID reusable expiresAt ownerUserID =>
    (s.newSetupKey now raw networkID reusable expiresAt ownerUserID).getD s
  | .revoke id => (s.revokeSetupKey id).getD s
  | .use now keyStr => (s.useSetupKey now keyStr).2

/-- `UseSetupKey` returns no error. -/
def Accepts (s : Store) (now : ℤ) (keyStr : String) : Prop :=
  ∃ r, (s.useSetupKey now keyStr).1 = .ok r

/-- The key is in the table, used or not. -/
def Lasting (k : SetupKey) (s : Store) : Prop := ∃ k' ∈ s.setupKeys.rows, k'.lasting = k.lasting

theorem Lasting.append {new : SetupKey} (h : Lasting k s)
    (hrows : s'.setupKeys.rows = s.setupKeys.rows ++ [new]) : Lasting k s' := by
  obtain ⟨k', hk', he⟩ := h
  refine ⟨k', ?_, he⟩
  rw [hrows]
  exact List.mem_append_left _ hk'

/-- A key lasts through changes in place that touch the count of uses only, or another key. -/
theorem Lasting.map {f : SetupKey → SetupKey} (h : Lasting k s)
    (hrows : s'.setupKeys.rows = s.setupKeys.rows.map f)
    (hf : ∀ k' : SetupKey, k'.lasting = k.lasting → (f k').lasting = k.lasting) : Lasting k s' := by
  obtain ⟨k', hk', he⟩ := h
  refine ⟨f k', ?_, hf k' he⟩
  rw [hrows]
  exact List.mem_map_of_mem hk'

/-- **One statement** other than the revocation of the key. -/
theorem Lasting.step (h : Lasting k s) {o : KeyStatement} (ho : o ≠ .revoke k.id) :
    Lasting k (s.keyStep o) := by
  cases o with
  | new now raw nw reusable exp owner =>
    rw [keyStep]
    cases hnew : s.newSetupKey now raw nw reusable exp owner with
    | none => exact h
    | some s' =>
      obtain ⟨⟨new, -, hrows⟩, -⟩ := newSetupKey_spec hnew
      exact h.append hrows
  | revoke id =>
    rw [keyStep]
    cases hrev : s.revokeSetupKey id with
    | none => exact h
    | some s' =>
      refine h.map (revokeSetupKey_spec hrev).1 fun k' he => ?_
      have hid : k'.id ≠ id := by
        rw [(SetupKey.of_lasting he).1]
        rintro rfl
        exact ho rfl
      rw [if_neg hid]
      exact he
  | use now keyStr =>
    rw [keyStep]
    cases hread : s.readSetupKey now keyStr with
    | error e =>
      rw [useSetupKey_of_error hread]
      exact h
    | ok used =>
      obtain ⟨nw, -, huse⟩ := useSetupKey_of_ok hread
      rw [huse]
      refine h.map rows_setupKeys_chargeSetupKey fun k' he => ?_
      split_ifs <;> exact he

/-- **Runs** in which nobody revokes the key. -/
theorem Lasting.run (h : Lasting k s) {ops : List KeyStatement}
    (hops : ∀ o ∈ ops, o ≠ .revoke k.id) : Lasting k (run keyStep s ops) :=
  run_induction_along (C := fun _ o => o ≠ .revoke k.id) h (fun _ _ hs ho => hs.step ho)
    (along_of_forall (fun o ho _ => hops o ho) s)

theorem accepts_iff_readSetupKey {now : ℤ} {keyStr : String} :
    s.Accepts now keyStr ↔ ∃ k, s.readSetupKey now keyStr = .ok k := by
  cases hread : s.readSetupKey now keyStr with
  | error e =>
    rw [Accepts, useSetupKey_of_error hread]
    constructor
    · rintro ⟨_, h⟩
      cases h
    · rintro ⟨_, h⟩
      cases h
  | ok k =>
    obtain ⟨nw, -, huse⟩ := useSetupKey_of_ok hread
    rw [Accepts, huse]
    exact ⟨fun _ => ⟨k, rfl⟩, fun _ => ⟨_, rfl⟩⟩

/-- **A reusable key that lasts** is accepted as long as it has not expired. -/
theorem accepts_iff (h : Lasting k s) (hreusable : k.reusable = true) (hrevoked : k.revoked = false)
    (hkey : String.ofList (trimSpace k.key.toList) = k.key) (now : ℤ) :
    s.Accepts now k.key ↔ k.isExpired now = false := by
  obtain ⟨k', hk', he⟩ := h
  obtain ⟨-, hk'key, hk'reusable, hk'revoked, hk'exp⟩ := SetupKey.of_lasting he
  have hexpired : k'.isExpired now = k.isExpired now := by
    rw [SetupKey.isExpired, SetupKey.isExpired, hk'exp]
  rw [accepts_iff_readSetupKey]
  constructor
  · rintro ⟨k₁, hread⟩
    obtain ⟨hk₁, hk₁key, -, hexp, -⟩ := readSetupKey_ok_iff.mp hread
    -- The text is the key of one row.
    obtain rfl : k₁ = k' := by
      have hsame : k₁.key = k'.key := by rw [hk₁key, hkey, hk'key]
      exact AutoTable.eq_of_uniq_eq hk₁ hk' (congrArg some hsame) rfl
    rw [← hexpired]
    exact hexp
  · intro hexp
    refine ⟨k', readSetupKey_ok_iff.mpr ⟨hk', ?_, ?_, ?_, .inl ?_⟩⟩
    · rw [hk'key, hkey]
    · rw [hk'revoked, hrevoked]
    · rw [hexpired, hexp]
    · rw [hk'reusable, hreusable]

/-- The row that `NewSetupKey` adds. -/
theorem lasting_newSetupKey {now nw owner : ℤ} {raw : List UInt8} {reusable : Bool}
    {expiresAt : Option ℤ} (h : s.newSetupKey now raw nw reusable expiresAt owner = some s') :
    Lasting ⟨s.setupKeys.seq + 1, nw, setupKeyText raw, reusable, false,
      (expiresAt.map unixSeconds).getD 0, 0, unixSeconds now, owner⟩ s' := by
  rw [newSetupKey] at h
  split at h
  · split at h
    · cases h
    · next t ht =>
      obtain rfl := Option.some.inj h
      refine ⟨_, ?_, rfl⟩
      rw [AutoTable.rows_insert? ht]
      exact List.mem_append_right _ (List.mem_singleton_self _)
  · cases h

/-- Nothing is trimmed from the text of a key. -/
theorem trimSpace_setupKeyText (raw : List UInt8) :
    String.ofList (trimSpace (setupKeyText raw).toList) = setupKeyText raw := by
  have htext : (setupKeyText raw).toList = ['s', 'k', '-'] ++ hexEncode raw := by
    simp [setupKeyText]
  have hspace : ∀ c ∈ ['s', 'k', '-'] ++ hexEncode raw, isSpace c = false := by
    intro c hc
    rcases List.mem_append.mp hc with hc | hc
    · simp only [List.mem_cons, List.not_mem_nil, or_false] at hc
      rcases hc with rfl | rfl | rfl <;> decide
    · exact isSpace_of_mem_hexEncode hc
  have htrim := trimSpace_append (l := []) (r := []) (fun _ h => absurd h List.not_mem_nil)
    (fun _ h => absurd h List.not_mem_nil) (by simp : ['s', 'k', '-'] ++ hexEncode raw ≠ [])
    (fun c hc => hspace c (List.mem_of_mem_head? hc)) fun c hc => hspace c (List.mem_of_getLast? hc)
  rw [List.nil_append, List.append_nil] at htrim
  rw [htext, htrim, ← htext, String.ofList_toList]

end Store

/-! ### Lifetimes -/

/-- A second, in nanoseconds. -/
def second : ℤ := 10 ^ 9

/-- So many hours, in nanoseconds. -/
def hours (h : ℤ) : ℤ := h * (3600 * second)

/-- A key is expired when the seconds it keeps are positive and have passed. -/
theorem SetupKey.isExpired_iff {k : SetupKey} {e : ℤ} (hexp : k.expiresAt = unixSeconds e) (t : ℤ) :
    k.isExpired t = true ↔ second ≤ e ∧ e / second * second < t := by
  rw [isExpired, decide_eq_true_iff, hexp, unixSeconds]
  unfold second
  omega

/-- **What rounding and wrapping leave of a lifetime.** A key that expires in the whole seconds of
`t0 + d` lasts from `t0` to the last second of `t0 + life` and no longer, just when nothing was lost
on the way to `d` and the expiry is after 1970. -/
theorem SetupKey.lasts_iff {k : SetupKey} {t0 life d : ℤ}
    (hexp : k.expiresAt = unixSeconds (t0 + d)) (hlife : second ≤ life)
    (hd : d = life ∨ d ≤ life - 2 ^ 64) :
    ((∀ t, t0 ≤ t → t ≤ t0 + life - second → k.isExpired t = false) ∧
      ∀ t, t0 + life < t → k.isExpired t = true) ↔ d = life ∧ second ≤ t0 + life := by
  have hexpired := isExpired_iff hexp
  have hfloor : (t0 + d) / second * second ≤ t0 + d ∧
      t0 + d < (t0 + d) / second * second + second := by
    unfold second
    omega
  have hsecond : second < 2 ^ 62 := by decide
  generalize (t0 + d) / second * second = f at hexpired hfloor
  constructor
  · rintro ⟨hbefore, hafter⟩
    obtain ⟨hpos, -⟩ := (hexpired _).mp (hafter (t0 + life + 1) (by omega))
    rcases hd with rfl | hd
    · exact ⟨rfl, hpos⟩
    · -- The key is refused at a time when it should last.
      have hlasts := hbefore (max t0 (f + 1)) (le_max_left _ _) (max_le (by omega) (by omega))
      rw [(hexpired _).mpr ⟨hpos, lt_of_lt_of_le (lt_add_one f) (le_max_right _ _)⟩] at hlasts
      exact Bool.noConfusion hlasts
  · rintro ⟨rfl, hpos⟩
    refine ⟨fun t _ ht => ?_, fun t ht => (hexpired t).mpr ⟨hpos, by omega⟩⟩
    refine Bool.eq_false_iff.mpr fun he => ?_
    have := ((hexpired t).mp he).2
    omega

namespace AdminApi

namespace AdminServer

/-- The product is exact, or wraps to less. -/
theorem hoursDuration_cases {h : ℤ} (hpos : 0 < h) : hours h < 2 ^ 63 ∧ hoursDuration h = hours h ∨
      2 ^ 63 ≤ hours h ∧ hoursDuration h ≤ hours h - 2 ^ 64 := by
  simp only [hoursDuration, hours, second, Int.bmod]
  split_ifs <;> omega

/-- What a request for a key that expires leaves behind, and answers. -/
theorem handleCreateSetupKey_ok {s s' : AdminServer} {now h : ℤ} {raw : List UInt8}
    {reusable : Bool} {u : User} {k : SetupKeyJSON} (hpos : 0 < h)
    (hok : s.handleCreateSetupKey now (some raw) (some ⟨reusable, h⟩) u = (.ok (.setupKey k), s')) :
    k.id = s.c.st.setupKeys.seq + 1 ∧ k.key = Store.setupKeyText raw ∧
      s.c.st.newSetupKey now raw s.nw.id reusable (some (now + hoursDuration h)) u.id =
        some s'.c.st := by
  simp only [handleCreateSetupKey, if_pos hpos] at hok
  cases hnew : s.c.st.newSetupKey now raw s.nw.id reusable (some (now + hoursDuration h)) u.id with
  | none =>
    rw [hnew] at hok
    cases hok
  | some st =>
    rw [hnew] at hok
    cases hok
    exact ⟨rfl, rfl, rfl⟩

/-- A key is made if the store takes it. -/
theorem exists_handleCreateSetupKey {s : AdminServer} {now h : ℤ} {raw : List UInt8}
    {reusable : Bool} {u : User} (hpos : 0 < h)
    (hnew : (s.c.st.newSetupKey now raw s.nw.id reusable (some (now + hoursDuration h))
      u.id).isSome = true) :
    ∃ k s', s.handleCreateSetupKey now (some raw) (some ⟨reusable, h⟩) u =
      (.ok (.setupKey k), s') := by
  obtain ⟨st, hst⟩ := Option.isSome_iff_exists.mp hnew
  simp only [handleCreateSetupKey, if_pos hpos, hst]
  exact ⟨_, _, rfl⟩

/-- **Which lifetimes are honoured**: those whose nanoseconds fit into 64 bits, with an expiry after
1970. The key is any reusable one that a request for `h` hours at `t0` has made, looked at after
anything that can happen to the table of keys but its own revocation. -/
theorem lifetime_iff {s s' : AdminServer} {t0 h : ℤ} {raw : List UInt8} {u : User}
    {k : SetupKeyJSON} (hpos : 0 < h)
    (hok : s.handleCreateSetupKey t0 (some raw) (some ⟨true, h⟩) u = (.ok (.setupKey k), s')) :
    (∀ ops, (∀ o ∈ ops, o ≠ KeyStatement.revoke k.id) →
      (∀ t, t0 ≤ t → t ≤ t0 + hours h - second →
        (run Store.keyStep s'.c.st ops).Accepts t k.key) ∧
      ∀ t, t0 + hours h < t → ¬(run Store.keyStep s'.c.st ops).Accepts t k.key) ↔
    hours h < 2 ^ 63 ∧ second ≤ t0 + hours h := by
  obtain ⟨hid, hkey, hnew⟩ := handleCreateSetupKey_ok hpos hok
  have hlasting := Store.lasting_newSetupKey hnew
  generalize hrow : SetupKey.mk _ _ _ _ _ _ _ _ _ = row at hlasting
  have haccepts : ∀ ops, (∀ o ∈ ops, o ≠ KeyStatement.revoke k.id) → ∀ t,
      (run Store.keyStep s'.c.st ops).Accepts t k.key ↔ row.isExpired t = false := by
    intro ops hops t
    subst hrow
    rw [hkey]
    rw [hid] at hops
    exact Store.accepts_iff (hlasting.run hops) rfl rfl (Store.trimSpace_setupKeyText raw) t
  have hexp : row.expiresAt = unixSeconds (t0 + hoursDuration h) := by
    rw [← hrow]
    rfl
  have hsecond : second ≤ hours h := by
    simp only [hours, second]
    omega
  have hlasts := SetupKey.lasts_iff hexp hsecond
    ((hoursDuration_cases hpos).imp And.right And.right)
  have hexact : hoursDuration h = hours h ↔ hours h < 2 ^ 63 := by
    have := hoursDuration_cases hpos
    omega
  rw [hexact] at hlasts
  rw [← hlasts]
  constructor
  · intro hall
    have hrefl : ∀ o ∈ ([] : List KeyStatement), o ≠ KeyStatement.revoke k.id :=
      fun o ho => absurd ho List.not_mem_nil
    obtain ⟨hbefore, hafter⟩ := hall [] hrefl
    refine ⟨fun t h0 h1 => (haccepts [] hrefl t).mp (hbefore t h0 h1), fun t ht => ?_⟩
    rw [← Bool.not_eq_false, ← haccepts [] hrefl t]
    exact hafter t ht
  · rintro ⟨hbefore, hafter⟩ ops hops
    refine ⟨fun t h0 h1 => (haccepts ops hops t).mpr (hbefore t h0 h1), fun t ht => ?_⟩
    rw [haccepts ops hops t, Bool.not_eq_false]
    exact hafter t ht

/-- `mia` asks for a key for so many hours, in the autumn of 2023. -/
def sampleCreate (h : ℤ) : Except Failure Body × AdminServer :=
  (sampleServer sampleMembers).handleCreateSetupKey (1700000000 * second) (some [1])
    (some ⟨true, h⟩) sampleMember

/-- A key for a day is good for a day. -/
theorem lifetime_day :
    ∃ k s', sampleCreate 24 = (.ok (.setupKey k), s') ∧
      s'.c.st.Accepts (1700000000 * second + hours 23) k.key ∧
      ¬s'.c.st.Accepts (1700000000 * second + hours 25) k.key := by
  obtain ⟨k, s', hok⟩ : ∃ k s', sampleCreate 24 = (.ok (.setupKey k), s') :=
    exists_handleCreateSetupKey (by decide) (by decide +kernel)
  obtain ⟨hbefore, hafter⟩ := (lifetime_iff (by decide) hok).mpr (by decide) []
    fun o ho => absurd ho List.not_mem_nil
  exact ⟨k, s', hok, hbefore _ (by decide) (by decide), hafter _ (by decide)⟩

/-- A key for five million hours is refused after one. -/
theorem lifetime_wrapped :
    ∃ k s', sampleCreate 5124096 = (.ok (.setupKey k), s') ∧
      (s'.c.st.useSetupKey (1700000000 * second + hours 1) k.key).1 = .error .expired := by
  obtain ⟨k, s', hok⟩ : ∃ k s', sampleCreate 5124096 = (.ok (.setupKey k), s') :=
    exists_handleCreateSetupKey (by decide) (by decide +kernel)
  obtain ⟨-, hkey, hnew⟩ := handleCreateSetupKey_ok (by decide) hok
  refine ⟨k, s', hok, ?_⟩
  have huse : (sampleMembers.newSetupKey (1700000000 * second) [1] 1 true
      (some (1700000000 * second + hoursDuration 5124096)) 2).map
        (fun st => (st.useSetupKey (1700000000 * second + hours 1) (Store.setupKeyText [1])).1) =
      some (.error .expired) := by
    decide +kernel
  rw [hkey]
  have hsome := congrArg (Option.map fun st : Store =>
    (st.useSetupKey (1700000000 * second + hours 1) (Store.setupKeyText [1])).1) hnew
  exact Option.some.inj (hsome.symm.trans huse)

end AdminServer

end AdminApi

end OverMesh
