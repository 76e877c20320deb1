import OverMesh.Coord.Register

/-!
# When a failed enrolment leaves no trace

`Register` charges the setup key of an unknown machine before it knows whether there is an address
for it, and it inserts the row before it knows whether the row id fits the IPv6 prefix. An error
after either point is returned as it is; the one compensation in the code, for an insertion that
fails, undoes the reservation of the address only.

So the all-or-nothing reading of a registration holds exactly when no error can happen past the
charge.

## Main results

* `register_allOrNothing_iff` — the exact condition
* `register_exhausted_charges` — a single-use key spent on a registration that failed
-/

namespace OverMesh

open Netip Ipam Key

namespace Coordinator

/-- The tables a registration writes and the addresses in use are the same. -/
structure Untouched (c c' : Coordinator) : Prop where
  nodes : c'.st.nodes.rows = c.st.nodes.rows
  setupKeys : c'.st.setupKeys.rows = c.st.setupKeys.rows
  routeTable : c'.st.routeTable = c.st.routeTable
  used : ∀ w, (c'.ipams w).map (·.used) = (c.ipams w).map (·.used)

theorem Untouched.refl (c : Coordinator) : Untouched c c := ⟨rfl, rfl, rfl, fun _ => rfl⟩

/-- If the call fails, it leaves no trace. -/
def AllOrNothing (c : Coordinator) (now : ℤ) (req : RegisterRequest) : Prop :=
  ∀ e, (c.register now req).1 = .error e → Untouched c (c.register now req).2

/-- The network has addresses for one more node: its prefixes are accepted, an IPv4 address is
free, and the next row id fits the IPv6 prefix. -/
def CanHost (c : Coordinator) (nw : Network) : Prop :=
  ∃ a c', c.allocatorFor nw = .ok (a, c') ∧
    (∃ v4, a.v4.contains v4 = true ∧ Free a.v4 a.used v4) ∧
    ∃ v6, a.allocateV6For (c.st.nodes.seq + 1).toNat = .ok v6

variable {c : Coordinator} {now : ℤ} {req : RegisterRequest} {k : SetupKey} {nw : Network}

/-- A charge shows in the table. -/
theorem chargeSetupKey_ne (hk : k ∈ c.st.setupKeys.rows) :
    (c.st.chargeSetupKey k).setupKeys.rows ≠ c.st.setupKeys.rows := by
  intro h
  obtain ⟨i, hi, rfl⟩ := List.getElem_of_mem hk
  have hrow := congrArg (fun rows => (rows[i]?).map SetupKey.usedCount) h
  simp [Store.rows_setupKeys_chargeSetupKey, hi] at hrow

/-- An enrolment fails exactly when the network has no addresses for one more node. A failed one
leaves the setup keys charged. -/
theorem EnrollResult.error_iff {res : RegisterResult × Coordinator} {ownerID : ℤ}
    (h : EnrollResult c now req nw ownerID res) :
    (∃ e, res.1 = .error e ∧ res.2.st.setupKeys = c.st.setupKeys ∧ ¬ CanHost c nw) ∨
      (∃ x, res.1 = .ok x) ∧ CanHost c nw := by
  cases h with
  | refused h =>
    refine .inl ⟨_, rfl, rfl, ?_⟩
    rintro ⟨a, c', ha, -⟩
    rw [h] at ha
    cases ha
  | exhausted ha h4 =>
    refine .inl ⟨_, rfl, rfl, ?_⟩
    rintro ⟨a', c'', ha', hfree, -⟩
    obtain ⟨rfl, -⟩ := Prod.mk.inj (Except.ok.inj (ha.symm.trans ha'))
    obtain ⟨v4, hv4⟩ := Allocator.allocateV4_isOk_iff.mpr hfree
    rw [h4] at hv4
    cases hv4
  | halfBuilt ha h4 hn h6 =>
    obtain ⟨rfl, -, -, -, hkeys, -⟩ := Store.createNode_spec hn
    refine .inl ⟨_, rfl, hkeys, ?_⟩
    rintro ⟨a', c'', ha', -, v6, hv6⟩
    obtain ⟨rfl, -⟩ := Prod.mk.inj (Except.ok.inj (ha.symm.trans ha'))
    -- Reserving an address does not change the IPv6 prefix.
    have := h6.symm.trans hv6
    cases this
  | enrolled ha h4 hn h6 hnodes hnetworks hkeys hacl hroutes =>
    obtain ⟨rfl, -⟩ := Store.createNode_spec hn
    exact .inr ⟨⟨_, rfl⟩, _, _, ha, Allocator.allocateV4_isOk_iff.mp ⟨_, h4⟩, _, h6⟩

/-- Charging the key does not change what the network can host. -/
theorem canHost_charge_iff : CanHost { c with st := c.st.chargeSetupKey k } nw ↔ CanHost c nw := by
  have halloc : ∀ a, (∃ c', allocatorFor { c with st := c.st.chargeSetupKey k } nw = .ok (a, c')) ↔
      ∃ c', allocatorFor c nw = .ok (a, c') := fun a => by
    unfold allocatorFor
    cases c.ipams nw.id with
    | some a => simp
    | none => cases Ipam.new (some nw.v4Prefix) (some nw.v6Prefix) <;> simp [Store.nodesInNetwork]
  constructor
  · rintro ⟨a, c', ha, hrest⟩
    obtain ⟨c'', ha'⟩ := (halloc a).mp ⟨c', ha⟩
    exact ⟨a, c'', ha', hrest⟩
  · rintro ⟨a, c', ha, hrest⟩
    obtain ⟨c'', ha'⟩ := (halloc a).mpr ⟨c', ha⟩
    exact ⟨a, c'', ha', hrest⟩

/-- **When a failed registration leaves no trace.** For an unknown machine: exactly when the request
fails before the setup key is charged, or the key's network has addresses for one more node. -/
theorem register_allOrNothing_iff (hmk : c.st.nodeByMachineKey req.mkey.string = none) :
    AllOrNothing c now req ↔ Rejected c now req ∨
      ∃ k nw, c.st.readSetupKey now req.setupKey = .ok k ∧
        c.st.networkByID k.networkID = some nw ∧ CanHost c nw := by
  have hspec := register_spec c now req
  rw [AllOrNothing]
  generalize c.register now req = res at hspec ⊢
  cases hspec with
  | rejected h => exact ⟨fun _ => .inl h, fun _ _ _ => Untouched.refl c⟩
  | returning hroutes hn =>
    rw [hmk] at hn
    cases hn
  | @enrolling routes k nw res hroutes _ hkey hread hnw hres =>
    have hmem := (Store.readSetupKey_ok_iff.mp hread).1
    rcases hres.error_iff with ⟨e, herr, hkeys, hfull⟩ | ⟨⟨x, hok⟩, hfits⟩
    · rw [canHost_charge_iff] at hfull
      constructor
      · intro h
        have hrows := (h e herr).setupKeys
        rw [hkeys] at hrows
        exact absurd hrows (chargeSetupKey_ne hmem)
      · rintro (hrej | ⟨k', nw', hread', hnw', hfits⟩)
        · exact absurd hrej (not_rejected hroutes hkey hread)
        · obtain rfl := Except.ok.inj (hread.symm.trans hread')
          obtain rfl := Option.some.inj (hnw.symm.trans hnw')
          exact absurd hfits hfull
    · rw [canHost_charge_iff] at hfits
      refine ⟨fun _ => .inr ⟨k, nw, hread, hnw, hfits⟩, ?_⟩
      intro _ e he
      rw [hok] at he
      cases he

/-- A request without a setup key leaves no trace. -/
theorem allOrNothing_without_key :
    sampleMesh.st.nodeByMachineKey (sampleRequest 3 "").mkey.string = none ∧
      AllOrNothing sampleMesh 0 (sampleRequest 3 "") :=
  have hmk : sampleMesh.st.nodeByMachineKey (sampleRequest 3 "").mkey.string = none := by
    decide +kernel
  ⟨hmk, (register_allOrNothing_iff hmk).mpr (.inl (.inr ⟨hmk, .inl rfl⟩))⟩

/-- **A key spent on nothing.** Both addresses of the network are taken. The registration of a third
machine fails, and the single-use key it presented is used up. -/
theorem register_exhausted_charges :
    sampleMesh.st.nodeByMachineKey (sampleRequest 3 "sk-02").mkey.string = none ∧
      (sampleMesh.register 0 (sampleRequest 3 "sk-02")).1 =
        .error (.ipam (.exhausted samplePrefix4)) ∧
      sampleMesh.st.setupKeys.rows.map (·.usedCount) = [2, 0] ∧
      (sampleMesh.register 0 (sampleRequest 3 "sk-02")).2.st.setupKeys.rows.map (·.usedCount) =
        [2, 1] := by
  decide +kernel

end Coordinator

end OverMesh
