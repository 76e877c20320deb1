import OverMesh.Internal.Netip
import OverMesh.Internal.Runs

/-!
# The services in the tunnel

The mobile core serves overlay DNS and receives files on the address of the tunnel. Both can start
only when the application has told the core that the tunnel is set up, and the DNS server only when
there are names to serve. So they are started by whatever comes last, and `startInTunnelServices`
is called again and again.

What was started is remembered in `dnsStarted` and in the pointer to the OverDrop server. `Stop`
forgets the servers but not the flag, and a call that the application makes between two sessions
makes an OverDrop server for the address of the session before. The next session inherits either.

The calls of a sequence happen one after the other, netmaps arrive while the core is started, and
starting a listener succeeds.

## Main definitions

* `Services`, `Services.startInTunnelServices` and the calls
* `Watched` — with records of what happened since the last `Start`
* `ServicesUp` — the services are up when they should be
* `Unspoiled` — nothing is left over from earlier sessions when the services are due

## Main results

* `servicesUp_iff` — **the services are up in every state of a run if and only if they were
  unspoiled when they were due**
-/

namespace OverMesh

open Netip Runs

namespace Mobilecore

/-- A server: the address on which it was started, and whether it was closed. -/
structure Service where
  addr : Option Addr
  closed : Bool
  deriving DecidableEq

/-- The server that a pointer points to. -/
def deref (heap : List Service) (p : Option ℕ) : Option Service := p.bind fun i => heap[i]?

/-- Change the server that a pointer points to. -/
def assign (heap : List Service) (p : Option ℕ) (f : Service → Service) : List Service :=
  match p with
  | none => heap
  | some i => heap.modify i f

/-- The part of `Core` that has to do with the services. `started` says that `cancel` is set. The
two lists are the servers that were ever made, to which the pointers point. -/
structure Services where
  started : Bool
  selfV4 : Option Prefix
  inTunnelUp : Bool
  dnsStarted : Bool
  dnsSrv : Option ℕ
  dropSrv : Option ℕ
  dnsServers : List Service
  dropServers : List Service

/-- How `Start` ends when the core is not started yet. -/
inductive StartResult where
  /-- The configuration is refused before the lock is taken. -/
  | badConfig
  /-- There is no connection, no registration, or no usable address. -/
  | failed
  /-- There is an address and no engine. -/
  | noEngine (selfV4 : Prefix)
  | ok (selfV4 : Prefix)

namespace Services

/-- `NewCore`. -/
def new : Services := ⟨false, none, false, false, none, none, [], []⟩

/-- `startInTunnelServices`. -/
def startInTunnelServices (s : Services) : Services :=
  match s.selfV4 with
  | none => s
  | some v4 =>
    let startDNS := s.dnsSrv.isSome && !s.dnsStarted
    let needDrop := s.dropSrv.isNone
    { s with
      dnsStarted := s.dnsStarted || startDNS
      dnsServers :=
        if startDNS then assign s.dnsServers s.dnsSrv ({ · with addr := some v4.addr })
        else s.dnsServers
      dropSrv := if needDrop then some s.dropServers.length else s.dropSrv
      dropServers :=
        if needDrop then s.dropServers ++ [⟨some v4.addr, false⟩] else s.dropServers }

/-- `Start`. -/
def start (s : Services) (r : StartResult) : Services :=
  if s.started then s
  else match r with
    | .badConfig => s
    | .failed => { s with inTunnelUp := false }
    | .noEngine v4 => { s with inTunnelUp := false, selfV4 := some v4 }
    | .ok v4 => { s with inTunnelUp := false, selfV4 := some v4, started := true }

/-- `Stop`. -/
def stop (s : Services) : Services :=
  if s.started then
    { s with
      started := false
      dnsSrv := none
      dropSrv := none
      dnsServers := assign s.dnsServers s.dnsSrv ({ · with closed := true })
      dropServers := assign s.dropServers s.dropSrv ({ · with closed := true }) }
  else s

/-- `NetworkSettingsApplied`. -/
def networkSettingsApplied (s : Services) : Services :=
  if s.inTunnelUp || s.selfV4.isNone then s
  else startInTunnelServices { s with inTunnelUp := true }

/-- The DNS server of `updateDNSRecords`, which is made for the first netmap. -/
def ensureDNS (s : Services) : Services :=
  if s.dnsSrv.isSome then s
  else { s with
    dnsSrv := some s.dnsServers.length
    dnsServers := s.dnsServers ++ [⟨none, false⟩] }

/-- `updateDNSRecords`, for a netmap with this DNS domain. -/
def updateDNSRecords (s : Services) (domain : String) : Services :=
  if domain = "" then s
  else if s.ensureDNS.inTunnelUp then s.ensureDNS.startInTunnelServices else s.ensureDNS

end Services

/-- The calls and events. -/
inductive ServiceOp where
  | start (r : StartResult)
  | stop
  | networkSettingsApplied
  | netMap (domain : String)

/-- The core with records of what happened since the latest `Start`. -/
structure Watched where
  core : Services
  /-- `NetworkSettingsApplied` was called. -/
  settled : Bool
  /-- A netmap with a DNS domain has arrived. -/
  mapped : Bool

/-- A `Start` that succeeds. -/
def ServiceOp.starts (s : Services) : ServiceOp → Bool
  | .start (.ok _) => !s.started
  | _ => false

/-- One call or event. There are no netmaps unless the core is started. -/
def Watched.step (w : Watched) : ServiceOp → Watched
  | .start r =>
    let fresh := (ServiceOp.start r).starts w.core
    ⟨w.core.start r, w.settled && !fresh, w.mapped && !fresh⟩
  | .stop => { w with core := w.core.stop }
  | .networkSettingsApplied => { w with core := w.core.networkSettingsApplied, settled := true }
  | .netMap domain =>
    if w.core.started then
      { w with core := w.core.updateDNSRecords domain, mapped := w.mapped || domain ≠ "" }
    else w

/-- A core that was never started. -/
def Watched.new : Watched := ⟨.new, false, false⟩

/-- The servers of this session listen on the address of the tunnel. -/
def Services.Listening (s : Services) : Prop :=
  ∃ v4, s.selfV4 = some v4 ∧ deref s.dnsServers s.dnsSrv = some ⟨some v4.addr, false⟩ ∧
    deref s.dropServers s.dropSrv = some ⟨some v4.addr, false⟩

/-- **The services are up** when the tunnel is set up and there are names to serve. -/
def ServicesUp (w : Watched) : Prop :=
  w.core.started = true → w.settled = true → w.mapped = true → w.core.Listening

/-- Nothing is left over from earlier sessions: no DNS server counts as started, and if there is an
OverDrop server, it is one for the address of the tunnel. -/
def Services.Fresh (s : Services) : Prop :=
  s.dnsStarted = false ∧ (s.dropSrv = none ∨ ∃ v4, s.selfV4 = some v4 ∧
    deref s.dropServers s.dropSrv = some ⟨some v4.addr, false⟩)

/-- When the services become due, nothing is left over. -/
def Unspoiled (w : Watched) : ServiceOp → Prop
  | .networkSettingsApplied =>
    w.core.started = true → w.settled = false → w.mapped = true → w.core.Fresh
  | .netMap domain =>
    w.core.started = true → w.settled = true → w.mapped = false → domain ≠ "" → w.core.Fresh
  | .start _ | .stop => True

/-! ### Pointers -/

section Heap

variable {heap : List Service} {p : Option ℕ} {svc : Service} {f : Service → Service}

theorem deref_push : deref (heap ++ [svc]) (some heap.length) = some svc := by
  rw [deref, Option.bind_some, List.getElem?_append_right (le_refl _), Nat.sub_self]
  rfl

theorem deref_assign (h : deref heap p = some svc) : deref (assign heap p f) p = some (f svc) := by
  cases p with
  | none => cases h
  | some i =>
    rw [deref, Option.bind_some] at h ⊢
    rw [assign, List.getElem?_modify_eq, h]
    rfl

theorem ne_none_of_deref (h : deref heap p = some svc) : p ≠ none := by
  rintro rfl
  cases h

end Heap

/-! ### What holds in every state -/

/-- What every sequence of calls keeps. While the core is started, the flags say what has happened,
and until the services are due the DNS server is one that was not started. -/
structure ServicesInv (w : Watched) : Prop where
  self : w.core.started = true → ∃ v4, w.core.selfV4 = some v4
  settled : w.core.started = true → w.core.inTunnelUp = w.settled
  mapped : w.core.started = true → w.core.dnsSrv.isSome = w.mapped
  idle : w.core.started = false → w.core.dnsSrv = none
  dns : w.core.started = true → w.settled = false → w.mapped = true →
    deref w.core.dnsServers w.core.dnsSrv = some ⟨none, false⟩
  dropUp : w.core.started = true → w.settled = true → w.core.dropSrv.isSome = true

namespace Services

variable {s : Services} {v4 : Prefix}

/-- What `startInTunnelServices` does, once the core has an address. -/
theorem startInTunnelServices_spec (h : s.selfV4 = some v4) : let s' := s.startInTunnelServices
    s'.started = s.started ∧ s'.selfV4 = some v4 ∧ s'.inTunnelUp = s.inTunnelUp ∧
      s'.dnsSrv = s.dnsSrv ∧ s'.dropSrv.isSome = true := by
  rw [startInTunnelServices, h]
  refine ⟨rfl, rfl, rfl, rfl, ?_⟩
  cases hdrop : s.dropSrv with
  | none => rfl
  | some j => rfl

/-- **The services come up when they are due if and only if nothing is left over.** -/
theorem listening_startInTunnelServices_iff (h : s.selfV4 = some v4)
    (hdns : deref s.dnsServers s.dnsSrv = some ⟨none, false⟩) :
    s.startInTunnelServices.Listening ↔ s.Fresh := by
  have hsome : s.dnsSrv.isSome = true := Option.isSome_iff_ne_none.mpr (ne_none_of_deref hdns)
  have hself : s.startInTunnelServices.selfV4 = some v4 := (startInTunnelServices_spec h).2.1
  have hdrop : deref s.startInTunnelServices.dropServers s.startInTunnelServices.dropSrv =
        some ⟨some v4.addr, false⟩ ↔
      s.dropSrv = none ∨ deref s.dropServers s.dropSrv = some ⟨some v4.addr, false⟩ := by
    rw [startInTunnelServices, h]
    cases hptr : s.dropSrv with
    | none => exact iff_of_true deref_push (.inl rfl)
    | some j => simp
  have hdns' : deref s.startInTunnelServices.dnsServers s.startInTunnelServices.dnsSrv =
        some ⟨some v4.addr, false⟩ ↔ s.dnsStarted = false := by
    rw [startInTunnelServices, h]
    simp only [hsome, Bool.true_and]
    cases hflag : s.dnsStarted with
    | false => exact iff_of_true (deref_assign hdns) rfl
    | true =>
      refine iff_of_false ?_ Bool.noConfusion
      rw [Bool.not_true, if_neg Bool.false_ne_true, hdns]
      simp
  rw [Listening, Fresh, hself, h]
  simp only [Option.some.injEq, exists_eq_left', hdns', hdrop]

/-- Services that are up stay up. -/
theorem Listening.startInTunnelServices (h : s.Listening) : s.startInTunnelServices.Listening := by
  obtain ⟨v4, hself, hdns, hdrop⟩ := h
  have hptr : s.dropSrv.isNone = false := by
    rw [Option.isNone_eq_false_iff, Option.isSome_iff_ne_none]
    exact ne_none_of_deref hdrop
  refine ⟨v4, (startInTunnelServices_spec hself).2.1, ?_, ?_⟩
  · rw [Services.startInTunnelServices, hself]
    dsimp only
    split_ifs
    · exact deref_assign hdns
    · exact hdns
  · rw [Services.startInTunnelServices, hself]
    simp only [hptr, if_neg Bool.false_ne_true]
    exact hdrop

theorem started_networkSettingsApplied (s : Services) :
    s.networkSettingsApplied.started = s.started := by
  rw [networkSettingsApplied]
  split_ifs
  · rfl
  · rw [startInTunnelServices]
    split <;> rfl

theorem ensureDNS_of_none (h : s.dnsSrv = none) : s.ensureDNS = { s with
      dnsSrv := some s.dnsServers.length
      dnsServers := s.dnsServers ++ [⟨none, false⟩] } := by
  rw [ensureDNS, h]
  rfl

theorem ensureDNS_of_isSome (h : s.dnsSrv.isSome = true) : s.ensureDNS = s := if_pos h

/-- What `ensureDNS` leaves alone, and that there is a server afterwards. -/
theorem ensureDNS_spec (s : Services) :
    s.ensureDNS.started = s.started ∧ s.ensureDNS.selfV4 = s.selfV4 ∧
      s.ensureDNS.inTunnelUp = s.inTunnelUp ∧ s.ensureDNS.dropSrv = s.dropSrv ∧
      s.ensureDNS.dnsSrv.isSome = true := by
  cases hptr : s.dnsSrv with
  | none =>
    rw [ensureDNS_of_none hptr]
    exact ⟨rfl, rfl, rfl, rfl, rfl⟩
  | some i =>
    have hsome : s.dnsSrv.isSome = true := by rw [hptr]; rfl
    rw [ensureDNS_of_isSome hsome]
    exact ⟨rfl, rfl, rfl, rfl, hsome⟩

/-- What `updateDNSRecords` does for a netmap with a domain. -/
theorem updateDNSRecords_spec {domain : String} (hdomain : domain ≠ "") (h : s.selfV4 = some v4) :
    let s' := s.updateDNSRecords domain
    s'.started = s.started ∧ s'.selfV4 = some v4 ∧ s'.inTunnelUp = s.inTunnelUp ∧
      s'.dnsSrv.isSome = true ∧ (s.inTunnelUp = true → s'.dropSrv.isSome = true) ∧
      (s.inTunnelUp = false → s' = s.ensureDNS) := by
  obtain ⟨hstarted, hself, hup, -, hdns⟩ := s.ensureDNS_spec
  rw [updateDNSRecords, if_neg hdomain, hup]
  cases hflag : s.inTunnelUp with
  | false =>
    rw [if_neg Bool.false_ne_true]
    exact ⟨hstarted, hself.trans h, hup.trans hflag, hdns, fun hup => Bool.noConfusion hup,
      fun _ => rfl⟩
  | true =>
    rw [if_pos rfl]
    obtain ⟨hstarted', hself', hup', hdns', hdrop'⟩ := startInTunnelServices_spec (hself.trans h)
    exact ⟨hstarted'.trans hstarted, hself', hup'.trans (hup.trans hflag), hdns' ▸ hdns,
      fun _ => hdrop', fun hup => Bool.noConfusion hup⟩

end Services

namespace Watched

variable {w : Watched}

theorem step_start_of_started (w : Watched) (h : w.core.started = true) (r : StartResult) :
    w.step (.start r) = w := by
  have hstart : w.core.start r = w.core := by
    unfold Services.start
    exact if_pos h
  have hkeep : (ServiceOp.start r).starts w.core = false := by
    cases r with
    | ok v4 => rw [ServiceOp.starts, h]; rfl
    | badConfig | failed | noEngine _ => rfl
  rw [step, hstart, hkeep, Bool.not_false, Bool.and_true, Bool.and_true]

theorem step_start (w : Watched) (h : w.core.started = false) (r : StartResult) :
    w.step (.start r) = match r with
      | .badConfig => w
      | .failed => { w with core := { w.core with inTunnelUp := false } }
      | .noEngine v4 => { w with core := { w.core with inTunnelUp := false, selfV4 := some v4 } }
      | .ok v4 =>
        ⟨{ w.core with inTunnelUp := false, selfV4 := some v4, started := true }, false,
          false⟩ := by
  cases r <;> simp [step, Services.start, ServiceOp.starts, h]

end Watched

namespace ServicesInv

variable {w : Watched}

theorem start (h : ServicesInv w) (r : StartResult) : ServicesInv (w.step (.start r)) := by
  cases hstarted : w.core.started with
  | true =>
    rw [w.step_start_of_started hstarted]
    exact h
  | false =>
    have hidle := h.idle hstarted
    rw [w.step_start hstarted]
    cases r with
    | badConfig | failed | noEngine v4 =>
      have hnot : ∀ {p : Prop}, w.core.started = true → p := fun hon =>
        absurd (hstarted.symm.trans hon) Bool.false_ne_true
      exact ⟨hnot, hnot, hnot, fun _ => hidle, hnot, hnot⟩
    | ok v4 =>
      refine ⟨fun _ => ⟨v4, rfl⟩, fun _ => rfl, fun _ => ?_, fun hoff => ?_, fun _ _ hmapped => ?_,
        fun _ hsettled => ?_⟩
      · change w.core.dnsSrv.isSome = false
        rw [hidle]
        rfl
      · cases hoff
      · cases hmapped
      · cases hsettled

theorem stop (h : ServicesInv w) : ServicesInv (w.step .stop) := by
  rw [Watched.step, Services.stop]
  split_ifs with hstarted
  · have hnot : ∀ {p : Prop}, false = true → p := fun hon => absurd hon Bool.false_ne_true
    exact ⟨hnot, hnot, hnot, fun _ => rfl, hnot, hnot⟩
  · exact h

theorem networkSettingsApplied (h : ServicesInv w) :
    ServicesInv (w.step .networkSettingsApplied) := by
  rw [Watched.step, Services.networkSettingsApplied]
  split_ifs with hskip
  · -- While the core is started it has an address, so that the call was made before.
    have hup : w.core.started = true → w.core.inTunnelUp = true := by
      intro hon
      obtain ⟨v4, hself⟩ := h.self hon
      simpa [hself] using hskip
    refine ⟨h.self, hup, h.mapped, h.idle, fun _ hsettled => Bool.noConfusion hsettled,
      fun hon _ => ?_⟩
    exact h.dropUp hon ((h.settled hon).symm.trans (hup hon))
  · rw [Bool.or_eq_true, not_or] at hskip
    obtain ⟨v4, hself⟩ : ∃ v4, w.core.selfV4 = some v4 := by
      rw [← Option.ne_none_iff_exists']
      simpa using hskip.2
    obtain ⟨hstarted, hself', hup, hdns, hdrop⟩ :=
      Services.startInTunnelServices_spec (s := { w.core with inTunnelUp := true }) hself
    refine ⟨fun _ => ⟨v4, hself'⟩, fun _ => hup, fun hon => ?_, fun hoff => ?_,
      fun _ hsettled => Bool.noConfusion hsettled, fun _ _ => hdrop⟩
    · rw [hdns]
      exact h.mapped (hstarted.symm.trans hon)
    · rw [hdns]
      exact h.idle (hstarted.symm.trans hoff)

theorem netMap (h : ServicesInv w) (domain : String) : ServicesInv (w.step (.netMap domain)) := by
  rw [Watched.step]
  split_ifs with hstarted
  · obtain ⟨v4, hself⟩ := h.self hstarted
    by_cases hdomain : domain = ""
    · rw [Services.updateDNSRecords, if_pos hdomain, hdomain]
      simpa using h
    · obtain ⟨hstarted', hself', hup, hdns, hdrop, hensure⟩ :=
        Services.updateDNSRecords_spec hdomain hself
      refine ⟨fun _ => ⟨v4, hself'⟩, fun _ => hup.trans (h.settled hstarted), fun _ => ?_,
        fun hoff => ?_, fun _ hsettled _ => ?_, fun _ hsettled => ?_⟩
      · simpa [hdomain] using hdns
      · rw [hstarted', hstarted] at hoff
        cases hoff
      · rw [hensure ((h.settled hstarted).trans hsettled)]
        cases hmapped : w.mapped with
        | true =>
          rw [Services.ensureDNS_of_isSome ((h.mapped hstarted).trans hmapped)]
          exact h.dns hstarted hsettled hmapped
        | false =>
          have hnone : w.core.dnsSrv = none := by
            rw [← Option.isNone_iff_eq_none, ← Option.isSome_eq_false_iff, h.mapped hstarted,
              hmapped]
          rw [Services.ensureDNS_of_none hnone]
          exact deref_push
      · exact hdrop ((h.settled hstarted).trans hsettled)
  · exact h

theorem step (h : ServicesInv w) (op : ServiceOp) : ServicesInv (w.step op) := by
  cases op with
  | start r => exact h.start r
  | stop => exact h.stop
  | networkSettingsApplied => exact h.networkSettingsApplied
  | netMap domain => exact h.netMap domain

end ServicesInv

theorem servicesInv_new : ServicesInv .new where
  self hon := by cases hon
  settled hon := by cases hon
  mapped hon := by cases hon
  idle _ := rfl
  dns hon := by cases hon
  dropUp hon := by cases hon

/-! ### When the services are up -/

section Exact

variable {w : Watched}

theorem servicesUp_start (h : ServicesUp w) (r : StartResult) : ServicesUp (w.step (.start r)) := by
  cases hstarted : w.core.started with
  | true =>
    rw [w.step_start_of_started hstarted]
    exact h
  | false =>
    rw [w.step_start hstarted]
    cases r with
    | badConfig | failed | noEngine v4 =>
      exact fun hon => absurd (hstarted.symm.trans hon) Bool.false_ne_true
    | ok v4 => exact fun _ hsettled => Bool.noConfusion hsettled

theorem servicesUp_stop (h : ServicesUp w) : ServicesUp (w.step .stop) := by
  rw [Watched.step, Services.stop]
  split_ifs with hstarted
  · exact fun hon => Bool.noConfusion hon
  · exact h

/-- The application reports the tunnel. -/
theorem servicesUp_networkSettingsApplied_iff (hinv : ServicesInv w) (h : ServicesUp w) :
    ServicesUp (w.step .networkSettingsApplied) ↔ Unspoiled w .networkSettingsApplied := by
  cases hstarted : w.core.started with
  | false =>
    refine iff_of_true (fun hon => ?_) fun hon => ?_
    · rw [Watched.step, Services.started_networkSettingsApplied, hstarted] at hon
      cases hon
    · rw [hstarted] at hon
      cases hon
  | true =>
    obtain ⟨v4, hself⟩ := hinv.self hstarted
    have hup := hinv.settled hstarted
    rw [Watched.step]
    cases hsettled : w.settled with
    | true =>
      have hcore : w.core.networkSettingsApplied = w.core :=
        if_pos (by rw [hup, hsettled]; rfl)
      rw [hcore]
      refine iff_of_true (fun _ _ hmapped => h hstarted hsettled hmapped) fun _ hnot => ?_
      exact absurd (hsettled.symm.trans hnot) Bool.noConfusion
    | false =>
      have hcore : w.core.networkSettingsApplied =
          Services.startInTunnelServices { w.core with inTunnelUp := true } :=
        if_neg (by rw [hup, hsettled, hself]; exact Bool.false_ne_true)
      rw [hcore]
      cases hmapped : w.mapped with
      | false =>
        refine iff_of_true (fun _ _ hnot => Bool.noConfusion hnot) fun _ _ hnot => ?_
        exact absurd (hmapped.symm.trans hnot) Bool.noConfusion
      | true =>
        have hiff : (Services.startInTunnelServices { w.core with inTunnelUp := true }).Listening ↔
            w.core.Fresh :=
          Services.listening_startInTunnelServices_iff (s := { w.core with inTunnelUp := true })
            hself (hinv.dns hstarted hsettled hmapped)
        constructor
        · intro hstep _ _ _
          refine hiff.mp (hstep ?_ rfl rfl)
          exact (Services.startInTunnelServices_spec
            (s := { w.core with inTunnelUp := true }) hself).1.trans hstarted
        · intro hfresh _ _ _
          exact hiff.mpr (hfresh hstarted hsettled hmapped)

/-- A netmap arrives. -/
theorem servicesUp_netMap_iff (hinv : ServicesInv w) (h : ServicesUp w) (domain : String) :
    ServicesUp (w.step (.netMap domain)) ↔ Unspoiled w (.netMap domain) := by
  cases hstarted : w.core.started with
  | false =>
    rw [Watched.step, if_neg (by rw [hstarted]; exact Bool.false_ne_true)]
    refine iff_of_true h fun hon => ?_
    rw [hstarted] at hon
    cases hon
  | true =>
    rw [Watched.step, if_pos hstarted]
    by_cases hdomain : domain = ""
    · refine iff_of_true ?_ fun _ _ _ hnot => absurd hdomain hnot
      intro _ hsettled hmapped
      rw [Services.updateDNSRecords, if_pos hdomain]
      simp only [hdomain, ne_eq, not_true_eq_false, decide_false, Bool.or_false] at hmapped
      exact h hstarted hsettled hmapped
    · obtain ⟨v4, hself⟩ := hinv.self hstarted
      have hup := hinv.settled hstarted
      have hstarted' := (Services.updateDNSRecords_spec hdomain hself).1.trans hstarted
      cases hsettled : w.settled with
      | false =>
        refine iff_of_true (fun _ hnot => Bool.noConfusion hnot) fun _ hnot => ?_
        exact absurd (hsettled.symm.trans hnot) Bool.noConfusion
      | true =>
        have hcore : w.core.updateDNSRecords domain = w.core.ensureDNS.startInTunnelServices := by
          rw [Services.updateDNSRecords, if_neg hdomain, w.core.ensureDNS_spec.2.2.1, hup, hsettled]
          rfl
        cases hmapped : w.mapped with
        | true =>
          -- The services are up already.
          have hlisten := h hstarted hsettled hmapped
          refine iff_of_true (fun _ _ _ => ?_) fun _ _ hnot => ?_
          · rw [hcore, Services.ensureDNS_of_isSome ((hinv.mapped hstarted).trans hmapped)]
            exact hlisten.startInTunnelServices
          · exact absurd (hmapped.symm.trans hnot) Bool.noConfusion
        | false =>
          have hnone : w.core.dnsSrv = none := by
            rw [← Option.isNone_iff_eq_none, ← Option.isSome_eq_false_iff, hinv.mapped hstarted,
              hmapped]
          have hiff : w.core.ensureDNS.startInTunnelServices.Listening ↔ w.core.Fresh := by
            rw [Services.ensureDNS_of_none hnone]
            exact Services.listening_startInTunnelServices_iff hself deref_push
          rw [hcore] at hstarted' ⊢
          constructor
          · intro hstep _ _ _ _
            refine hiff.mp (hstep hstarted' rfl ?_)
            simp [hdomain]
          · intro hfresh _ _ _
            exact hiff.mpr (hfresh hstarted hsettled hmapped hdomain)

theorem servicesUp_step_iff (w : Watched) (op : ServiceOp) (hinv : ServicesInv w)
    (h : ServicesUp w) : ServicesUp (w.step op) ↔ Unspoiled w op := by
  cases op with
  | start r => exact iff_of_true (servicesUp_start h r) trivial
  | stop => exact iff_of_true (servicesUp_stop h) trivial
  | networkSettingsApplied => exact servicesUp_networkSettingsApplied_iff hinv h
  | netMap domain => exact servicesUp_netMap_iff hinv h domain

/-- **When the services are up in every session.** They are up in every state of a run, if the core
is started, the application has reported the tunnel and there are names to serve, if and only if
nothing was left over from earlier sessions whenever they became due. -/
theorem servicesUp_iff (ops : List ServiceOp) :
    (∀ ops', ops' <+: ops → ServicesUp (run Watched.step .new ops')) ↔
      Along Watched.step Unspoiled .new ops :=
  forall_prefix_iff_along servicesInv_new (fun hon => Bool.noConfusion hon)
    (fun _ op h => h.step op) servicesUp_step_iff ops

/-- A session in which the services come up. -/
def sampleSession : List ServiceOp :=
  [.start (.ok ⟨.v4 0x0a000001, 32, by decide, rfl⟩), .networkSettingsApplied, .netMap "mesh"]

/-- **The second session has no DNS**: its server was never started. -/
theorem second_session_without_dns :
    let w := run Watched.step .new (sampleSession ++ [.stop] ++ sampleSession)
    ¬ ServicesUp w ∧ w.core.started = true ∧ w.settled = true ∧ w.mapped = true ∧
      deref w.core.dnsServers w.core.dnsSrv = some ⟨none, false⟩ := by
  intro w
  have hstate : w.core.started = true ∧ w.settled = true ∧ w.mapped = true ∧
      deref w.core.dnsServers w.core.dnsSrv = some ⟨none, false⟩ := by decide +kernel
  refine ⟨fun hup => ?_, hstate⟩
  obtain ⟨v4, -, hdns, -⟩ := hup hstate.1 hstate.2.1 hstate.2.2.1
  rw [hstate.2.2.2] at hdns
  cases hdns

end Exact

end Mobilecore

end OverMesh
