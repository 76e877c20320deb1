import OverMesh.Relay.Client
import OverMesh.Relay.Server
import Mathlib.Data.List.Nodup

/-!
# Routing

Whose frames a relay delivers, and to whom. Readers of several connections, registrations,
replacements and deferred cleanups come in any order, among them cleanups of a connection whose key
has been registered again in the meantime, and frames queued to a connection that was replaced after
it was looked up.

## Main definitions

* `Unforged` — a box opens only for a key that the client holds
* `Server.Authentic`, `Server.Newest`
* `RoutingInv`, `ConnsInv` — the invariants

## Main results

* `relay_run` — **in every run a queued frame was caused by a frame sent to that key by a client
  that holds the key it is attributed to, and `conns` has the newest connection of every key**
  until that one has been cleaned up
-/

namespace OverMesh

open Key Runs

namespace Relay

/-- The box of an answer opens, for the key that the client claims. -/
def Serving.opens (box : NaclBox) (f : Frame) : Serving → Bool
  | .handshake _ ephPriv nonce =>
    (box.openBox (f.body.drop 32) nonce (copyKey f.body) ephPriv).isSome
  | .failed | .serving _ => false

/-- **A box opens only for a key that the client holds**: `holds i k` says that the client at the
other end of the `i`-th connection has the private half of `k`. -/
def Unforged (box : NaclBox) (holds : ℕ → Bytes32 → Prop) (s : Server) : ServerOp → Prop
  | .auth i f _ _ => (∃ c ∈ s.all[i]?, c.opens box f = true) → holds i (copyKey f.body)
  | _ => True

instance (box : NaclBox) (holds : ℕ → Bytes32 → Prop) [∀ i k, Decidable (holds i k)] (s : Server)
    (op : ServerOp) : Decidable (Unforged box holds s op) := by
  cases op <;> unfold Unforged <;> infer_instance

namespace Server

/-- **The frame is authentic**: it was queued to a connection with the key `tgt.key`, and caused by
a frame to that key with the same payload, which was read on a connection that has completed the
handshake for the key with which it is prefixed, and whose client holds that key. -/
def Authentic (holds : ℕ → Bytes32 → Prop) (s : Server) (d : Delivery) : Prop :=
  ∃ src tgt payload f, s.serving d.cause.1 = some src ∧ s.serving d.target = some tgt ∧
    holds d.cause.1 src.key ∧ src.frames[d.cause.2]? = some f ∧ f.typ = frameSend ∧
    f.body = tgt.key.val ++ payload ∧ d.body = src.key.val ++ payload

/-- The connection that was registered last for a key. -/
def lastRegistered (s : Server) (k : Bytes32) : Option ℕ :=
  (s.registrations.find? (·.1 = k)).map Prod.snd

/-- **`conns` has the connection that was registered last**, or none, if the deferred function of
that one has run. -/
def Newest (s : Server) (k : Bytes32) : Prop :=
  (∀ i, s.conns k = some i → s.lastRegistered k = some i) ∧
    (s.conns k = none → ∀ i, s.lastRegistered k = some i →
      ∃ c, s.serving i = some c ∧ c.stage.cleaned = true)

/-! ### Who is registered -/

/-- `conns` has the newest connection of every key, and every connection that is neither closed nor
cleaned up. -/
structure ConnsInv (s : Server) : Prop where
  key : ∀ k i, s.conns k = some i → ∃ c, s.serving i = some c ∧ c.key = k
  newest : ∀ k, s.Newest k
  attached : ∀ i c, s.serving i = some c → c.stage ≠ .register → c.stage.cleaned = false →
    c.done = false → s.conns c.key = some i

namespace ConnsInv

variable {s s' : Server}

theorem start : ConnsInv .start where
  key k i h := by cases h
  newest k := ⟨fun _ h => absurd h (by simp [Server.start]), fun _ _ h => absurd h (by
    simp [Server.start, lastRegistered])⟩
  attached i c h := by simp [Server.serving, Server.start] at h

theorem cleaned_of_steady (hrel : ∀ j, Option.Rel Steady (s.serving j) (s'.serving j)) {i : ℕ}
    (h : ∃ c, s.serving i = some c ∧ c.stage.cleaned = true) :
    ∃ c, s'.serving i = some c ∧ c.stage.cleaned = true := by
  obtain ⟨c, hi, hc⟩ := h
  obtain ⟨c', hi', hs⟩ := exists_of_rel_left (hi ▸ hrel i)
  exact ⟨c', hi', hs.cleaned hc⟩

/-- A connection that is attached after it went on was attached before. -/
theorem attached_of_steady (h : ConnsInv s) {i : ℕ} {c c' : ServerConn} (hi : s.serving i = some c)
    (hs : Steady c c') (hreg : c'.stage ≠ .register) (hcleaned : c'.stage.cleaned = false)
    (hdone : c'.done = false) : s.conns c.key = some i := by
  refine h.attached i c hi (fun hr => hreg (hs.register.mpr hr)) ?_ ?_
  · refine Bool.eq_false_of_not_eq_true fun hc => ?_
    rw [hs.cleaned hc] at hcleaned
    cases hcleaned
  · refine Bool.eq_false_of_not_eq_true fun hd => ?_
    rw [hs.done hd] at hdone
    cases hdone

/-- Connections go on after their registration. -/
theorem steady (h : ConnsInv s) (hconns : s'.conns = s.conns)
    (hreg : s'.registrations = s.registrations)
    (hrel : ∀ j, Option.Rel Steady (s.serving j) (s'.serving j)) : ConnsInv s' := by
  refine ⟨?_, ?_, ?_⟩
  · intro k i hk
    obtain ⟨c, hi, hkey⟩ := h.key k i (hconns ▸ hk)
    obtain ⟨c', hi', hs⟩ := exists_of_rel_left (hi ▸ hrel i)
    exact ⟨c', hi', hs.key.trans hkey⟩
  · intro k
    rw [Newest, lastRegistered, hconns, hreg]
    refine ⟨(h.newest k).1, fun hk i hlast => ?_⟩
    exact cleaned_of_steady hrel ((h.newest k).2 hk i hlast)
  · intro i c' hi' hreg' hcleaned hdone
    obtain ⟨c, hi, hs⟩ := exists_of_rel_right (hi' ▸ hrel i)
    rw [hconns, hs.key]
    exact h.attached_of_steady hi hs hreg' hcleaned hdone

/-- A client is let in. -/
theorem letIn (h : ConnsInv s) {i : ℕ} {c : ServerConn} (hnone : s.serving i = none)
    (hc : c.stage = .register) (hconns : s'.conns = s.conns)
    (hreg : s'.registrations = s.registrations)
    (hserving : s'.serving = Function.update s.serving i (some c)) : ConnsInv s' := by
  have hforth : ∀ j c₀, s.serving j = some c₀ → s'.serving j = some c₀ := by
    intro j c₀ hj
    have hji : j ≠ i := by
      rintro rfl
      rw [hnone] at hj
      cases hj
    rw [hserving, Function.update_of_ne hji, hj]
  refine ⟨?_, ?_, ?_⟩
  · intro k j hk
    obtain ⟨c₀, hj, hkey⟩ := h.key k j (hconns ▸ hk)
    exact ⟨c₀, hforth j c₀ hj, hkey⟩
  · intro k
    rw [Newest, lastRegistered, hconns, hreg]
    refine ⟨(h.newest k).1, fun hk j hlast => ?_⟩
    obtain ⟨c₀, hj, hclean⟩ := (h.newest k).2 hk j hlast
    exact ⟨c₀, hforth j c₀ hj, hclean⟩
  · intro j c' hj hreg' hcleaned hdone
    rw [hserving] at hj
    by_cases hji : j = i
    · subst hji
      rw [Function.update_self] at hj
      obtain rfl := Option.some.inj hj
      exact absurd hc hreg'
    · rw [Function.update_of_ne hji] at hj
      rw [hconns]
      exact h.attached j c' hj hreg' hcleaned hdone

theorem lastRegistered_cons {k k' : Bytes32} {i : ℕ} (hreg : s'.registrations =
    (k, i) :: s.registrations) :
    s'.lastRegistered k' = if k' = k then some i else s.lastRegistered k' := by
  rw [lastRegistered, lastRegistered, hreg, List.find?_cons]
  by_cases hk : k' = k
  · simp [hk]
  · simp [hk, Ne.symm hk]

/-- A connection is registered, and the one that was registered under its key is closed. -/
theorem register (h : ConnsInv s) {i : ℕ} {c : ServerConn} (hi : s.serving i = some c)
    (hc : c.stage = .register) : ConnsInv (s.register i c) := by
  obtain ⟨c', hi', hq, hst⟩ := serving_register_self hi
  have hother : ∀ {j}, j ≠ i → _ := fun {j} hji => serving_register_of_ne (s := s) (c := c) hji
  refine ⟨?_, ?_, ?_⟩
  · intro k j hk
    rw [conns_register] at hk
    split_ifs at hk with hkey
    · obtain rfl := Option.some.inj hk
      exact ⟨c', hi', hq.key.trans hkey.symm⟩
    · obtain ⟨c₀, hj, hkey₀⟩ := h.key k j hk
      obtain ⟨c₁, hj', hq₁⟩ := exists_of_rel_left (hj ▸ rel_register hi j)
      exact ⟨c₁, hj', hq₁.key.trans hkey₀⟩
  · intro k
    rw [Newest, lastRegistered_cons (s := s) rfl, conns_register]
    split_ifs with hkey
    · exact ⟨fun _ => id, fun hnone => by cases hnone⟩
    · refine ⟨(h.newest k).1, fun hk j hlast => ?_⟩
      obtain ⟨c₀, hj, hclean⟩ := (h.newest k).2 hk j hlast
      have hji : j ≠ i := by
        rintro rfl
        obtain rfl := Option.some.inj (hi.symm.trans hj)
        rw [hc] at hclean
        cases hclean
      obtain ⟨c₁, hj', ht⟩ := exists_of_rel_left (hj ▸ (hother hji).1)
      exact ⟨c₁, hj', ht.cleaned hclean⟩
  · intro j c₁ hj hreg hcleaned hdone
    rw [conns_register]
    by_cases hji : j = i
    · subst hji
      obtain rfl := Option.some.inj (hi'.symm.trans hj)
      rw [if_pos hq.key]
    · obtain ⟨hrel, hclosed⟩ := hother hji
      obtain ⟨c₀, hj₀, ht⟩ := exists_of_rel_right (hj ▸ hrel)
      have hold := h.attached_of_steady hj₀ ht.toSteady hreg hcleaned hdone
      split_ifs with hkey
      · rw [hclosed (by rw [← hkey, ht.key, hold]) c₁ hj] at hdone
        cases hdone
      · rw [ht.key, hold]

/-- The deferred function of a connection. -/
theorem unregister (h : ConnsInv s) {i : ℕ} {c : ServerConn} (hi : s.serving i = some c)
    (hc : c.stage = .cleanup) : ConnsInv (s.unregister i c) := by
  have hrel : ∀ j, Option.Rel Steady (s.serving j) ((s.unregister i c).serving j) :=
    rel_steady_goto hi (by rw [hc]; rfl) (by simp [hc]) (by simp)
  have hself : (s.unregister i c).serving i = some { c with stage := .closing } := by
    have := serving_modify_self (s := s) (i := i) (f := fun c => { c with stage := .closing })
    rwa [hi] at this
  refine ⟨?_, ?_, ?_⟩
  · intro k j hk
    rcases conns_unregister k with hsame | ⟨-, hnone⟩
    · obtain ⟨c₀, hj, hkey⟩ := h.key k j (hsame ▸ hk)
      obtain ⟨c₁, hj', hs⟩ := exists_of_rel_left (hj ▸ hrel j)
      exact ⟨c₁, hj', hs.key.trans hkey⟩
    · rw [hnone] at hk
      cases hk
  · intro k
    have hlast : (s.unregister i c).lastRegistered k = s.lastRegistered k := rfl
    rw [Newest, hlast]
    rcases conns_unregister k with hsame | ⟨hcur, hnone⟩
    · rw [hsame]
      refine ⟨(h.newest k).1, fun hk j hj => ?_⟩
      exact cleaned_of_steady hrel ((h.newest k).2 hk j hj)
    · rw [hnone]
      refine ⟨fun j hj => absurd hj (by simp), fun _ j hj => ?_⟩
      obtain rfl := Option.some.inj (((h.newest k).1 i hcur).symm.trans hj)
      exact ⟨_, hself, rfl⟩
  · intro j c₁ hj hreg hcleaned hdone
    obtain ⟨c₀, hj₀, hs⟩ := exists_of_rel_right (hj ▸ hrel j)
    have hold := h.attached_of_steady hj₀ hs hreg hcleaned hdone
    rw [hs.key]
    rcases conns_unregister c₀.key with hsame | ⟨hcur, -⟩
    · rw [hsame, hold]
    · obtain rfl := Option.some.inj (hold.symm.trans hcur)
      obtain rfl := Option.some.inj (hself.symm.trans hj)
      cases hcleaned

theorem effect {box : NaclBox} {op : ServerOp} (h : ConnsInv s) (he : Effect box s op s') :
    ConnsInv s' := by
  cases he with
  | tame hconns hreg _ _ hrel =>
    exact h.steady hconns hreg fun j => rel_mono (fun _ _ ht => ht.toSteady) (hrel j)
  | letIn _ hi _ hconns hreg _ _ hserving =>
    obtain ⟨conn', hserving⟩ := hserving
    exact h.letIn (serving_of_handshake hi) rfl hconns hreg hserving
  | register hi hc => exact h.register hi hc
  | read f hi hc => exact h.steady rfl rfl (rel_steady_read hi hc f)
  | found hi hc _ =>
    exact h.steady rfl rfl (rel_steady_goto hi (by rw [hc]; rfl) (by simp [hc]) (by simp))
  | queued _ _ hi hc _ _ => exact h.steady rfl rfl (rel_steady_queued hi hc _)
  | unregister hi hc => exact h.unregister hi hc

end ConnsInv

/-! ### Where frames come from -/

/-- The last frame that was read on the connection is to `dst`, and nothing was queued for it. -/
def Pending (s : Server) (i : ℕ) (c : ServerConn) (dst : Bytes32) (payload : List UInt8) : Prop :=
  (∃ f, c.frames[c.frames.length - 1]? = some f ∧ f.typ = frameSend ∧
    f.body = dst.val ++ payload) ∧
  (i, c.frames.length - 1) ∉ s.queued.map Delivery.cause

variable {holds : ℕ → Bytes32 → Prop} {s s' : Server}

/-- A later state: connections keep their keys and what was read on them, and what was queued stays
on record. -/
structure Grows (s s' : Server) : Prop where
  conn : ∀ j c, s.serving j = some c →
    ∃ c', s'.serving j = some c' ∧ c'.key = c.key ∧ c.frames <+: c'.frames
  queued : s.queued ⊆ s'.queued

theorem Grows.of_rel {R : ServerConn → ServerConn → Prop}
    (hR : ∀ c c', R c c' → c'.key = c.key ∧ c.frames <+: c'.frames)
    (hrel : ∀ j, Option.Rel R (s.serving j) (s'.serving j)) (hqueued : s.queued ⊆ s'.queued) :
    Grows s s' := by
  refine ⟨fun j c hj => ?_, hqueued⟩
  obtain ⟨c', hj', hcc'⟩ := exists_of_rel_left (hj ▸ hrel j)
  exact ⟨c', hj', hR c c' hcc'⟩

theorem Grows.modify {i : ℕ} {f : ServerConn → ServerConn}
    (hf : ∀ c, (f c).key = c.key ∧ c.frames <+: (f c).frames) : Grows s (s.modify i f) :=
  .of_rel (fun _ _ h => h) (rel_modify (fun _ => ⟨rfl, List.prefix_rfl⟩) fun c _ => hf c)
    (List.Subset.refl _)

theorem Authentic.mono {d : Delivery} (h : s.Authentic holds d) (hg : Grows s s') :
    s'.Authentic holds d := by
  obtain ⟨src, tgt, payload, f, hsrc, htgt, hholds, hf, htyp, hbody, hd⟩ := h
  obtain ⟨src', hsrc', hskey, t, hpre⟩ := hg.conn _ _ hsrc
  obtain ⟨tgt', htgt', htkey, -⟩ := hg.conn _ _ htgt
  refine ⟨src', tgt', payload, f, hsrc', htgt', hskey ▸ hholds, ?_, htyp, ?_, ?_⟩
  · rw [← hpre, List.getElem?_append_left (List.getElem?_eq_some_iff.mp hf).1]
    exact hf
  · rw [htkey, hbody]
  · rw [hskey, hd]

/-- Nothing was queued yet for a frame that is read now. -/
theorem Authentic.cause_ne {d : Delivery} (h : s.Authentic holds d) {i : ℕ} {c : ServerConn}
    (hi : s.serving i = some c) : d.cause ≠ (i, c.frames.length) := by
  obtain ⟨src, -, -, f, hsrc, -, -, hf, -⟩ := h
  intro hcause
  rw [hcause] at hsrc hf
  obtain rfl := Option.some.inj (hi.symm.trans hsrc)
  exact absurd (List.getElem?_eq_some_iff.mp hf).1 (lt_irrefl _)

/-- What is on its way on the connection was read there, and what is in its queue is on record. -/
structure ConnInv (holds : ℕ → Bytes32 → Prop) (s : Server) (i : ℕ) (c : ServerConn) : Prop where
  held : holds i c.key
  looking : ∀ dst payload, c.stage = .lookup dst payload → s.Pending i c dst payload
  targeted : ∀ j payload, c.stage = .enqueue j payload →
    ∃ t, s.serving j = some t ∧ s.Pending i c t.key payload
  sendq : ∀ f ∈ c.sendq, f.typ = frameRecv → ∃ d ∈ s.queued, d.target = i ∧ d.body = f.body

namespace ConnInv

variable {i : ℕ} {c c' : ServerConn}

/-- A connection that forwards nothing. -/
theorem of_idle (hheld : holds i c.key) (hidle : c.stage.idle = true)
    (hsendq : ∀ f ∈ c.sendq, f.typ = frameRecv → ∃ d ∈ s.queued, d.target = i ∧ d.body = f.body) :
    ConnInv holds s i c := by
  refine ⟨hheld, ?_, ?_, hsendq⟩
  · intro dst payload hst
    rw [hst] at hidle
    cases hidle
  · intro j payload hst
    rw [hst] at hidle
    cases hidle

/-- It goes on without forwarding anything, or another one queues a frame. -/
theorem mono (h : ConnInv holds s i c) (hg : Grows s s') (ht : Quiet c c')
    (hidle : c'.stage.idle = true ∨ ∀ d ∈ s'.queued, d ∈ s.queued ∨ d.cause.1 ≠ i) :
    ConnInv holds s' i c' := by
  have hheld : holds i c'.key := ht.key ▸ h.held
  have hsendq : ∀ f ∈ c'.sendq, f.typ = frameRecv →
      ∃ d ∈ s'.queued, d.target = i ∧ d.body = f.body := by
    intro f hf htyp
    obtain ⟨d, hd, hdf⟩ := h.sendq f (ht.sendq hf) htyp
    exact ⟨d, hg.queued hd, hdf⟩
  rcases ht.stage.symm with hst | hst
  · exact .of_idle hheld hst hsendq
  rcases hidle with hidle | hcause
  · exact .of_idle hheld hidle hsendq
  have hpend : ∀ dst payload, s.Pending i c dst payload → s'.Pending i c' dst payload := by
    rintro dst payload ⟨hlast, hnot⟩
    rw [Pending, ht.frames]
    refine ⟨hlast, fun hmem => ?_⟩
    obtain ⟨d, hd, hdc⟩ := List.mem_map.mp hmem
    rcases hcause d hd with hold | hne
    · exact hnot (List.mem_map.mpr ⟨d, hold, hdc⟩)
    · exact hne (by rw [hdc])
  refine ⟨hheld, ?_, ?_, hsendq⟩
  · intro dst payload hst'
    exact hpend _ _ (h.looking dst payload (hst ▸ hst'))
  · intro j payload hst'
    obtain ⟨t, hj, hp⟩ := h.targeted j payload (hst ▸ hst')
    obtain ⟨t', hj', hkey, -⟩ := hg.conn j t hj
    exact ⟨t', hj', hkey ▸ hpend _ _ hp⟩

/-- Other connections go on, or read frames. -/
theorem other (h : ConnInv holds s i c) (hg : Grows s s') (hqueued : s'.queued = s.queued) :
    ConnInv holds s' i c :=
  h.mono hg (Tame.refl c).toQuiet (.inr fun _ hd => .inl (hqueued ▸ hd))

/-- A frame that is on record is queued. -/
theorem offer (h : ConnInv holds s i c) {f : OutFrame}
    (hf : f.typ = frameRecv → ∃ d ∈ s.queued, d.target = i ∧ d.body = f.body) :
    ConnInv holds s i (c.offer f) := by
  obtain ⟨q, hq, hmem⟩ := c.offer_eq f
  rw [hq]
  refine ⟨h.held, h.looking, h.targeted, fun g hg htyp => ?_⟩
  rcases hmem g hg with hg | rfl
  · exact h.sendq g hg htyp
  · exact hf htyp

/-- A frame is read. -/
theorem read (h : ConnInv holds s i c) (hc : c.stage = .reading)
    (hauth : ∀ d ∈ s.queued, d.cause ≠ (i, c.frames.length)) (f : Frame) :
    ConnInv holds s i (c.read f) := by
  obtain ⟨q, t, hread, hq, ht⟩ := c.read_spec f
  rw [hread]
  refine ⟨h.held, ?_, ?_, fun g hg htyp => ?_⟩
  · rintro dst payload rfl
    rcases ht with ht | ⟨htyp, dst', payload', hbody, heq⟩
    · rw [hc] at ht
      cases ht
    · cases heq
      refine ⟨⟨f, by simp, htyp, hbody⟩, ?_⟩
      rw [List.length_append, List.length_singleton, Nat.add_sub_cancel]
      intro hmem
      obtain ⟨d, hd, hcause⟩ := List.mem_map.mp hmem
      exact hauth d hd hcause
  · rintro j payload rfl
    rcases ht with ht | ⟨-, dst, payload', -, heq⟩
    · rw [hc] at ht
      cases ht
    · cases heq
  · rcases hq g hg with hg | hpong
    · exact h.sendq g hg htyp
    · rw [hpong] at htyp
      cases htyp

end ConnInv

/-- Every connection is as it should be, and so is what was queued. -/
structure RoutingInv (holds : ℕ → Bytes32 → Prop) (s : Server) : Prop where
  conn : ∀ i c, s.serving i = some c → ConnInv holds s i c
  authentic : ∀ d ∈ s.queued, s.Authentic holds d
  nodup : (s.queued.map Delivery.cause).Nodup

namespace RoutingInv

theorem start : RoutingInv holds .start where
  conn i c h := by simp [Server.serving, Server.start] at h
  authentic _ h := absurd h List.not_mem_nil
  nodup := List.nodup_nil

variable (h : RoutingInv holds s)
include h

/-- A step that queues nothing. -/
theorem of_grows (hg : Grows s s') (hqueued : s'.queued = s.queued)
    (hconn : ∀ j c, s'.serving j = some c → ConnInv holds s' j c) : RoutingInv holds s' where
  conn := hconn
  authentic d hd := (h.authentic d (hqueued ▸ hd)).mono hg
  nodup := hqueued ▸ h.nodup

/-- Connections go on without forwarding anything. -/
theorem quiet (hqueued : s'.queued = s.queued)
    (hrel : ∀ j, Option.Rel Quiet (s.serving j) (s'.serving j)) : RoutingInv holds s' := by
  have hg : Grows s s' :=
    .of_rel (fun _ _ ht => ⟨ht.key, by rw [ht.frames]⟩) hrel (hqueued ▸ List.Subset.refl _)
  refine h.of_grows hg hqueued fun j c' hj => ?_
  obtain ⟨c, hc, ht⟩ := exists_of_rel_right (hj ▸ hrel j)
  exact (h.conn j c hc).mono hg ht (.inr fun _ hd => .inl (hqueued ▸ hd))

/-- A client is let in. -/
theorem letIn {i : ℕ} {key : Bytes32} {conn : Conn}
    (hnone : s.serving i = none) (hqueued : s'.queued = s.queued) (hkey : holds i key)
    (hserving : s'.serving = Function.update s.serving i
      (some ⟨key, conn, [], false, .register, false, []⟩)) : RoutingInv holds s' := by
  have hg : Grows s s' := by
    refine ⟨fun j c hj => ⟨c, ?_, rfl, List.prefix_rfl⟩, (hqueued ▸ List.Subset.refl _)⟩
    have hji : j ≠ i := by
      rintro rfl
      rw [hnone] at hj
      cases hj
    rw [hserving, Function.update_of_ne hji, hj]
  refine h.of_grows hg hqueued fun j c hj => ?_
  rw [hserving] at hj
  by_cases hji : j = i
  · subst hji
    rw [Function.update_self] at hj
    obtain rfl := Option.some.inj hj
    exact .of_idle hkey rfl fun f hf => absurd hf List.not_mem_nil
  · rw [Function.update_of_ne hji] at hj
    exact (h.conn j c hj).other hg hqueued

/-- A frame is read. -/
theorem read {i : ℕ} {c : ServerConn} (f : Frame)
    (hi : s.serving i = some c) (hc : c.stage = .reading) :
    RoutingInv holds (s.modify i (·.read f)) := by
  have hg : Grows s (s.modify i (·.read f)) := .modify fun c => by
    obtain ⟨q, t, hread, -⟩ := c.read_spec f
    rw [hread]
    exact ⟨rfl, List.prefix_append _ _⟩
  refine h.of_grows hg rfl (forall_serving_modify ?_ fun j c' _ hj => (h.conn j c' hj).other hg rfl)
  intro c' hi'
  obtain rfl := Option.some.inj (hi.symm.trans hi')
  exact ((h.conn i c hi).other hg rfl).read hc (fun d hd => (h.authentic d hd).cause_ne hi) f

/-- The lookup finds a connection with the key. -/
theorem found {i target : ℕ} {c t : ServerConn} {payload : List UInt8}
    (hi : s.serving i = some c) (hc : c.stage = .lookup t.key payload)
    (htarget : s.serving target = some t) :
    RoutingInv holds (s.modify i fun c => { c with stage := .enqueue target payload }) := by
  have hg : Grows s (s.modify i fun c => { c with stage := .enqueue target payload }) :=
    .modify fun _ => ⟨rfl, List.prefix_rfl⟩
  refine h.of_grows hg rfl (forall_serving_modify ?_ fun j c' _ hj => (h.conn j c' hj).other hg rfl)
  intro c' hi'
  obtain rfl := Option.some.inj (hi.symm.trans hi')
  obtain ⟨t', ht', hkey, -⟩ := hg.conn target t htarget
  refine ⟨(h.conn i c hi).held, ?_, ?_, (h.conn i c hi).sendq⟩
  · rintro dst payload' ⟨⟩
  · rintro j payload' ⟨⟩
    exact ⟨t', ht', hkey ▸ (h.conn i c hi).looking t.key payload hc⟩

/-- A frame that is on record is queued. -/
theorem offer {d : Delivery} (hd : d ∈ s.queued) :
    RoutingInv holds (s.modify d.target (·.offer ⟨frameRecv, d.body⟩)) := by
  have hg : Grows s (s.modify d.target (·.offer ⟨frameRecv, d.body⟩)) := .modify fun c => by
    obtain ⟨q, hq, -⟩ := c.offer_eq ⟨frameRecv, d.body⟩
    rw [hq]
    exact ⟨rfl, List.prefix_rfl⟩
  refine h.of_grows hg rfl (forall_serving_modify ?_ fun j c' _ hj => (h.conn j c' hj).other hg rfl)
  exact fun c hc => ((h.conn _ c hc).other hg rfl).offer fun _ => ⟨d, hd, rfl, rfl⟩

/-- The reader goes on to its next frame, and the frame it has forwarded goes on record. -/
theorem record {i target : ℕ} {c : ServerConn} {payload : List UInt8}
    (ff bf : ℕ) (hi : s.serving i = some c) (hc : c.stage = .enqueue target payload) :
    RoutingInv holds
      { s.modify i fun c => { c with stage := .reading } with
        framesForwarded := ff
        bytesForwarded := bf
        queued := s.queued ++ [⟨target, c.key.val ++ payload, (i, c.frames.length - 1)⟩] } := by
  obtain ⟨t, ht, ⟨f, hf, htyp, hbody⟩, hnot⟩ := (h.conn i c hi).targeted target payload hc
  have hnew : s.Authentic holds ⟨target, c.key.val ++ payload, (i, c.frames.length - 1)⟩ :=
    ⟨c, t, payload, f, hi, ht, (h.conn i c hi).held, hf, htyp, hbody, rfl⟩
  have hread : Grows s (s.modify i fun c => { c with stage := .reading }) :=
    .modify fun _ => ⟨rfl, List.prefix_rfl⟩
  have hg : Grows s
      { s.modify i fun c => { c with stage := .reading } with
        framesForwarded := ff
        bytesForwarded := bf
        queued := s.queued ++ [⟨target, c.key.val ++ payload, (i, c.frames.length - 1)⟩] } :=
    ⟨hread.conn, List.subset_append_left _ _⟩
  refine ⟨forall_serving_modify (s := s) ?_ ?_, ?_, ?_⟩
  · intro c' hi'
    obtain rfl := Option.some.inj (hi.symm.trans hi')
    exact (h.conn i c hi).mono hg ⟨rfl, rfl, List.Subset.refl _, .inr rfl⟩ (.inl rfl)
  · intro j c' hji hj
    refine (h.conn j c' hj).mono hg (Tame.refl c').toQuiet (.inr fun d hd => ?_)
    rcases List.mem_append.mp hd with hd | hd
    · exact .inl hd
    · rw [List.mem_singleton.mp hd]
      exact .inr hji.symm
  · intro d hd
    rcases List.mem_append.mp hd with hd | hd
    · exact (h.authentic d hd).mono hg
    · rw [List.mem_singleton.mp hd]
      exact hnew.mono hg
  · rw [List.map_append, List.map_singleton, ← List.concat_eq_append]
    exact h.nodup.concat hnot

theorem queued {i target : ℕ} {c : ServerConn} {payload : List UInt8}
    (ff bf : ℕ) (hi : s.serving i = some c) (hc : c.stage = .enqueue target payload) :
    RoutingInv holds
      { (s.modify i fun c => { c with stage := .reading }).modify target
          (·.offer ⟨frameRecv, c.key.val ++ payload⟩) with
        framesForwarded := ff
        bytesForwarded := bf
        queued := s.queued ++ [⟨target, c.key.val ++ payload, (i, c.frames.length - 1)⟩] } :=
  (h.record ff bf hi hc).offer (List.mem_append_right _ (List.mem_singleton_self _))

theorem effect {box : NaclBox} {op : ServerOp} (hconns : ConnsInv s)
    (hop : Unforged box holds s op) (he : Effect box s op s') : RoutingInv holds s' := by
  cases he with
  | tame _ _ hqueued _ hrel =>
    exact h.quiet hqueued fun j => rel_mono (fun _ _ ht => ht.toQuiet) (hrel j)
  | letIn hauth hi hkey _ _ hqueued _ hserving =>
    obtain ⟨conn', hserving⟩ := hserving
    obtain ⟨rfl, hopen⟩ := checkAuth_eq_some hkey
    refine h.letIn (serving_of_handshake hi) hqueued ?_ hserving
    rw [hauth] at hop
    exact hop ⟨_, hi, hopen⟩
  | register hi _ => exact h.quiet queued_register (rel_register hi)
  | read f hi hc => exact h.read f hi hc
  | found hi hc htarget =>
    obtain ⟨t, ht, rfl⟩ := hconns.key _ _ htarget
    exact h.found hi hc ht
  | queued ff bf hi hc _ _ => exact h.queued ff bf hi hc
  | unregister hi hc =>
    refine h.quiet rfl (rel_modify (fun c => (Tame.refl c).toQuiet) fun c' _ => ?_)
    exact ⟨rfl, rfl, List.Subset.refl _, .inr rfl⟩

end RoutingInv

end Server

open Server

variable {box : NaclBox} {holds : ℕ → Bytes32 → Prop}

/-- **Authenticity and routing.** In every run in which boxes open only for keys that their clients
hold, every `frameRecv` in the queue of a connection was caused by a frame to the key of that
connection, no frame caused two of them, and `conns` has the newest connection of every key, or none
if that one has been cleaned up. -/
theorem relay_run {ops : List ServerOp}
    (h : Along (Server.step box) (Unforged box holds) .start ops) :
    (∀ i c, (run (Server.step box) .start ops).serving i = some c → ∀ f ∈ c.sendq,
      f.typ = frameRecv → ∃ d ∈ (run (Server.step box) .start ops).queued,
        d.target = i ∧ d.body = f.body) ∧
    (∀ d ∈ (run (Server.step box) .start ops).queued,
      (run (Server.step box) .start ops).Authentic holds d) ∧
    ((run (Server.step box) .start ops).queued.map Delivery.cause).Nodup ∧
    ∀ k, (run (Server.step box) .start ops).Newest k := by
  have hinv : RoutingInv holds (run (Server.step box) .start ops) ∧
      ConnsInv (run (Server.step box) .start ops) := by
    refine run_induction_along (P := fun s => RoutingInv holds s ∧ ConnsInv s)
      ⟨.start, .start⟩ (fun s op hs hop => ?_) h
    have heffect := effect_step box s op
    exact ⟨hs.1.effect hs.2 hop heffect, hs.2.effect heffect⟩
  exact ⟨fun i c hi => (hinv.1.conn i c hi).sendq, hinv.1.authentic, hinv.1.nodup,
    hinv.2.newest⟩

/-! ### A connection that is replaced while a frame is on its way to it -/

/-- A box in which a message is sealed with the first half of the key of its sender. -/
def sampleBox : NaclBox where
  pub k := k
  sealBox m _ _ k := k.val.take overhead ++ m
  openBox c _ p _ := if c.take overhead = p.val.take overhead then some (c.drop overhead) else none
  length_sealBox m _ _ k := by
    rw [List.length_append, List.length_take, k.property, overhead]
    omega
  openBox_sealBox m _ k _ := by
    have hlen : (k.val.take overhead).length = overhead := by
      rw [List.length_take, k.property]
      rfl
    rw [List.take_left' hlen, List.drop_left' hlen, if_pos rfl]

/-- A `[24]byte`. -/
def sampleNonce : Nonce := ⟨List.replicate 24 9, List.length_replicate⟩

/-- A client with the key `sampleDst b` comes in as the `i`-th connection. -/
def sampleLogin (i : ℕ) (b : UInt8) : List ServerOp :=
  [.accept (sampleDst 7) sampleNonce .all .all,
    .auth i ⟨frameAuth, (sampleDst b).val ++ sampleBox.sealBox sampleNonce.val sampleNonce
      (sampleDst 7) (sampleDst b), by
        rw [List.length_append, sampleBox.length_sealBox, (sampleDst b).property,
          sampleNonce.property]
        decide⟩ .all .all]

/-- A frame to the key `sampleDst b`. -/
def sampleSend (b : UInt8) (p : UInt8) : Frame :=
  ⟨frameSend, (sampleDst b).val ++ [p], by
    rw [List.length_append, (sampleDst b).property, List.length_singleton]
    decide⟩

/-- The third connection takes the place of the second one, to which a frame is on its way. The
cleanup of the second one comes later. -/
def sampleTraffic : List ServerOp :=
  sampleLogin 0 1 ++ [.register 0] ++ sampleLogin 1 2 ++ [.register 1, .read 0 (sampleSend 2 5),
    .lookup 0] ++ sampleLogin 2 2 ++ [.register 2, .enqueue 0, .readFail 1, .unregister 1,
    .read 0 (sampleSend 2 6), .lookup 0, .enqueue 0]

/-- Both frames are delivered, the second one on the new connection. -/
theorem relay_replaced :
    (run (Server.step sampleBox) .start sampleTraffic).queued =
        [⟨1, (sampleDst 1).val ++ [5], (0, 0)⟩, ⟨2, (sampleDst 1).val ++ [6], (0, 1)⟩] ∧
      (∀ d ∈ (run (Server.step sampleBox) .start sampleTraffic).queued,
        (run (Server.step sampleBox) .start sampleTraffic).Authentic
          (fun i k => (i, k) ∈ [(0, sampleDst 1), (1, sampleDst 2), (2, sampleDst 2)]) d) ∧
      (run (Server.step sampleBox) .start sampleTraffic).Newest (sampleDst 2) := by
  have hunforged : Along (Server.step sampleBox) (Unforged sampleBox fun i k =>
      (i, k) ∈ [(0, sampleDst 1), (1, sampleDst 2), (2, sampleDst 2)]) .start sampleTraffic := by
    decide +kernel
  obtain ⟨-, hauthentic, -, hnewest⟩ := relay_run hunforged
  exact ⟨by decide +kernel, hauthentic, hnewest (sampleDst 2)⟩

end Relay

end OverMesh
