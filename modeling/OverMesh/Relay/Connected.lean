import OverMesh.Relay.Client
import OverMesh.Relay.Routing
import OverMesh.Internal.Slots

/-!
# Connected clients

The relay server together with the clients that run `client.go`. A client is `Connected` once it has
read the OK frame of its handshake. The server writes that frame before it registers the connection,
so a client may be connected, and know it, while frames for its key find no connection.

Connections of other clients come in as well; what they send is up to them. On a connection that a
client of this system has dialed, the server reads the answer that this client has written.

## Main definitions

* `Session`, `Party`, `Network`, `NetworkOp`, `Network.step`
* `Server.Live` — the server has neither lost the connection nor replaced it
* `Network.Reaches` — a frame that is about to be looked up is queued to the connection

## Main results

* `connected_reachable` — **a frame for a client that is connected reaches it exactly if its
  connection is registered when the frame is looked up**
* `lookup_before_register` — the client has read the OK frame, and the registration comes too late
-/

namespace OverMesh

open Key Runs

namespace Relay

/-! ### The system -/

/-- Where the `run` loop of a client is. -/
inductive Session where
  /-- Between two sessions. -/
  | idle
  /-- The `i`-th connection is dialed; its challenge, if it was written. -/
  | dialed (i : ℕ) (challenge : Option Frame)
  /-- `authenticate` waits for the OK frame. -/
  | answered (i : ℕ)
  /-- `authenticate` has returned. -/
  | accepted (i : ℕ)
  /-- In the read loop. -/
  | running (i : ℕ)
  /-- `session` has returned. -/
  | over
  deriving DecidableEq

/-- The connection of a session. -/
def Session.conn : Session → Option ℕ
  | .dialed i _ | .answered i | .accepted i | .running i => some i
  | .idle | .over => none

/-- The OK frame was read. -/
def Session.authenticated : Session → Bool
  | .accepted _ | .running _ => true
  | .idle | .dialed .. | .answered _ | .over => false

/-- A client with its keys. -/
structure Party where
  priv : Bytes32
  pub : Bytes32
  client : Client
  session : Session

/-- `Connected` holds because of the `i`-th connection. -/
def Party.ConnectedBy (p : Party) (i : ℕ) : Prop := p.client.up = true ∧ p.session = .running i

instance (p : Party) (i : ℕ) : Decidable (p.ConnectedBy i) := inferInstanceAs (Decidable (_ ∧ _))

/-- The server and the clients. -/
structure Network where
  srv : Server
  parties : List Party
  /-- Who has dialed a connection. -/
  dialer : ℕ → Option ℕ
  /-- The answer to the challenge that was written on it. -/
  wrote : ℕ → Option Frame

/-- The steps. -/
inductive NetworkOp where
  /-- A step of the server. -/
  | serve (op : ServerOp)
  /-- The `p`-th client dials. -/
  | dial (p : ℕ) (ephPriv : Bytes32) (nonce : Nonce) (r₁ r₂ : WriteResult)
  /-- It answers the challenge. -/
  | answer (p : ℕ) (r₁ r₂ : WriteResult)
  /-- It reads the OK frame. -/
  | ok (p : ℕ)
  /-- It is `up`. -/
  | connect (p : ℕ)
  /-- Its session returns, for whatever reason. -/
  | hangUp (p : ℕ)
  | lost (p : ℕ)
  | close (p : ℕ)

namespace Network

/-- The `p`-th client goes on if `f` says how. -/
def onParty (s : Network) (p : ℕ) (f : Party → Option Network) : Network :=
  match s.parties[p]? with
  | some party => (f party).getD s
  | none => s

/-- The `p`-th client is changed. -/
def setParty (s : Network) (p : ℕ) (party : Party) : Network :=
  { s with parties := s.parties.set p party }

/-- On a connection that a client has dialed the server reads what the client has written. -/
def readable (s : Network) : ServerOp → Bool
  | .auth i f _ _ => s.dialer i == none || s.wrote i == some f
  | _ => true

variable (box : NaclBox)

/-- `dial`, and the beginning of `handshake` at the other end. -/
def dial (s : Network) (p : ℕ) (party : Party) (ephPriv : Bytes32) (nonce : Nonce)
    (r₁ r₂ : WriteResult) : Network :=
  let i := s.srv.all.length
  let sent := match Server.accept box ephPriv nonce r₁ r₂ with
    | .handshake .. => some (challenge box ephPriv nonce)
    | .failed | .serving _ => none
  { s.setParty p { party with session := .dialed i sent } with
    srv := s.srv.step box (.accept ephPriv nonce r₁ r₂)
    dialer := Function.update s.dialer i (some p)
    wrote := Function.update s.wrote i none }

/-- `authenticate`, up to the OK frame. -/
def answer (s : Network) (p : ℕ) (party : Party) (i : ℕ) (sent : Frame) (r₁ r₂ : WriteResult) :
    Network :=
  match Relay.answer box party.priv party.pub sent with
  | some f =>
    if r₁ = .all ∧ r₂ = .all then
      { s.setParty p { party with session := .answered i } with
        wrote := Function.update s.wrote i (some f) }
    else s.setParty p { party with session := .over }
  | none => s.setParty p { party with session := .over }

/-- One step. -/
def step (s : Network) : NetworkOp → Network
  | .serve op => if s.readable op then { s with srv := s.srv.step box op } else s
  | .dial p ephPriv nonce r₁ r₂ => s.onParty p fun party =>
    if party.session = .idle ∧ party.client.closed = false then
      some (s.dial box p party ephPriv nonce r₁ r₂)
    else none
  | .answer p r₁ r₂ => s.onParty p fun party =>
    match party.session with
    | .dialed i (some sent) => some (s.answer box p party i sent r₁ r₂)
    | _ => none
  | .ok p => s.onParty p fun party =>
    match party.session with
    | .answered i =>
      -- The server has written the OK frame if it is past the handshake.
      if (s.srv.serving i).isSome then some (s.setParty p { party with session := .accepted i })
      else none
    | _ => none
  | .connect p => s.onParty p fun party =>
    match party.session with
    | .accepted i =>
      let session := if party.client.closed then .over else .running i
      some (s.setParty p
        { party with client := party.client.connect ⟨[], false⟩, session := session })
    | _ => none
  | .hangUp p => s.onParty p fun party =>
    if party.session = .idle then none
    else some (s.setParty p { party with client := party.client.hangUp, session := .over })
  | .lost p => s.onParty p fun party =>
    if party.session = .over then
      some (s.setParty p { party with client := party.client.lost, session := .idle })
    else none
  | .close p => s.onParty p fun party =>
    some (s.setParty p { party with client := party.client.close })

/-- The server and clients that were just started with their keys. -/
def start (keys : List (Bytes32 × Bytes32)) : Network :=
  ⟨.start, keys.map fun k => ⟨k.1, k.2, .new, .idle⟩, fun _ => none, fun _ => none⟩

end Network

/-! ### Connections that are not registered yet -/

namespace Server

variable {box : NaclBox} {s s' : Server} {op : ServerOp} {i j : ℕ} {c c' : ServerConn}

/-- The connection has completed the handshake, and was registered. -/
def Known (s : Server) (i : ℕ) : Prop := ∃ c, s.serving i = some c ∧ c.stage ≠ .register

/-- A connection that was registered stays so. -/
theorem Known.effect (h : s.Known j) (he : Effect box s op s') : s'.Known j := by
  obtain ⟨c, hj, hc⟩ := h
  have hsteady : Option.Rel Steady (s.serving j) (s'.serving j) → s'.Known j := by
    intro hrel
    obtain ⟨c', hj', hs⟩ := exists_of_rel_left (hj ▸ hrel)
    exact ⟨c', hj', fun hr => hc (hs.register.mp hr)⟩
  rcases he.rel_steady with hrel | ⟨i, _, _, _, _, _, hi, _, _, _, hserving⟩ | ⟨i, _, hi, rfl⟩
  · exact hsteady (hrel j)
  · refine ⟨c, ?_, hc⟩
    rw [hserving, Function.update_of_ne ?_, hj]
    rintro rfl
    rw [hi] at hj
    cases hj
  · by_cases hji : j = i
    · subst hji
      obtain ⟨c', hi', -, hst⟩ := serving_register_self hi
      exact ⟨c', hi', by simp [hst]⟩
    · exact hsteady (rel_mono (fun _ _ ht => ht.toSteady) (serving_register_of_ne hji).1)

/-- A connection that has completed the handshake stays, with its key. -/
theorem Effect.serving_keeps (he : Effect box s op s') (hi : s.serving i = some c) :
    ∃ c', s'.serving i = some c' ∧ c'.key = c.key := by
  rcases he.rel_steady with hrel | ⟨j, _, _, _, _, _, hj, _, _, _, hserving⟩ | ⟨j, _, hj, rfl⟩
  · obtain ⟨c', hi', hs⟩ := exists_of_rel_left (hi ▸ hrel i)
    exact ⟨c', hi', hs.key⟩
  · refine ⟨c, ?_, rfl⟩
    rw [hserving, Function.update_of_ne ?_, hi]
    rintro rfl
    rw [hj] at hi
    cases hi
  · obtain ⟨c', hi', hq⟩ := exists_of_rel_left (hi ▸ rel_register hj i)
    exact ⟨c', hi', hq.key⟩

/-- It was there before, or has just completed the handshake. -/
theorem Effect.serving_cases (he : Effect box s op s') (hi : s'.serving i = some c') :
    (∃ c, s.serving i = some c ∧ c'.key = c.key) ∨
      ∃ f r₁ r₂, op = .auth i f r₁ r₂ ∧ c'.key = copyKey f.body := by
  rcases he.rel_steady with
    hrel | ⟨j, f, r₁, r₂, c, hop, _, hkey, _, _, hserving⟩ | ⟨j, _, hj, rfl⟩
  · obtain ⟨c, hc, hs⟩ := exists_of_rel_right (hi ▸ hrel i)
    exact .inl ⟨c, hc, hs.key⟩
  · rw [hserving] at hi
    by_cases hij : i = j
    · subst hij
      rw [Function.update_self] at hi
      obtain rfl := Option.some.inj hi
      exact .inr ⟨f, r₁, r₂, hop, hkey⟩
    · rw [Function.update_of_ne hij] at hi
      exact .inl ⟨c', hi, rfl⟩
  · obtain ⟨c, hc, hq⟩ := exists_of_rel_right (hi ▸ rel_register hj i)
    exact .inl ⟨c, hc, hq.key⟩

/-- What is to be looked up, or is on its way, is known; before its registration nothing is queued
to a connection. -/
structure ConnKnown (s : Server) (c : ServerConn) : Prop where
  target : ∀ i payload, c.stage = .enqueue i payload → s.Known i
  sendq : c.stage = .register → c.sendq = []

/-- Only known connections are known to others. -/
structure KnownInv (s : Server) : Prop where
  conns : ∀ k i, s.conns k = some i → s.Known i
  conn : ∀ j c, s.serving j = some c → ConnKnown s c

theorem ConnKnown.mono (h : ConnKnown s c) (hknown : ∀ i, s.Known i → s'.Known i) (hq : Quiet c c')
    (hr : c'.stage = .register → c.stage = .register) : ConnKnown s' c' := by
  constructor
  · intro i payload hst
    rcases hq.stage with heq | hidle
    · exact hknown i (h.target i payload (heq ▸ hst))
    · rw [hst] at hidle
      cases hidle
  · intro hst
    have hnil := h.sendq (hr hst)
    exact List.subset_nil.mp (hnil ▸ hq.sendq)

namespace KnownInv

theorem start : KnownInv .start where
  conns k i h := by cases h
  conn j c h := by simp [Server.serving, Server.start] at h

theorem effect (h : KnownInv s) (he : Effect box s op s') : KnownInv s' := by
  have hknown : ∀ i, s.Known i → s'.Known i := fun i hi => hi.effect he
  have hsame : ∀ {j c}, s.serving j = some c → ConnKnown s' c := fun {j c} hj =>
    (h.conn j c hj).mono hknown (Tame.refl c).toQuiet id
  cases he with
  | tame hconns _ _ _ hrel =>
    refine ⟨fun k i hk => hknown i (h.conns k i (hconns ▸ hk)), fun j c' hj => ?_⟩
    obtain ⟨c, hc, ht⟩ := exists_of_rel_right (hj ▸ hrel j)
    exact (h.conn j c hc).mono hknown ht.toQuiet ht.register.mp
  | @letIn _ i _ _ _ _ _ _ _ _ _ _ hconns _ _ _ hserving =>
    obtain ⟨conn', hserving⟩ := hserving
    refine ⟨fun k i hk => hknown i (h.conns k i (hconns ▸ hk)), fun j c' hj => ?_⟩
    rw [hserving] at hj
    by_cases hji : j = i
    · subst hji
      rw [Function.update_self] at hj
      obtain rfl := Option.some.inj hj
      exact ⟨by simp, fun _ => rfl⟩
    · rw [Function.update_of_ne hji] at hj
      exact hsame hj
  | @register i c hi hc =>
    refine ⟨fun k j hk => ?_, fun j c' hj => ?_⟩
    · rw [conns_register] at hk
      split_ifs at hk
      · obtain rfl := Option.some.inj hk
        obtain ⟨c', hi', -, hst⟩ := serving_register_self hi
        exact ⟨c', hi', by simp [hst]⟩
      · exact hknown j (h.conns k j hk)
    · obtain ⟨c₀, hj₀, hq⟩ := exists_of_rel_right (hj ▸ rel_register hi j)
      refine (h.conn j c₀ hj₀).mono hknown hq fun hst => ?_
      by_cases hji : j = i
      · subst hji
        rwa [← Option.some.inj (hi.symm.trans hj₀)]
      · have hrel := (serving_register_of_ne (s := s) (c := c) hji).1
        rw [hj₀, hj] at hrel
        cases hrel with
        | some ht => exact ht.register.mp hst
  | @read i c f hi hc =>
    refine ⟨fun k j hk => hknown j (h.conns k j hk), forall_serving_modify ?_ fun j c' _ => hsame⟩
    intro c' hi'
    obtain rfl := Option.some.inj (hi.symm.trans hi')
    obtain ⟨q, t, hread, -, ht⟩ := c.read_spec f
    have hstage : t = .reading ∨ ∃ dst payload, t = .lookup dst payload := by
      rcases ht with rfl | ⟨-, dst, payload, -, rfl⟩
      · exact .inl hc
      · exact .inr ⟨dst, payload, rfl⟩
    rw [hread]
    rcases hstage with rfl | ⟨dst, payload, rfl⟩ <;> exact ⟨by simp, by simp⟩
  | @found i c dst payload target hi hc htarget =>
    refine ⟨fun k j hk => hknown j (h.conns k j hk), forall_serving_modify ?_ fun j c' _ => hsame⟩
    intro c' hi'
    refine ⟨?_, by simp⟩
    intro j payload' hst
    cases hst
    exact hknown target (h.conns dst target htarget)
  | @queued i c t target payload _ _ hi hc ht _ =>
    refine ⟨fun k j hk => hknown j (h.conns k j hk), ?_⟩
    -- the reader goes on, and the target, which is known, gets the frame
    have hread : ∀ j c', (s.modify i fun c => { c with stage := .reading }).serving j = some c' →
        ConnKnown _ c' :=
      forall_serving_modify (fun c _ => ⟨by simp, by simp⟩) fun j c' _ hj => hsame hj
    refine forall_serving_modify (s := s.modify i fun c => { c with stage := .reading }) ?_
      fun j c' _ => hread j c'
    intro c₀ hc₀
    obtain ⟨t₀, ht₀, hr⟩ := (h.conn i c hi).target target payload hc
    have hrel :=
      rel_steady_goto hi (t := .reading) (by rw [hc]; rfl) (by simp [hc]) (by simp) target
    rw [ht₀, hc₀] at hrel
    obtain ⟨q, hq, -⟩ := c₀.offer_eq ⟨frameRecv, c.key.val ++ payload⟩
    rw [hq]
    refine ⟨(hread target c₀ hc₀).target, fun hst => ?_⟩
    cases hrel with
    | some hs => exact absurd (hs.register.mp hst) hr
  | @unregister i c hi hc =>
    refine ⟨fun k j hk => ?_, forall_serving_modify (fun c' _ => ⟨by simp, by simp⟩)
      fun j c' _ => hsame⟩
    rcases conns_unregister (s := s) (i := i) (c := c) k with hold | ⟨-, hnone⟩
    · exact hknown j (h.conns k j (hold ▸ hk))
    · rw [hnone] at hk
      cases hk

end KnownInv

/-! ### A frame on its way -/

/-- The `i`-th connection, with the key `key`, is about to queue a frame. -/
def Waits (s : Server) (i : ℕ) (key : Bytes32) (target : ℕ) (payload : List UInt8) : Prop :=
  ∃ c, s.serving i = some c ∧ c.key = key ∧ c.stage = .enqueue target payload

namespace Waits

variable {key : Bytes32} {target : ℕ} {payload : List UInt8} {f : ServerConn → ServerConn}

theorem modify (h : s.Waits i key target payload)
    (hf : ∀ c, (f c).key = c.key ∧ (f c).stage = c.stage) :
    (s.modify j f).Waits i key target payload := by
  obtain ⟨c, hi, hkey, hc⟩ := h
  obtain ⟨c', hi', hk', hst⟩ := exists_of_rel_left (hi ▸ rel_modify (i := j) (f := f)
    (R := fun c c' => c'.key = c.key ∧ c'.stage = c.stage) (fun _ => ⟨rfl, rfl⟩)
    (fun c _ => hf c) i)
  exact ⟨c', hi', hk'.trans hkey, hst.trans hc⟩

theorem modify_of_ne (h : s.Waits i key target payload) (hj : j ≠ i) :
    (s.modify j f).Waits i key target payload := by
  obtain ⟨c, hi, hc⟩ := h
  exact ⟨c, (serving_modify_of_ne hj.symm).trans hi, hc⟩

/-- Connections at other stages are other connections. -/
theorem ne (h : s.Waits i key target payload) (hj : s.serving j = some c)
    (hc : c.stage ≠ .enqueue target payload) : j ≠ i := by
  rintro rfl
  obtain ⟨c', hi, -, hc'⟩ := h
  obtain rfl := Option.some.inj (hj.symm.trans hi)
  exact hc hc'

theorem of_serving (h : s.Waits i key target payload) (hserving : s'.serving = s.serving) :
    s'.Waits i key target payload := by
  rw [Waits, hserving]
  exact h

/-- A handshake ends on another connection. -/
theorem set (h : s.Waits i key target payload) {conn : Conn} {ephPriv : Bytes32} {nonce : Nonce}
    {x : Serving} (hj : s.all[j]? = some (.handshake conn ephPriv nonce)) :
    Waits { s with all := s.all.set j x } i key target payload := by
  obtain ⟨c, hi, hc⟩ := h
  refine ⟨c, ?_, hc⟩
  rw [serving_set hj, Function.update_of_ne ?_, hi]
  rintro rfl
  rw [serving_of_handshake hj] at hi
  cases hi

theorem onConn (h : s.Waits i key target payload) {t : ServeStage}
    (ht : t ≠ .enqueue target payload) {g : ServerConn → Server}
    (hg : j ≠ i → ∀ c, (g c).Waits i key target payload) :
    (s.onConn j t g).Waits i key target payload :=
  onConn_induction (P := fun s' => s'.Waits i key target payload) h fun c hj hc =>
    hg (h.ne hj (hc ▸ ht)) c

/-- **Until the frame is queued, its reader stays where it is.** -/
theorem step (h : s.Waits i key target payload) (hop : op ≠ .enqueue i) :
    (s.step box op).Waits i key target payload := by
  cases op with
  | accept ephPriv nonce r₁ r₂ =>
    exact h.of_serving (serving_concat (conn?_accept box ephPriv nonce r₁ r₂))
  | auth j f r₁ r₂ =>
    rw [Server.step]
    split
    · next hj => exact h.set hj
    · exact h
  | authFail j =>
    rw [Server.step]
    split
    · next hj => exact h.set hj
    · exact h
  | register j =>
    refine h.onConn (by simp) fun hj c => ?_
    refine modify_of_ne (s := s.closeOld c.key) ?_ hj
    rw [closeOld]
    split
    · exact h.modify fun c => ⟨rfl, rfl⟩
    · exact h
  | read j f => exact h.onConn (by simp) fun hj _ => h.modify_of_ne hj
  | readFail j => exact h.onConn (by simp) fun hj _ => h.modify_of_ne hj
  | lookup j =>
    rw [Server.step]
    split
    · next c hj =>
      split
      · next hc =>
        have hne := h.ne hj (by simp [hc])
        rw [lookup]
        split <;> exact h.modify_of_ne hne
      · exact h
    · exact h
  | enqueue j =>
    have hj : j ≠ i := by
      rintro rfl
      exact hop rfl
    rw [Server.step]
    split
    · split
      · rw [enqueue]
        split
        · exact h.modify_of_ne hj
        · split
          · refine modify (h.modify_of_ne hj) fun c => ?_
            obtain ⟨q, hq, -⟩ := c.offer_eq _
            rw [hq]
            exact ⟨rfl, rfl⟩
          · exact h.modify_of_ne hj
      · exact h
    · exact h
  | unregister j => exact h.onConn (by simp) fun hj _ => h.modify_of_ne hj
  | close j => exact h.onConn (by simp) fun hj _ => h.modify_of_ne hj
  | write j r₁ r₂ =>
    refine h.modify fun c => ?_
    split_ifs
    · exact c.write_keeps r₁ r₂
    · exact ⟨rfl, rfl⟩
  | stopWriter j =>
    refine h.modify fun c => ?_
    split_ifs <;> exact ⟨rfl, rfl⟩

end Waits

/-- The frame is queued, if there is room. -/
theorem serving_enqueue (box : NaclBox) {key : Bytes32} {target : ℕ} {payload : List UInt8}
    (h : s.Waits i key target payload) {t : ServerConn} (ht : s.serving target = some t)
    (hroom : t.sendq.length < sendqCap) : ∃ t', (s.step box (.enqueue i)).serving target = some t' ∧
      t'.sendq = t.sendq ++ [⟨frameRecv, key.val ++ payload⟩] := by
  obtain ⟨c, hi, rfl, hc⟩ := h
  obtain ⟨t₁, ht₁, hq⟩ := exists_of_rel_left (ht ▸ rel_modify (i := i)
    (f := fun c => { c with stage := .reading }) (R := fun c c' => c'.sendq = c.sendq)
    (fun _ => rfl) (fun _ _ => rfl) target)
  have hroom₁ : t₁.sendq.length < sendqCap := by rwa [hq]
  refine ⟨t₁.offer ⟨frameRecv, c.key.val ++ payload⟩, ?_, ?_⟩
  · rw [Server.step]
    simp only [hi, hc]
    rw [enqueue]
    simp only [ht₁, if_pos hroom₁]
    refine serving_modify_self.trans ?_
    rw [ht₁]
    rfl
  · rw [ServerConn.offer, if_pos hroom₁, ← hq]

/-- The lookup of a frame finds what `conns` has. -/
theorem step_lookup {dst : Bytes32} {payload : List UInt8} (hi : s.serving i = some c)
    (hc : c.stage = .lookup dst payload) {target : ℕ} (hdst : s.conns dst = some target) :
    s.step box (.lookup i) = s.modify i fun c => { c with stage := .enqueue target payload } := by
  rw [Server.step]
  simp only [hi, hc]
  rw [lookup, hdst]

theorem waits_lookup (box : NaclBox) {dst : Bytes32} {payload : List UInt8}
    (hi : s.serving i = some c)
    (hc : c.stage = .lookup dst payload) {target : ℕ} (hdst : s.conns dst = some target) :
    (s.step box (.lookup i)).Waits i c.key target payload := by
  refine ⟨{ c with stage := .enqueue target payload }, ?_, rfl, rfl⟩
  rw [step_lookup hi hc hdst, serving_modify_self, hi]
  rfl

/-- A lookup concerns its own connection only. -/
theorem serving_lookup_of_ne (h : j ≠ i) : (s.step box (.lookup i)).serving j = s.serving j := by
  rw [Server.step]
  split
  · split
    · rw [lookup]
      split <;> exact serving_modify_of_ne h
    · rfl
  · rfl

/-- Queueing a frame concerns its own connection and the target. -/
theorem serving_enqueue_of_ne (h : j ≠ i)
    (htarget : ∀ c target payload, s.serving i = some c → c.stage = .enqueue target payload →
      j ≠ target) : (s.step box (.enqueue i)).serving j = s.serving j := by
  rw [Server.step]
  split
  · next c hi =>
    split
    · next target payload hc =>
      have hne := htarget c target payload hi hc
      rw [enqueue]
      split
      · exact serving_modify_of_ne h
      · split
        · exact (serving_modify_of_ne hne).trans (serving_modify_of_ne h)
        · exact serving_modify_of_ne h
    · rfl
  · rfl

/-- The server has neither lost the connection nor replaced it. -/
def Live (s : Server) (i : ℕ) : Prop :=
  ∃ c ∈ s.serving i, c.done = false ∧ c.stage ≠ .cleanup ∧ c.stage.cleaned = false

instance (s : Server) (i : ℕ) : Decidable (s.Live i) :=
  inferInstanceAs (Decidable (∃ c ∈ s.serving i, _))

end Server

/-! ### Who is connected -/

open Server

/-- The answer of a client starts with its key. -/
theorem copyKey_answer {box : NaclBox} {priv pub : Bytes32} {f g : Frame}
    (h : answer box priv pub f = some g) : copyKey g.body = pub := by
  rw [answer] at h
  split_ifs at h
  obtain rfl := Option.some.inj h
  exact copyKey_append _ _

/-- A connection that a client has dialed has the key of that client, and the client has read the OK
frame only if the server has written it. -/
structure NetworkInv (s : Network) : Prop where
  conns : ConnsInv s.srv
  known : KnownInv s.srv
  dialed : ∀ i p, s.dialer i = some p → i < s.srv.all.length
  wrote : ∀ i p f, s.dialer i = some p → s.wrote i = some f →
    ∃ party, s.parties[p]? = some party ∧ copyKey f.body = party.pub
  key : ∀ i p c, s.dialer i = some p → s.srv.serving i = some c →
    ∃ party, s.parties[p]? = some party ∧ c.key = party.pub
  session : ∀ (p : ℕ) (party : Party) (i : ℕ), s.parties[p]? = some party →
    party.session.conn = some i → s.dialer i = some p
  authenticated : ∀ (p : ℕ) (party : Party) (i : ℕ), s.parties[p]? = some party →
    party.session.conn = some i → party.session.authenticated = true →
      (s.srv.serving i).isSome = true

namespace NetworkInv

variable {box : NaclBox} {s : Network} {p : ℕ} {party party' : Party}

theorem start (keys : List (Bytes32 × Bytes32)) : NetworkInv (.start keys) where
  conns := .start
  known := .start
  dialed i p h := by cases h
  wrote i p f h := by cases h
  key i p c h := by cases h
  session p party i hp hi := by
    obtain ⟨k, -, rfl⟩ := List.mem_map.mp (List.mem_of_getElem? hp)
    cases hi
  authenticated p party i hp hi := by
    obtain ⟨k, -, rfl⟩ := List.mem_map.mp (List.mem_of_getElem? hp)
    cases hi

/-- A client changes that keeps its key. -/
theorem exists_pub_set (hp : s.parties[p]? = some party) (hpub : party'.pub = party.pub) {q : ℕ}
    {k : Bytes32} (h : ∃ party, s.parties[q]? = some party ∧ k = party.pub) :
    ∃ party, (s.parties.set p party')[q]? = some party ∧ k = party.pub := by
  obtain ⟨party₀, hq, hk⟩ := h
  by_cases hqp : p = q
  · subst hqp
    obtain rfl := Option.some.inj (hp.symm.trans hq)
    exact ⟨party', List.getElem?_set_self (List.getElem?_eq_some_iff.mp hp).1, by rw [hpub, hk]⟩
  · exact ⟨party₀, by rw [List.getElem?_set_ne hqp, hq], hk⟩

/-- A client goes on with the connection it has, or without one. -/
theorem setParty (h : NetworkInv s) (hp : s.parties[p]? = some party)
    (hpub : party'.pub = party.pub)
    (hconn : ∀ i, party'.session.conn = some i → s.dialer i = some p)
    (hauth : ∀ i, party'.session.conn = some i → party'.session.authenticated = true →
      (s.srv.serving i).isSome = true) : NetworkInv (s.setParty p party') where
  conns := h.conns
  known := h.known
  dialed := h.dialed
  wrote i q f hq hf := exists_pub_set hp hpub (h.wrote i q f hq hf)
  key i q c hq hc := exists_pub_set hp hpub (h.key i q c hq hc)
  session q party₀ i hq hi := by
    rcases Slots.getElem?_set_cases hq with ⟨rfl, rfl⟩ | ⟨-, hq⟩
    · exact hconn i hi
    · exact h.session q party₀ i hq hi
  authenticated q party₀ i hq hi ha := by
    rcases Slots.getElem?_set_cases hq with ⟨rfl, rfl⟩ | ⟨-, hq⟩
    · exact hauth i hi ha
    · exact h.authenticated q party₀ i hq hi ha

/-- The session ends, or has none. -/
theorem setParty_of_conn_none (h : NetworkInv s) (hp : s.parties[p]? = some party)
    (hpub : party'.pub = party.pub) (hconn : party'.session.conn = none) :
    NetworkInv (s.setParty p party') :=
  h.setParty hp hpub (fun i hi => by rw [hconn] at hi; cases hi)
    fun i hi => by rw [hconn] at hi; cases hi

/-- A connection was dialed now, or before. -/
theorem dialer_cases {d : ℕ → Option ℕ} {i j q : ℕ}
    (h : Function.update d i (some p) j = some q) : j = i ∧ q = p ∨ j ≠ i ∧ d j = some q := by
  by_cases hj : j = i
  · subst hj
    rw [Function.update_self] at h
    exact .inl ⟨rfl, (Option.some.inj h).symm⟩
  · rw [Function.update_of_ne hj] at h
    exact .inr ⟨hj, h⟩

/-- A step of the server. -/
theorem serve (h : NetworkInv s) {op : ServerOp} (hread : s.readable op = true) :
    NetworkInv { s with srv := s.srv.step box op } := by
  have he := effect_step box s.srv op
  refine ⟨h.conns.effect he, h.known.effect he, ?_, h.wrote, ?_, h.session, ?_⟩
  · exact fun i p hp => lt_of_lt_of_le (h.dialed i p hp) he.length_le
  · intro i p c' hp hi
    rcases he.serving_cases hi with ⟨c, hc, hkey⟩ | ⟨f, r₁, r₂, rfl, hkey⟩
    · rw [hkey]
      exact h.key i p c hp hc
    · -- what the server has read is what the client has written
      have hdialer : s.dialer i = some p := hp
      have hf : s.wrote i = some f := by simpa [Network.readable, hdialer] using hread
      rw [hkey]
      exact h.wrote i p f hp hf
  · intro p party i hp hi ha
    obtain ⟨c, hc⟩ := Option.isSome_iff_exists.mp (h.authenticated p party i hp hi ha)
    obtain ⟨c', hc', -⟩ := he.serving_keeps hc
    exact Option.isSome_iff_exists.mpr ⟨c', hc'⟩

/-- A client dials. -/
theorem dial (h : NetworkInv s) (hp : s.parties[p]? = some party) (ephPriv : Bytes32)
    (nonce : Nonce) (r₁ r₂ : WriteResult) :
    NetworkInv (s.dial box p party ephPriv nonce r₁ r₂) := by
  have he := effect_step box s.srv (.accept ephPriv nonce r₁ r₂)
  have hserving : (s.srv.step box (.accept ephPriv nonce r₁ r₂)).serving = s.srv.serving :=
    serving_concat (conn?_accept box ephPriv nonce r₁ r₂)
  rw [Network.dial]
  generalize (match Server.accept box ephPriv nonce r₁ r₂ with
    | .handshake .. => some (challenge box ephPriv nonce)
    | .failed | .serving _ => none) = sent
  refine ⟨h.conns.effect he, h.known.effect he, ?_, ?_, ?_, ?_, ?_⟩
  · intro j q hq
    have hlen : (s.srv.step box (.accept ephPriv nonce r₁ r₂)).all.length =
        s.srv.all.length + 1 := by simp [Server.step]
    refine hlen ▸ ?_
    rcases dialer_cases hq with ⟨rfl, -⟩ | ⟨-, hq⟩
    · exact Nat.lt_succ_self _
    · exact Nat.lt_succ_of_lt (h.dialed j q hq)
  · intro j q f hq hf
    rcases dialer_cases hq with ⟨rfl, rfl⟩ | ⟨hj, hq⟩
    · simp at hf
    · refine exists_pub_set hp ?_ (h.wrote j q f hq ((Function.update_of_ne hj _ _).symm.trans hf))
      rfl
  · intro j q c hq hc
    have hold : s.srv.serving j = some c := by
      rw [← hserving]
      exact hc
    rcases dialer_cases hq with ⟨rfl, rfl⟩ | ⟨-, hq⟩
    · rw [Server.serving, List.getElem?_eq_none le_rfl] at hold
      cases hold
    · refine exists_pub_set hp ?_ (h.key j q c hq hold)
      rfl
  · intro q party₀ j hq hj
    rcases Slots.getElem?_set_cases hq with ⟨rfl, rfl⟩ | ⟨-, hq⟩
    · obtain rfl := Option.some.inj hj
      exact Function.update_self _ _ _
    · have hold := h.session q party₀ j hq hj
      exact (Function.update_of_ne (Nat.ne_of_lt (h.dialed j q hold)) _ _).trans hold
  · intro q party₀ j hq hj ha
    rcases Slots.getElem?_set_cases hq with ⟨rfl, rfl⟩ | ⟨-, hq⟩
    · cases ha
    · have hold := h.authenticated q party₀ j hq hj ha
      rw [← hserving] at hold
      exact hold

theorem answer (h : NetworkInv s) (hp : s.parties[p]? = some party) {i : ℕ}
    (hi : party.session.conn = some i) (sent : Frame) (r₁ r₂ : WriteResult) :
    NetworkInv (s.answer box p party i sent r₁ r₂) := by
  rw [Network.answer]
  split
  · next f hf =>
    split_ifs
    · have hdialer := h.session p party i hp hi
      have hset : NetworkInv (s.setParty p { party with session := .answered i }) := by
        refine h.setParty hp rfl ?_ ?_
        · rintro j ⟨⟩
          exact hdialer
        · rintro j - ⟨⟩
      refine ⟨hset.conns, hset.known, hset.dialed, ?_, hset.key, hset.session, hset.authenticated⟩
      intro j q g hq hg
      by_cases hji : j = i
      · subst hji
        obtain rfl := Option.some.inj (hdialer.symm.trans hq)
        have hg : Function.update s.wrote j (some f) j = some g := hg
        rw [Function.update_self] at hg
        obtain rfl := Option.some.inj hg
        refine exists_pub_set hp ?_ ⟨party, hp, copyKey_answer hf⟩
        rfl
      · exact hset.wrote j q g hq ((Function.update_of_ne hji _ _).symm.trans hg)
    · exact h.setParty_of_conn_none hp rfl rfl
  · exact h.setParty_of_conn_none hp rfl rfl

/-- What going on leads to, the step leads to. -/
theorem onParty (h : NetworkInv s) {f : Party → Option Network}
    (hf : ∀ party s', s.parties[p]? = some party → f party = some s' → NetworkInv s') :
    NetworkInv (s.onParty p f) := by
  rw [Network.onParty]
  cases hp : s.parties[p]? with
  | none => exact h
  | some party =>
    cases hs' : f party with
    | none => simpa [hs'] using h
    | some s' => simpa [hs'] using hf party s' hp hs'

theorem step (op : NetworkOp) (h : NetworkInv s) : NetworkInv (s.step box op) := by
  cases op with
  | serve op =>
    rw [Network.step]
    split_ifs with hread
    · exact h.serve hread
    · exact h
  | dial p ephPriv nonce r₁ r₂ =>
    refine h.onParty fun party s' hp hs' => ?_
    split_ifs at hs'
    obtain rfl := Option.some.inj hs'
    exact h.dial hp ephPriv nonce r₁ r₂
  | answer p r₁ r₂ =>
    refine h.onParty fun party s' hp hs' => ?_
    split at hs'
    · next i sent hsession =>
      obtain rfl := Option.some.inj hs'
      exact h.answer hp (by rw [hsession]; rfl) sent r₁ r₂
    · cases hs'
  | ok p =>
    refine h.onParty fun party s' hp hs' => ?_
    split at hs'
    · next i hsession =>
      split_ifs at hs' with hsome
      obtain rfl := Option.some.inj hs'
      refine h.setParty hp rfl ?_ ?_
      · rintro j ⟨⟩
        exact h.session p party _ hp (by rw [hsession]; rfl)
      · rintro j ⟨⟩ -
        exact hsome
    · cases hs'
  | connect p =>
    refine h.onParty fun party s' hp hs' => ?_
    split at hs'
    · next i hsession =>
      obtain rfl := Option.some.inj hs'
      have hi : party.session.conn = some i := by rw [hsession]; rfl
      cases party.client.closed with
      | true => exact h.setParty_of_conn_none hp rfl rfl
      | false =>
        refine h.setParty hp rfl ?_ ?_
        · rintro j ⟨⟩
          exact h.session p party _ hp hi
        · rintro j ⟨⟩ -
          exact h.authenticated p party _ hp hi (by rw [hsession]; rfl)
    · cases hs'
  | hangUp p =>
    refine h.onParty fun party s' hp hs' => ?_
    split_ifs at hs'
    obtain rfl := Option.some.inj hs'
    exact h.setParty_of_conn_none hp rfl rfl
  | lost p =>
    refine h.onParty fun party s' hp hs' => ?_
    split_ifs at hs'
    obtain rfl := Option.some.inj hs'
    exact h.setParty_of_conn_none hp rfl rfl
  | close p =>
    refine h.onParty fun party s' hp hs' => ?_
    obtain rfl := Option.some.inj hs'
    exact h.setParty hp rfl (h.session p party · hp) (h.authenticated p party · hp)

end NetworkInv

namespace Network

variable {box : NaclBox} {s : Network}

/-- A frame that the `a`-th connection is about to look up is queued to the `i`-th one. Other steps
may come between the lookup and the queueing, and there must be room when it comes to that. -/
def Reaches (box : NaclBox) (s : Network) (a i : ℕ) (f : OutFrame) : Prop :=
  ∀ post : List NetworkOp, .serve (.enqueue a) ∉ post → ∀ c,
    (run (step box) (s.step box (.serve (.lookup a))) post).srv.serving i = some c →
    c.sendq.length < sendqCap →
    ∃ c', ((run (step box) (s.step box (.serve (.lookup a))) post).step box
        (.serve (.enqueue a))).srv.serving i = some c' ∧ c'.sendq = c.sendq ++ [f]

theorem srv_onParty {p : ℕ} {f : Party → Option Network}
    (hf : ∀ party s', f party = some s' → s'.srv = s.srv) : (s.onParty p f).srv = s.srv := by
  rw [onParty]
  split
  · next party _ =>
    cases hs' : f party with
    | none => rfl
    | some s' => exact hf party s' hs'
  · rfl

/-- What a step does to the server. -/
theorem srv_step (box : NaclBox) (s : Network) (op : NetworkOp) : (s.step box op).srv = s.srv ∨
      (∃ op', op = .serve op' ∧ (s.step box op).srv = s.srv.step box op') ∨
      ∃ ephPriv nonce r₁ r₂,
        (s.step box op).srv = s.srv.step box (.accept ephPriv nonce r₁ r₂) := by
  cases op with
  | serve op =>
    rw [step]
    split_ifs
    · exact .inr (.inl ⟨op, rfl, rfl⟩)
    · exact .inl rfl
  | dial p ephPriv nonce r₁ r₂ =>
    rw [step, onParty]
    split
    · split_ifs
      · exact .inr (.inr ⟨ephPriv, nonce, r₁, r₂, rfl⟩)
      · exact .inl rfl
    · exact .inl rfl
  | answer p r₁ r₂ =>
    refine .inl (srv_onParty fun party s' hs' => ?_)
    split at hs'
    · obtain rfl := Option.some.inj hs'
      rw [answer]
      split
      · split_ifs <;> rfl
      · rfl
    · cases hs'
  | ok p =>
    refine .inl (srv_onParty fun party s' hs' => ?_)
    split at hs'
    · split_ifs at hs'
      obtain rfl := Option.some.inj hs'
      rfl
    · cases hs'
  | connect p =>
    refine .inl (srv_onParty fun party s' hs' => ?_)
    split at hs'
    · obtain rfl := Option.some.inj hs'
      rfl
    · cases hs'
  | hangUp p =>
    refine .inl (srv_onParty fun party s' hs' => ?_)
    split_ifs at hs'
    obtain rfl := Option.some.inj hs'
    rfl
  | lost p =>
    refine .inl (srv_onParty fun party s' hs' => ?_)
    split_ifs at hs'
    obtain rfl := Option.some.inj hs'
    rfl
  | close p =>
    refine .inl (srv_onParty fun party s' hs' => ?_)
    obtain rfl := Option.some.inj hs'
    rfl

section Reaches

variable {a i target : ℕ} {key : Bytes32} {payload : List UInt8}

theorem waits_step {op : NetworkOp} (h : s.srv.Waits a key target payload)
    (hop : op ≠ .serve (.enqueue a)) : (s.step box op).srv.Waits a key target payload := by
  rcases s.srv_step box op with
    hsame | ⟨op', rfl, hserve⟩ | ⟨ephPriv, nonce, r₁, r₂, hdial⟩
  · rw [hsame]
    exact h
  · rw [hserve]
    refine h.step ?_
    rintro rfl
    exact hop rfl
  · rw [hdial]
    exact h.step (by simp)

theorem waits_run {post : List NetworkOp} (h : s.srv.Waits a key target payload)
    (hpost : .serve (.enqueue a) ∉ post) :
    (run (step box) s post).srv.Waits a key target payload := by
  refine run_induction_along (P := fun s => s.srv.Waits a key target payload)
    (C := fun _ op => op ≠ NetworkOp.serve (.enqueue a)) h (fun s op hs hop => waits_step hs hop)
    (along_of_forall (fun op hop _ => ?_) s)
  rintro rfl
  exact hpost hop

/-- A frame whose lookup has found the connection. -/
theorem reaches_of_waits (h : (s.step box (.serve (.lookup a))).srv.Waits a key i payload) :
    s.Reaches box a i ⟨frameRecv, key.val ++ payload⟩ := by
  intro post hpost c hc hroom
  exact serving_enqueue box (waits_run h hpost) hc hroom

/-- A frame for a connection that is not registered does not reach it. -/
theorem not_reaches (h : KnownInv s.srv) {c : ServerConn} (hi : s.srv.serving i = some c)
    (hc : c.stage = .register) (hia : i ≠ a) (f : OutFrame) : ¬ s.Reaches box a i f := by
  intro hreach
  have hlookup : (s.step box (.serve (.lookup a))).srv = s.srv.step box (.lookup a) := rfl
  have hi₁ : (s.srv.step box (.lookup a)).serving i = some c := by
    rw [serving_lookup_of_ne hia, hi]
  have hnil : c.sendq = [] := (h.conn i c hi).sendq hc
  obtain ⟨c', hi₂, hsendq⟩ := hreach [] List.not_mem_nil c hi₁ (by simp [hnil, sendqCap])
  have hknown := h.effect (effect_step box s.srv (.lookup a))
  -- whom the lookup has found is registered
  have hsame : ((s.srv.step box (.lookup a)).step box (.enqueue a)).serving i = some c := by
    rw [serving_enqueue_of_ne hia ?_, hi₁]
    rintro ca target payload hca hst rfl
    obtain ⟨t, ht, hr⟩ := (hknown.conn a ca hca).target _ payload hst
    obtain rfl := Option.some.inj (hi₁.symm.trans ht)
    exact hr hc
  obtain rfl := Option.some.inj (hsame.symm.trans hi₂)
  simp [hnil] at hsendq

end Reaches

end Network

/-- A state of the system. -/
def Reachable (box : NaclBox) (s : Network) : Prop :=
  ∃ keys ops, s = run (Network.step box) (.start keys) ops

theorem Reachable.run {box : NaclBox} {s : Network} (h : Reachable box s) (ops : List NetworkOp) :
    Reachable box (run (Network.step box) s ops) := by
  obtain ⟨keys, ops₀, rfl⟩ := h
  exact ⟨keys, ops₀ ++ ops, (run_append _ _ _).symm⟩

theorem networkInv_of_reachable {box : NaclBox} {s : Network} (h : Reachable box s) :
    NetworkInv s := by
  obtain ⟨keys, ops, rfl⟩ := h
  exact run_induction (NetworkInv.start keys) (fun _ op hs => hs.step op) ops

/-- **A frame for a client that is connected reaches it exactly if the connection is registered by
then.** The frame was read on the `a`-th connection and is about to be looked up; the client is
connected by the `i`-th connection, which the server has neither lost nor replaced. -/
theorem connected_reachable {box : NaclBox} {s : Network} (hs : Reachable box s) {a i p : ℕ}
    {c : ServerConn} {party : Party} {payload : List UInt8} (ha : s.srv.serving a = some c)
    (hp : s.parties[p]? = some party) (hc : c.stage = .lookup party.pub payload)
    (hup : party.ConnectedBy i) (hlive : s.srv.Live i) :
    s.Reaches box a i ⟨frameRecv, c.key.val ++ payload⟩ ↔ s.srv.Known i := by
  have hinv := networkInv_of_reachable hs
  obtain ⟨ci, hi, hdone, -, hcleaned⟩ := hlive
  have hconn : party.session.conn = some i := by rw [hup.2]; rfl
  have hkey : ci.key = party.pub := by
    obtain ⟨party', hp', hkey⟩ := hinv.key i p ci (hinv.session p party i hp hconn) hi
    obtain rfl := Option.some.inj (hp.symm.trans hp')
    exact hkey
  constructor
  · intro hreach
    refine ⟨ci, hi, fun hr => ?_⟩
    have hia : i ≠ a := by
      rintro rfl
      obtain rfl := Option.some.inj (ha.symm.trans hi)
      rw [hc] at hr
      cases hr
    exact Network.not_reaches hinv.known hi hr hia _ hreach
  · rintro ⟨ci', hi', hr⟩
    obtain rfl := Option.some.inj (Eq.trans (Eq.symm hi) hi')
    have hconns := hinv.conns.attached i ci hi hr hcleaned hdone
    exact Network.reaches_of_waits (waits_lookup box ha hc (hkey ▸ hconns))

/-! ### A frame that comes before the registration -/

/-- The `p`-th client dials, answers the challenge, reads the OK frame and is up. The server does
not go beyond the handshake. -/
def sampleConnect (p i : ℕ) (b : UInt8) : List NetworkOp :=
  [.dial p (sampleDst 7) sampleNonce .all .all, .answer p .all .all] ++
    (sampleLogin i b).tail.map .serve ++ [.ok p, .connect p]

/-- Two clients. The first one is registered. -/
def sampleNetwork : Network :=
  run (Network.step sampleBox)
    (.start [(sampleDst 1, sampleDst 1), (sampleDst 2, sampleDst 2)])
    (sampleConnect 0 0 1 ++ [.serve (.register 0)] ++ sampleConnect 1 1 2)

/-- The second client is registered, and then a frame for it is read. -/
theorem connected_reachable_registered :
    (run (Network.step sampleBox) sampleNetwork
      [.serve (.register 1), .serve (.read 0 (sampleSend 2 5))]).Reaches sampleBox 0 1
        ⟨frameRecv, (sampleDst 1).val ++ [5]⟩ := by
  have hs : Reachable sampleBox (run (Network.step sampleBox) sampleNetwork
      [.serve (.register 1), .serve (.read 0 (sampleSend 2 5))]) :=
    Reachable.run ⟨_, _, rfl⟩ _
  generalize hrun : run (Network.step sampleBox) sampleNetwork
    [.serve (.register 1), .serve (.read 0 (sampleSend 2 5))] = s at hs ⊢
  obtain ⟨c, ha, hkey, hc⟩ : ∃ c ∈ s.srv.serving 0, c.key = sampleDst 1 ∧
      c.stage = .lookup (sampleDst 2) [5] := by
    rw [← hrun]
    decide +kernel
  obtain ⟨party, hp, hpub, hup⟩ : ∃ party ∈ s.parties[1]?, party.pub = sampleDst 2 ∧
      party.ConnectedBy 1 := by
    rw [← hrun]
    decide +kernel
  have hlive : s.srv.Live 1 := by
    rw [← hrun]
    decide +kernel
  have hknown : ∃ c ∈ s.srv.serving 1, c.stage ≠ .register := by
    rw [← hrun]
    decide +kernel
  rw [← hkey]
  exact (connected_reachable hs ha hp (by rw [hc, hpub]) hup hlive).mpr hknown

/-- **A frame that comes before the registration.** The second client has read the OK frame and is
connected, and a frame for its key is read and looked up before the server registers the
connection. -/
theorem lookup_before_register :
    (∃ party ∈ sampleNetwork.parties[1]?, party.pub = sampleDst 2 ∧ party.ConnectedBy 1) ∧
      sampleNetwork.srv.Live 1 ∧
      ¬ (sampleNetwork.step sampleBox (.serve (.read 0 (sampleSend 2 5)))).Reaches sampleBox 0 1
        ⟨frameRecv, (sampleDst 1).val ++ [5]⟩ := by
  refine ⟨by decide +kernel, by decide +kernel, fun h => ?_⟩
  generalize hs : sampleNetwork.step sampleBox (.serve (.read 0 (sampleSend 2 5))) = s at h
  obtain ⟨c, hc, hnil⟩ : ∃ c ∈ (s.step sampleBox (.serve (.lookup 0))).srv.serving 1,
      c.sendq = [] := by
    rw [← hs]
    decide +kernel
  have hlost : ∀ c ∈ ((s.step sampleBox (.serve (.lookup 0))).step sampleBox
      (.serve (.enqueue 0))).srv.serving 1, c.sendq = [] := by
    rw [← hs]
    decide +kernel
  obtain ⟨c', hc', hsendq⟩ := h [] List.not_mem_nil c hc (by simp [hnil, sendqCap])
  rw [hlost c' hc', hnil] at hsendq
  cases hsendq

end Relay

end OverMesh
