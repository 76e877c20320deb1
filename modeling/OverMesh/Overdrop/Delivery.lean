import OverMesh.Internal.Runs
import OverMesh.Overdrop.Basic

/-!
# Files that arrive, and files that stay

Two properties of an inbox whose requests come one after the other. `Send` asks how much of the file
is staged and sends the rest, and the receiver goes by name and length. So what is delivered is the
file if and only if what is staged is a beginning of it. And a delivered file stays as it is, unless
the name of another transfer makes its path a staged one.

## Main definitions

* `send` — `Send`, with what the network does to it
* `Inbox`, `Inbox.step` — an inbox with the record of its deliveries
* `Unclaimed` — no transfer resumes a delivered file

## Main results

* `send_delivers_iff` — **what `Send` delivers is the file iff what is staged is a beginning of it**
* `kept_run` — **delivered files stay as they are in every run that resumes none of them**
-/

namespace OverMesh

open GoText Runs

namespace Overdrop

/-! ### Sending -/

/-- A number in a query. -/
def decimal (n : ℕ) : String := String.ofList (decString n)

/-- Why `Send` fails, once the file is open. -/
inductive SendError where
  | unreachable
  | offsetQuery (e : DropError)
  | interrupted
  | rejected (e : DropError)
  deriving DecidableEq

/-- The text of an error. `cause` is the error of the HTTP client, `status` the status line and `os`
a text of the operating system. -/
def SendError.message (cause os : String) (status : ℕ → String) : SendError → String
  | .unreachable => s!"receiver unreachable (is the peer online and overdrop enabled?): {cause}"
  | .offsetQuery e => s!"offset query failed: {status e.status}"
  | .interrupted => s!"transfer interrupted (rerun to resume): {cause}"
  | .rejected e => s!"receiver rejected the file: {status e.status}: {e.message os}"

/-- What the network does to the two requests of `Send`: whether the first one is answered, how many
bytes of the body arrive and whether the body ends with an error, and whether the second one is
answered. -/
structure Network where
  reached : Bool
  arrived : ℕ
  broken : Bool
  answered : Bool

/-- The `PUT` request of `Send`, as it comes in. The name is what the receiver reads from the
query. -/
def sendRequest (peer name : String) (file : List UInt8) (offset : ℕ) (net : Network) :
    PutRequest where
  peer := peer
  name := name
  size := decimal file.length
  offset := decimal offset
  body := (file.drop offset).take net.arrived
  bodyErr := net.broken

/-- Where `Send` goes on. -/
def resumeAt (offset size : ℕ) : ℕ := if offset > size then 0 else offset

/-- `Send` of a file, to a receiver that is `s₀` when it answers the first request and `s₁` when it
gets the second one. The path is where the receiver puts the file. -/
def send (s₀ s₁ : Server) (peer name : String) (file : List UInt8) (net : Network) (flt : Faults) :
    Except SendError Path × Server :=
  if ¬ net.reached then (.error .unreachable, s₁)
  else match s₀.handleOffset peer name (decimal file.length) with
    | .error e => (.error (.offsetQuery e), s₁)
    | .ok offset =>
      match s₁.handlePut (sendRequest peer name file (resumeAt offset file.length) net) flt with
      | (.error e, s) => (.error (if net.answered then .rejected e else .interrupted), s)
      | (.ok dst, s) => (if net.answered then .ok dst else .error .interrupted, s)

/-- What is staged for a file of this name and length. -/
def Server.stagedFor (s : Server) (peer name : String) (size : ℕ) : List UInt8 :=
  match params name (decimal size) with
  | .error _ => []
  | .ok (name, size) => staged s.disk ⟨peer, partName name size⟩

theorem resumeAt_le (offset size : ℕ) : resumeAt offset size ≤ size := by
  rw [resumeAt]
  split_ifs
  · exact Nat.zero_le _
  · omega

theorem parseInt_decimal {n : ℕ} {m : ℤ} (h : parseInt 64 (decimal n).toList = some m) : m = n := by
  rw [decimal, String.toList_ofList, parseInt_decString] at h
  split_ifs at h
  exact (Option.some.inj h).symm

/-- The size that `params` reads is the one that was written. -/
theorem params_decimal {name name' : String} {n m : ℕ}
    (h : params name (decimal n) = .ok (name', m)) : m = n := by
  simp only [params] at h
  split_ifs at h
  split at h
  · cases h
  · next k hk =>
    split_ifs at h
    obtain ⟨-, rfl⟩ := Prod.mk.inj (Except.ok.inj h)
    rw [parseInt_decimal hk, Int.toNat_natCast]

theorem stagedFor_eq {s : Server} {peer name name' : String} {size size' : ℕ}
    (h : params name (decimal size) = .ok (name', size')) :
    s.stagedFor peer name size = staged s.disk ⟨peer, partName name' size'⟩ := by
  rw [Server.stagedFor, h]

/-- A file that was put together is the one that was sent if it starts like it. -/
theorem append_drop_eq_iff {α : Type*} {l file : List α} :
    l ++ file.drop l.length = file ↔ l <+: file := by
  constructor
  · intro h
    exact ⟨_, h⟩
  · rintro ⟨rest, rfl⟩
    rw [List.drop_left]

/-- A `Send` that completes has made its second request with success. -/
theorem send_ok {s₀ s₁ s₂ : Server} {peer name : String} {file : List UInt8} {net : Network}
    {flt : Faults} {dst : Path} (h : send s₀ s₁ peer name file net flt = (.ok dst, s₂)) :
    ∃ off ≤ file.length,
      s₁.handlePut (sendRequest peer name file off net) flt = (.ok dst, s₂) := by
  rw [send] at h
  split at h
  · cases h
  · split at h
    · cases h
    · next offset _ =>
      refine ⟨resumeAt offset file.length, resumeAt_le _ _, ?_⟩
      split at h
      · cases h
      · next dst' s hput =>
        split_ifs at h
        · obtain ⟨hdst, rfl⟩ := Prod.mk.inj h
          obtain rfl := Except.ok.inj hdst
          exact hput
        · cases h

/-- The transfer that `Send` asks for. -/
theorem parse_sendRequest {peer name : String} {file : List UInt8} {off : ℕ} {net : Network}
    {t : Transfer} (h : (sendRequest peer name file off net).parse = .ok t) (s : Server) :
    t.size = file.length ∧ t.offset = off ∧ t.body = (file.drop off).take net.arrived ∧
      s.stagedFor peer name file.length = staged s.disk t.part := by
  obtain ⟨hsender, hparams, hoffset, hbody, -⟩ := parse_ok h
  refine ⟨params_decimal hparams, ?_, hbody, ?_⟩
  · have := parseInt_decimal hoffset
    omega
  · refine (stagedFor_eq hparams).trans ?_
    rw [Transfer.part, hsender]
    rfl

/-- **What `Send` delivers is the file if and only if what is staged for it is a beginning of it.**
The receiver goes by the name and the length, whatever file was sent under them before. -/
theorem send_delivers_iff {s₀ s₁ s₂ : Server} {peer name : String} {file : List UInt8}
    {net : Network} {flt : Faults} {dst : Path}
    (h : send s₀ s₁ peer name file net flt = (.ok dst, s₂)) :
    s₂.disk.read dst = some file ↔ s₁.stagedFor peer name file.length <+: file := by
  obtain ⟨off, hle, hput⟩ := send_ok h
  obtain ⟨t, hparse, hres⟩ := handlePut_ok hput
  obtain ⟨hsize, hoff, hbody, hstaged⟩ := parse_sendRequest hparse s₁
  cases hres with
  | delivered hlen hsum hdst hne hfree hread =>
    -- the whole rest of the file has arrived
    have hrest : t.body = file.drop t.offset := by
      have hlen' := congrArg List.length hbody
      rw [hbody, hoff]
      refine List.take_of_length_le ?_
      rw [List.length_take, List.length_drop] at hlen'
      rw [List.length_drop]
      omega
    rw [hread, if_pos rfl, hrest, ← hlen, Option.some.injEq, append_drop_eq_iff, hstaged]

/-! ### Two files of one name and length -/

/-- Everything works. -/
def noFaults : Faults := ⟨false, false, false, false, none, false, false, false⟩

/-- A network on which `n` bytes arrive. -/
def arriving (n : ℕ) : Network := ⟨true, n, false, true⟩

/-- An empty inbox. -/
def emptyServer : Server := ⟨.empty, fun _ => false⟩

/-- The inbox after the first `n` bytes of a file `x` have arrived. -/
def interruptedAt (file : List UInt8) (n : ℕ) : Server :=
  (send emptyServer emptyServer "a" "x" file ⟨true, n, true, true⟩ noFaults).2

/-- An interrupted transfer is taken up again. -/
theorem send_resumed :
    (send (interruptedAt [1, 2, 3, 4] 2) (interruptedAt [1, 2, 3, 4] 2) "a" "x" [1, 2, 3, 4]
      (arriving 4) noFaults).2.disk.read ⟨"a", "x"⟩ = some [1, 2, 3, 4] := by
  have hok : (send (interruptedAt [1, 2, 3, 4] 2) (interruptedAt [1, 2, 3, 4] 2) "a" "x"
      [1, 2, 3, 4] (arriving 4) noFaults).1 = .ok ⟨"a", "x"⟩ := by decide +kernel
  exact (send_delivers_iff (Prod.ext hok rfl)).mpr (by decide +kernel)

/-- **The beginning of one file and the end of another** are delivered as the second one. -/
theorem send_mixed :
    (send (interruptedAt [1, 2, 3, 4] 2) (interruptedAt [1, 2, 3, 4] 2) "a" "x" [9, 9, 9, 9]
        (arriving 4) noFaults).1 = .ok ⟨"a", "x"⟩ ∧
      (send (interruptedAt [1, 2, 3, 4] 2) (interruptedAt [1, 2, 3, 4] 2) "a" "x" [9, 9, 9, 9]
        (arriving 4) noFaults).2.disk.read ⟨"a", "x"⟩ = some [1, 2, 9, 9] := by
  decide +kernel

/-! ### Runs of an inbox -/

/-- The receiver, with the paths and the contents of the files it has delivered. -/
structure Inbox where
  server : Server
  delivered : List (Path × List UInt8)

/-- The requests. -/
inductive InboxOp where
  | offset (peer name size : String)
  | put (req : PutRequest) (flt : Faults)

/-- One request. -/
def Inbox.step (b : Inbox) : InboxOp → Inbox
  | .offset _ _ _ => b
  | .put req flt =>
    { server := (b.server.handlePut req flt).2
      delivered := match (b.server.handlePut req flt).1 with
        | .ok dst => (dst, staged (b.server.handlePut req flt).2.disk dst) :: b.delivered
        | .error _ => b.delivered }

/-- The transfer does not go on with a delivered file: none is at its staged path with the length it
goes on from. -/
def Unclaimed (b : Inbox) : InboxOp → Prop
  | .offset _ _ _ => True
  | .put req _ => ∀ t ∈ req.parse.toOption, ∀ f ∈ b.delivered, f.1 = t.part →
    f.2.length ≠ t.offset

instance (b : Inbox) (op : InboxOp) : Decidable (Unclaimed b op) := by
  cases op <;> unfold Unclaimed <;> infer_instance

/-- The delivered files are where they were put, with the contents they had. -/
def Inbox.Kept (b : Inbox) : Prop := ∀ f ∈ b.delivered, b.server.disk.read f.1 = some f.2

instance (b : Inbox) : Decidable b.Kept := inferInstanceAs (Decidable (∀ _ ∈ _, _))

namespace PutResult

variable {t : Transfer} {d : Disk Path} {r : Except DropError Path × Disk Path} {p : Path}
  {bs : List UInt8}

/-- A file that the transfer does not go on with is left alone. -/
theorem read_eq (h : PutResult t d r) (hp : d.read p = some bs)
    (hother : p = t.part → bs.length ≠ t.offset) : r.2.read p = some bs := by
  have hstaged : p = t.part → staged d t.part = bs := by
    rintro rfl
    rw [staged, hp, Option.getD_some]
  have hcontra : (staged d t.part).length = t.offset → p ≠ t.part := by
    rintro hlen rfl
    rw [hstaged rfl] at hlen
    exact hother rfl hlen
  cases h with
  | unopened => exact hp
  | refused hread =>
    rw [hread]
    split_ifs with hpart
    · rw [hstaged hpart]
    · exact hp
  | kept hlen _ hread =>
    rw [hread, if_neg (hcontra hlen)]
    exact hp
  | removed hlen hread =>
    rw [hread, if_neg (hcontra hlen)]
    exact hp
  | @delivered dst _ _ hlen _ _ _ hfree hread =>
    have hdst : p ≠ dst := by
      rintro rfl
      rw [hfree] at hp
      cases hp
    rw [hread, if_neg hdst, if_neg (hcontra hlen)]
    exact hp

end PutResult

theorem kept_step (b : Inbox) (op : InboxOp) (h : b.Kept) (hop : Unclaimed b op) :
    (b.step op).Kept := by
  cases op with
  | offset peer name size => exact h
  | put req flt =>
    rcases handlePut_cases b.server req flt with ⟨e, hput⟩ | ⟨t, hparse, -, hput⟩
    · simp only [Inbox.step, hput]
      exact h
    · have hres := t.put_cases b.server.disk flt
      have hold : ∀ f ∈ b.delivered, (t.put b.server.disk flt).2.read f.1 = some f.2 := by
        intro f hf
        refine hres.read_eq (h f hf) ?_
        exact hop t (by rw [hparse]; rfl) f hf
      simp only [Inbox.step, hput]
      rcases hp : t.put b.server.disk flt with ⟨r, d⟩
      rw [hp] at hres hold
      cases hres with
      | delivered hlen hsum hdst hne hfree hread =>
        rintro f (_ | ⟨_, hf⟩)
        · simp only [staged]
          rw [hread, if_pos rfl, Option.getD_some]
        · exact hold f hf
      | _ => exact hold

/-- **Delivered files stay as they are**, in every run in which no transfer goes on with one of
them. -/
theorem kept_run (s : Server) {ops : List InboxOp}
    (h : Along Inbox.step Unclaimed ⟨s, []⟩ ops) :
    (run Inbox.step ⟨s, []⟩ ops).Kept :=
  run_induction_along (by simp [Inbox.Kept]) kept_step h

/-- A request to put `body` from `offset` on. -/
def samplePut (name : String) (size offset : ℕ) (body : List UInt8) : InboxOp :=
  .put ⟨"a", name, decimal size, decimal offset, body, false⟩ noFaults

/-- The same name twice, with a file that looks like a staged one between them. -/
theorem kept_same_name :
    (run Inbox.step ⟨emptyServer, []⟩
      [samplePut "x" 2 0 [1, 2], samplePut "x.2.part" 1 0 [3], samplePut "x" 2 0 [4, 5]]).Kept :=
  kept_run _ (by decide +kernel)

/-- **A delivered file is taken for a staged one.** A file called `x.5.part` of three bytes is
delivered, and a file `x` of five bytes goes on with it. -/
theorem delivered_file_resumed :
    ¬ (run Inbox.step ⟨emptyServer, []⟩
      [samplePut "x.5.part" 3 0 [1, 2, 3], samplePut "x" 5 3 [4, 5]]).Kept := by
  decide +kernel

end Overdrop

end OverMesh
