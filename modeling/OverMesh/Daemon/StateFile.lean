import OverMesh.Daemon.Status
import OverMesh.Internal.FieldText
import OverMesh.Internal.Runs
import OverMesh.Key

/-!
# The identity of a device on disk

The node agent keeps its keys and its last session in one file. `Save` writes a second file and
renames it, so that the first one is never seen half written. The mobile core has a file for the
keys only, writes it once, and writes it in place.

A process may be killed at any time, in the middle of a write or between any two calls, and a write
or a rename may fail. What is written is then a beginning of the text, of any length. That the
machine loses power, so that a rename is kept and the bytes are not, is not considered.

The JSON text of a state is a parameter: a text is read back, and a beginning of one is not a text.
Texts of fields are texts in this sense, which are used where one is needed.

## Main definitions

* `Host.step` — starts, saves and the end of a process
* `MobileStart.load` — a start of the mobile core

## Main results

* `identity_run` — **a device keeps its identity**: the file is always the whole text of the state
  that was renamed last, and its machine key never changes
* `mobile_start_iff` — the mobile core starts just when its first write was not cut off, and then
  always with the same keys
-/

namespace OverMesh

open Key GoText Runs

/-! ### Keys -/

/-- `Hex` of a private key. -/
def privHex (k : Bytes32) : String := String.ofList (hexEncode k.val)

/-- `privFromHex`. -/
def privFromHex (s : String) : Option Bytes32 :=
  (hexDecode s.toList).bind fun raw => if h : raw.length = 32 then some ⟨raw, h⟩ else none

theorem privFromHex_privHex (k : Bytes32) : privFromHex (privHex k) = some k := by
  rw [privFromHex, privHex, String.toList_ofList, hexDecode_hexEncode, Option.bind_some,
    dif_pos k.property]
  rfl

theorem isSome_privFromHex (k : Bytes32) : (privFromHex (privHex k)).isSome = true := by
  rw [privFromHex_privHex]
  rfl

/-! ### The state of the node agent -/

/-- `State`, as it is in the file. -/
structure StateFile where
  machinePrivateHex : String
  nodePrivateHex : String
  state : State
  nodeKeyRotatedAt : ℤ
  deriving DecidableEq

/-- The keys of the file are keys. -/
def StateFile.Keyed (st : StateFile) : Prop :=
  (privFromHex st.machinePrivateHex).isSome = true ∧ (privFromHex st.nodePrivateHex).isSome = true

/-- The text of a value. -/
structure JsonText (α : Type) where
  marshal : α → List UInt8
  unmarshal : List UInt8 → Option α
  unmarshal_marshal : ∀ x, unmarshal (marshal x) = some x
  unmarshal_take : ∀ x n, n < (marshal x).length → unmarshal ((marshal x).take n) = none

/-- The text of a value whose fields are written one after the other. -/
def JsonText.ofFields {α : Type} (fields : α → List String) (read : List String → Option α)
    (h : ∀ x, read (fields x) = some x) : JsonText α where
  marshal x := FieldText.write (fields x)
  unmarshal data := (FieldText.read [] data).bind read
  unmarshal_marshal x := by rw [FieldText.read_write, Option.bind_some, h]
  unmarshal_take x n hn := by rw [FieldText.read_take _ hn, Option.bind_none]

namespace StateFile

/-- The fields of a state, with the routes at the end. -/
def fields (st : StateFile) : List String :=
  [st.machinePrivateHex, st.nodePrivateHex, st.state.server, toString st.state.desiredUp,
    toString st.state.useTLS, st.state.exitNode, .ofList (decString st.nodeKeyRotatedAt.toNat),
    .ofList (decString (-st.nodeKeyRotatedAt).toNat)] ++ st.state.advertiseRoutes

def ofFields : List String → Option StateFile
  | machine :: node :: server :: up :: tls :: exit :: after :: before :: routes =>
    (digitsVal? 0 after.toList).bind fun a => (digitsVal? 0 before.toList).map fun (b : ℕ) =>
      ⟨machine, node, ⟨server, up = toString true, tls = toString true, routes, exit⟩, (a - b : ℤ)⟩
  | _ => none

theorem ofFields_fields (st : StateFile) : ofFields st.fields = some st := by
  have hbool : ∀ b : Bool, decide (toString b = toString true) = b := by decide
  obtain ⟨machine, node, ⟨server, up, tls, routes, exit⟩, rotated⟩ := st
  simp only [fields, List.cons_append, List.nil_append, ofFields, String.toList_ofList,
    digitsVal?_decString, Option.bind_some, Option.map_some, hbool, Int.toNat_sub_toNat_neg]

/-- A text of states. -/
def fieldText : JsonText StateFile := .ofFields fields ofFields ofFields_fields

end StateFile

/-- How a call of `Save` ends. -/
inductive SaveEnd where
  /-- An error before the rename, with so many bytes in the second file if it was opened. -/
  | fails (written : Option ℕ)
  /-- The process is killed before the rename. -/
  | killed (written : Option ℕ)
  /-- The process is killed right after the rename. -/
  | killedAfter
  | done
  deriving DecidableEq

namespace SaveEnd

/-- The rename has happened. -/
def renames : SaveEnd → Bool
  | .killedAfter | .done => true
  | .fails _ | .killed _ => false

/-- The process is still there. -/
def survives : SaveEnd → Bool
  | .fails _ | .done => true
  | .killed _ | .killedAfter => false

/-- What has been written of the second file, without a rename. -/
def written : SaveEnd → Option ℕ
  | .fails n | .killed n => n
  | .killedAfter | .done => none

end SaveEnd

/-- The directory. -/
structure StateDir where
  file : Option (List UInt8)
  tmp : Option (List UInt8)

/-- `Save`. -/
def StateDir.save (dir : StateDir) (data : List UInt8) (e : SaveEnd) : StateDir :=
  if e.renames then ⟨some data, none⟩
  else match e.written with
    | none => dir
    | some n => { dir with tmp := some (data.take n) }

/-- Why a start fails. -/
inductive LoadError where
  | corrupt
  | machineKey
  | nodeKey
  | save
  deriving DecidableEq

/-- What `LoadOrCreateState` finds in the file, or makes up, before it saves it. -/
def loadState (json : JsonText StateFile) (dir : StateDir) (mkey nkey : Bytes32) :
    Except LoadError StateFile :=
  let st := match dir.file with
    | some data => json.unmarshal data
    | none => some ⟨privHex mkey, privHex nkey, ⟨"", false, false, [], ""⟩, 0⟩
  match st with
  | none => .error .corrupt
  | some st =>
    if (privFromHex st.machinePrivateHex).isNone then .error .machineKey
    else if (privFromHex st.nodePrivateHex).isNone then .error .nodeKey
    else .ok st

/-- A device: its directory, and the state of the process if it runs. `renamed` has the states that
were saved up to the rename, in order. -/
structure Host where
  dir : StateDir
  mem : Option StateFile
  renamed : List StateFile

/-- What happens on a device. -/
inductive HostOp where
  /-- The process is started; `mkey` and `nkey` are the keys it makes if there is no file. -/
  | start (mkey nkey : Bytes32) (e : SaveEnd)
  /-- `Up`, `Down` and `SetExitNode` change the session and save. -/
  | change (f : State → State) (e : SaveEnd)
  /-- `RotateNodeKey` changes the node key and saves. -/
  | rotate (nkey : Bytes32) (now : ℤ) (e : SaveEnd)
  /-- The process ends between two calls. -/
  | stop

namespace Host

variable (json : JsonText StateFile)

/-- `Save` of a state by the process. -/
def save (h : Host) (st : StateFile) (e : SaveEnd) : Host where
  dir := h.dir.save (json.marshal st) e
  mem := if e.survives then some st else none
  renamed := if e.renames then h.renamed ++ [st] else h.renamed

/-- `LoadOrCreateState` of a new process. It ends if there is an error. -/
def load (h : Host) (mkey nkey : Bytes32) (e : SaveEnd) : Except LoadError Unit × Host :=
  match loadState json h.dir mkey nkey with
  | .error err => (.error err, h)
  | .ok st =>
    if e = .done then (.ok (), h.save json st e)
    else (.error .save, { h.save json st e with mem := none })

/-- One step. Without a process there is nothing to change, and there is only one. -/
def step (h : Host) : HostOp → Host
  | .start mkey nkey e => if h.mem.isSome then h else (h.load json mkey nkey e).2
  | .change f e => match h.mem with
    | none => h
    | some st => h.save json { st with state := f st.state } e
  | .rotate nkey now e => match h.mem with
    | none => h
    | some st => h.save json { st with nodePrivateHex := privHex nkey, nodeKeyRotatedAt := now } e
  | .stop => { h with mem := none }

/-- A directory without a state. There may be a second file, left over. -/
def fresh (tmp : Option (List UInt8)) : Host := ⟨⟨none, tmp⟩, none, []⟩

/-- The file is the text of the state that was renamed last. All of them have keys, and one machine
key. -/
structure OnDisk (h : Host) : Prop where
  file : h.dir.file = h.renamed.getLast?.map json.marshal
  keyed : ∀ st ∈ h.renamed, st.Keyed
  machine : ∀ st ∈ h.renamed, ∀ st' ∈ h.renamed, st.machinePrivateHex = st'.machinePrivateHex

/-- What holds between the steps: a process that runs has the machine key of the file. -/
structure Inv (h : Host) : Prop extends OnDisk json h where
  mem : ∀ st, h.mem = some st → st.Keyed ∧
    ∃ st' ∈ h.renamed, st'.machinePrivateHex = st.machinePrivateHex

variable {json} {h : Host}

/-- The state that a start finds or makes. -/
theorem OnDisk.loadState_eq (hdisk : h.OnDisk json) (mkey nkey : Bytes32) :
    ∃ st, loadState json h.dir mkey nkey = .ok st ∧ st.Keyed ∧
      ∀ st' ∈ h.renamed.getLast?, st = st' := by
  have hkeyed : ∀ st : StateFile, st.Keyed →
      (if (privFromHex st.machinePrivateHex).isNone then Except.error LoadError.machineKey
        else if (privFromHex st.nodePrivateHex).isNone then .error .nodeKey else .ok st) =
          .ok st := by
    rintro st ⟨hm, hn⟩
    rw [if_neg (by simpa [Option.isSome_iff_ne_none] using hm),
      if_neg (by simpa [Option.isSome_iff_ne_none] using hn)]
  rw [loadState, hdisk.file]
  cases hlast : h.renamed.getLast? with
  | none =>
    have hnew : StateFile.Keyed ⟨privHex mkey, privHex nkey, ⟨"", false, false, [], ""⟩, 0⟩ :=
      ⟨isSome_privFromHex mkey, isSome_privFromHex nkey⟩
    exact ⟨_, hkeyed _ hnew, hnew, by simp⟩
  | some st =>
    have hst := hdisk.keyed st (List.mem_of_getLast? hlast)
    simp only [Option.map_some, json.unmarshal_marshal]
    exact ⟨st, hkeyed st hst, hst, by simp⟩

/-- A save replaces the file by the text of the state, or leaves it alone. -/
theorem file_save (dir : StateDir) (data : List UInt8) (e : SaveEnd) :
    (dir.save data e).file = if e.renames then some data else dir.file := by
  rw [StateDir.save]
  split_ifs
  · rfl
  · split <;> rfl

/-- Saving a state with keys, and with the machine key of the ones before. -/
theorem OnDisk.save (hdisk : h.OnDisk json) {st : StateFile} (hst : st.Keyed)
    (hmachine : ∀ st' ∈ h.renamed, st'.machinePrivateHex = st.machinePrivateHex) (e : SaveEnd) :
    (h.save json st e).OnDisk json := by
  by_cases hren : e.renames = true
  · have hrenamed : (h.save json st e).renamed = h.renamed ++ [st] := if_pos hren
    have hall : ∀ st' ∈ h.renamed ++ [st],
        st'.Keyed ∧ st'.machinePrivateHex = st.machinePrivateHex := by
      intro st' hst'
      rcases List.mem_append.mp hst' with hold | hnew
      · exact ⟨hdisk.keyed st' hold, hmachine st' hold⟩
      · rw [List.mem_singleton.mp hnew]
        exact ⟨hst, rfl⟩
    refine ⟨?_, ?_, ?_⟩
    · rw [hrenamed, List.getLast?_concat]
      exact (file_save _ _ e).trans (if_pos hren)
    · rw [hrenamed]
      exact fun st' hst' => (hall st' hst').1
    · rw [hrenamed]
      exact fun st₁ h₁ st₂ h₂ => (hall st₁ h₁).2.trans (hall st₂ h₂).2.symm
  · have hrenamed : (h.save json st e).renamed = h.renamed := if_neg hren
    refine ⟨?_, ?_, ?_⟩
    · rw [hrenamed, ← hdisk.file]
      exact (file_save _ _ e).trans (if_neg hren)
    · rw [hrenamed]
      exact hdisk.keyed
    · rw [hrenamed]
      exact hdisk.machine

/-- What was renamed before is not forgotten. -/
theorem mem_renamed_save {st st' : StateFile} {e : SaveEnd} (h' : st' ∈ h.renamed) :
    st' ∈ (h.save json st e).renamed := by
  show st' ∈ if e.renames then h.renamed ++ [st] else h.renamed
  split_ifs
  · exact List.mem_append_left _ h'
  · exact h'

/-- A process that runs saves what it has, changed but for the machine key. -/
theorem Inv.save (hinv : h.Inv json) {st st' : StateFile} (hmem : h.mem = some st)
    (hst' : st'.Keyed) (hmachine : st'.machinePrivateHex = st.machinePrivateHex) (e : SaveEnd) :
    (h.save json st' e).Inv json := by
  obtain ⟨-, st₁, hst₁, heq⟩ := hinv.mem st hmem
  have hone : ∀ st₂ ∈ h.renamed, st₂.machinePrivateHex = st'.machinePrivateHex := by
    intro st₂ hst₂
    rw [hmachine, ← heq]
    exact hinv.machine st₂ hst₂ st₁ hst₁
  refine ⟨hinv.toOnDisk.save hst' hone e, fun st₂ hst₂ => ?_⟩
  have hst₂ : (if e.survives then some st' else none) = some st₂ := hst₂
  split_ifs at hst₂
  obtain rfl := Option.some.inj hst₂
  exact ⟨hst', st₁, mem_renamed_save hst₁, hone st₁ hst₁⟩

theorem Inv.load (hinv : h.Inv json) (mkey nkey : Bytes32) (e : SaveEnd) :
    (h.load json mkey nkey e).2.Inv json := by
  obtain ⟨st, hload, hst, hlast⟩ := hinv.loadState_eq mkey nkey
  have hmachine : ∀ st' ∈ h.renamed, st'.machinePrivateHex = st.machinePrivateHex := by
    intro st' hst'
    obtain ⟨st₁, hst₁⟩ := Option.isSome_iff_exists.mp
      (List.getLast?_isSome.mpr (List.ne_nil_of_mem hst'))
    rw [hlast st₁ hst₁]
    exact hinv.machine st' hst' st₁ (List.mem_of_getLast? hst₁)
  have hdisk := hinv.toOnDisk.save hst hmachine e
  rw [Host.load, hload]
  dsimp only
  split_ifs with hdone
  · refine ⟨hdisk, fun st' hmem => ?_⟩
    subst hdone
    obtain rfl : st = st' := Option.some.inj hmem
    exact ⟨hst, st, List.mem_append_right _ (List.mem_singleton_self st), rfl⟩
  · exact ⟨⟨hdisk.file, hdisk.keyed, hdisk.machine⟩, fun _ hmem => by cases hmem⟩

theorem inv_step (h : Host) (o : HostOp) (hinv : h.Inv json) : (h.step json o).Inv json := by
  cases o with
  | start mkey nkey e =>
    rw [step]
    split_ifs
    · exact hinv
    · exact hinv.load mkey nkey e
  | change f e =>
    rw [step]
    split
    · exact hinv
    · next st hmem =>
      have hst : StateFile.Keyed { st with state := f st.state } := (hinv.mem st hmem).1
      exact hinv.save hmem hst rfl e
  | rotate nkey now e =>
    rw [step]
    split
    · exact hinv
    · next st hmem =>
      have hst : StateFile.Keyed
          { st with nodePrivateHex := privHex nkey, nodeKeyRotatedAt := now } :=
        ⟨(hinv.mem st hmem).1.1, isSome_privFromHex nkey⟩
      exact hinv.save hmem hst rfl e
  | stop => exact ⟨⟨hinv.file, hinv.keyed, hinv.machine⟩, fun _ hmem => by cases hmem⟩

theorem inv_fresh (tmp : Option (List UInt8)) : (fresh tmp).Inv json :=
  ⟨⟨rfl, by simp [fresh], by simp [fresh]⟩, fun _ hmem => by cases hmem⟩

end Host

/-- **A device keeps its identity.** Whatever is saved and whenever the process fails to save, is
killed or started again, the file is the whole text of the state that was renamed last, and all
states that ever were in it have one machine key, which is also that of the process. So a start that
finds a file never calls it corrupt, and goes on with the state that was renamed last. -/
theorem identity_run (json : JsonText StateFile) (tmp : Option (List UInt8)) (ops : List HostOp) :
    (run (Host.step json) (.fresh tmp) ops).dir.file =
        (run (Host.step json) (.fresh tmp) ops).renamed.getLast?.map json.marshal ∧
      (∀ st ∈ (run (Host.step json) (.fresh tmp) ops).renamed,
        ∀ st' ∈ (run (Host.step json) (.fresh tmp) ops).renamed,
          st.machinePrivateHex = st'.machinePrivateHex) ∧
      (∀ st, (run (Host.step json) (.fresh tmp) ops).mem = some st →
        ∃ st' ∈ (run (Host.step json) (.fresh tmp) ops).renamed,
          st'.machinePrivateHex = st.machinePrivateHex) ∧
      ∀ mkey nkey, ∃ st, loadState json (run (Host.step json) (.fresh tmp) ops).dir mkey nkey =
          .ok st ∧
        ∀ st' ∈ (run (Host.step json) (.fresh tmp) ops).renamed.getLast?, st = st' := by
  have hinv : (run (Host.step json) (.fresh tmp) ops).Inv json :=
    run_induction (Host.inv_fresh tmp) Host.inv_step ops
  refine ⟨hinv.file, hinv.machine, fun st hmem => (hinv.mem st hmem).2, fun mkey nkey => ?_⟩
  obtain ⟨st, hload, -, hlast⟩ := hinv.loadState_eq mkey nkey
  exact ⟨st, hload, hlast⟩

/-- A key that begins with this byte. -/
def privOf (b : UInt8) : Bytes32 := ⟨b :: List.replicate 31 0, rfl⟩

/-- A device whose change of the node key is killed after five bytes comes back with the keys of its
first start. -/
theorem identity_rotate_killed :
    loadState StateFile.fieldText (run (Host.step StateFile.fieldText) (.fresh none)
        [.start (privOf 1) (privOf 2) .done, .rotate (privOf 3) 7 (.killed (some 5))]).dir
        (privOf 4) (privOf 5) =
      .ok ⟨privHex (privOf 1), privHex (privOf 2), ⟨"", false, false, [], ""⟩, 0⟩ := by
  obtain ⟨st, hload, hlast⟩ := (identity_run StateFile.fieldText none
    [.start (privOf 1) (privOf 2) .done, .rotate (privOf 3) 7 (.killed (some 5))]).2.2.2
      (privOf 4) (privOf 5)
  rw [hload, hlast _ ?_]
  simp [run, Host.step, Host.load, Host.save, Host.fresh, loadState, privFromHex_privHex,
    SaveEnd.survives, SaveEnd.renames]

/-! ### The mobile core -/

/-- `stateFile` of the mobile core. -/
structure MobileFile where
  machinePrivateHex : String
  nodePrivateHex : String
  deriving DecidableEq

namespace MobileFile

def ofFields : List String → Option MobileFile
  | [machine, node] => some ⟨machine, node⟩
  | _ => none

/-- A text of the two keys. -/
def fieldText : JsonText MobileFile :=
  .ofFields (fun sf => [sf.machinePrivateHex, sf.nodePrivateHex]) ofFields fun _ => rfl

end MobileFile

/-- How the only write ends: the file cannot be opened, or so many bytes are written. -/
inductive MobileWrite where
  | refused
  | cut (written : ℕ)
  | done
  deriving DecidableEq

/-- A start, with the keys it makes if there is no file. -/
structure MobileStart where
  mkey : Bytes32
  nkey : Bytes32
  write : MobileWrite

namespace MobileStart

variable (json : JsonText MobileFile)

/-- The text of the new keys. -/
def text (o : MobileStart) : List UInt8 := json.marshal ⟨privHex o.mkey, privHex o.nkey⟩

/-- The keys of a file. -/
def keys (sf : MobileFile) : Except LoadError (Bytes32 × Bytes32) :=
  match privFromHex sf.machinePrivateHex, privFromHex sf.nodePrivateHex with
  | none, _ => .error .machineKey
  | some _, none => .error .nodeKey
  | some m, some n => .ok (m, n)

/-- `loadOrCreateState`. -/
def load (file : Option (List UInt8)) (o : MobileStart) :
    Except LoadError (Bytes32 × Bytes32) × Option (List UInt8) :=
  match file with
  | some data => match json.unmarshal data with
    | none => (.error .corrupt, file)
    | some sf => (keys sf, file)
  | none => match o.write with
    | .refused => (.error .save, none)
    | .cut n => (.error .save, some ((o.text json).take n))
    | .done => (keys ⟨privHex o.mkey, privHex o.nkey⟩, some (o.text json))

/-- What a start leaves behind. -/
def step (file : Option (List UInt8)) (o : MobileStart) : Option (List UInt8) :=
  (o.load json file).2

/-- The write, if there is one, is not cut off. -/
def Uncut (file : Option (List UInt8)) (o : MobileStart) : Prop :=
  file = none → ∀ n, o.write = .cut n → (o.text json).length ≤ n

variable {json}

theorem keys_privHex (m n : Bytes32) : keys ⟨privHex m, privHex n⟩ = .ok (m, n) := by
  rw [keys, privFromHex_privHex, privFromHex_privHex]

/-- A file is never written again. -/
theorem step_some (data : List UInt8) (o : MobileStart) : step json (some data) o = some data := by
  simp only [step, load]
  split <;> rfl

theorem run_some (data : List UInt8) (ops : List MobileStart) :
    run (step json) (some data) ops = some data := by
  induction ops with
  | nil => rfl
  | cons o ops ih => rw [run_cons, step_some, ih]

theorem load_refused {o : MobileStart} (h : o.write = .refused) :
    o.load json none = (.error .save, none) := by
  simp only [load, h]

theorem load_cut {o : MobileStart} {n : ℕ} (h : o.write = .cut n) :
    o.load json none = (.error .save, some ((o.text json).take n)) := by
  simp only [load, h]

theorem load_done {o : MobileStart} (h : o.write = .done) :
    o.load json none = (.ok (o.mkey, o.nkey), some (o.text json)) := by
  simp only [load, h, keys_privHex]

theorem load_text (o o' : MobileStart) :
    (o'.load json (some (o.text json))).1 = .ok (o.mkey, o.nkey) := by
  rw [load]
  simp only [text, json.unmarshal_marshal]
  exact keys_privHex _ _

theorem load_take {o : MobileStart} {n : ℕ} (h : n < (o.text json).length) (o' : MobileStart) :
    (o'.load json (some ((o.text json).take n))).1 = .error .corrupt := by
  rw [load]
  simp only [text, json.unmarshal_take _ n h]

theorem uncut_some (data : List UInt8) (o : MobileStart) : Uncut json (some data) o :=
  fun h => absurd h (Option.some_ne_none data)

theorem along_some (data : List UInt8) (ops : List MobileStart) :
    Along (step json) (Uncut json) (some data) ops := by
  induction ops with
  | nil => trivial
  | cons o ops ih =>
    rw [along_cons, step_some]
    exact ⟨uncut_some data o, ih⟩

/-- A start that succeeds leaves its keys to all the others. -/
theorem load_of_ok {file : Option (List UInt8)} {o : MobileStart} {k : Bytes32 × Bytes32}
    (h : (o.load json file).1 = .ok k) :
    ∃ data, step json file o = some data ∧ ∀ o', (load json (some data) o').1 = .ok k := by
  cases file with
  | some data => exact ⟨data, step_some data o, fun _ => h⟩
  | none =>
    cases hw : o.write with
    | refused =>
      rw [load_refused hw] at h
      cases h
    | cut n =>
      rw [load_cut hw] at h
      cases h
    | done =>
      rw [load_done hw] at h
      refine ⟨o.text json, by rw [step, load_done hw], fun o' => ?_⟩
      exact (load_text o o').trans h

/-- The next start, which is not disturbed, succeeds. -/
def Starts (json : JsonText MobileFile) (file : Option (List UInt8)) : Prop :=
  ∀ mkey nkey, ∃ k, (load json file ⟨mkey, nkey, .done⟩).1 = .ok k

theorem starts_none : Starts json none := by
  intro mkey nkey
  exact ⟨(mkey, nkey), by rw [load_done rfl]⟩

theorem starts_text (o : MobileStart) : Starts json (some (o.text json)) :=
  fun _ _ => ⟨_, load_text o _⟩

theorem not_starts_take {o : MobileStart} {n : ℕ} (h : n < (o.text json).length) :
    ¬ Starts json (some ((o.text json).take n)) := by
  intro hs
  obtain ⟨k, hk⟩ := hs o.mkey o.nkey
  rw [load_take h] at hk
  cases hk

theorem starts_run_iff (ops : List MobileStart) :
    Starts json (run (step json) none ops) ↔ Along (step json) (Uncut json) none ops := by
  induction ops with
  | nil => exact ⟨fun _ => trivial, fun _ => starts_none⟩
  | cons o ops ih =>
    rw [run_cons, along_cons]
    cases hw : o.write with
    | refused =>
      have hun : Uncut json none o := fun _ n hn => by cases hw.symm.trans hn
      rw [show step json none o = none by rw [step, load_refused hw], ih]
      exact (and_iff_right hun).symm
    | done =>
      have hun : Uncut json none o := fun _ n hn => by cases hw.symm.trans hn
      rw [show step json none o = some (o.text json) by rw [step, load_done hw], run_some]
      exact ⟨fun _ => ⟨hun, along_some _ _⟩, fun _ => starts_text o⟩
    | cut n =>
      rw [show step json none o = some ((o.text json).take n) by rw [step, load_cut hw], run_some]
      -- a write that is cut off at its end has written the whole text
      by_cases hn : (o.text json).length ≤ n
      · rw [List.take_of_length_le hn]
        refine ⟨fun _ => ⟨fun _ m hm => ?_, along_some _ _⟩, fun _ => starts_text o⟩
        cases hw.symm.trans hm
        exact hn
      · exact ⟨fun hs => absurd hs (not_starts_take (Nat.lt_of_not_le hn)),
          fun hun => absurd (hun.1 rfl n hw) hn⟩

end MobileStart

/-- The mobile core starts just when its first write was not cut off. A start that succeeds has
fixed the keys of all the later ones, whatever happens to these. -/
theorem mobile_start_iff (json : JsonText MobileFile) (ops : List MobileStart) :
    (MobileStart.Starts json (run (MobileStart.step json) none ops) ↔
      Along (MobileStart.step json) (MobileStart.Uncut json) none ops) ∧
    ∀ p o q k, ops = p ++ o :: q →
      (o.load json (run (MobileStart.step json) none p)).1 = .ok k →
      ∀ o', (MobileStart.load json (run (MobileStart.step json) none ops) o').1 = .ok k := by
  refine ⟨MobileStart.starts_run_iff ops, ?_⟩
  rintro p o q k rfl hk o'
  obtain ⟨data, hdata, hload⟩ := MobileStart.load_of_ok hk
  rw [run_append, run_cons, hdata, MobileStart.run_some]
  exact hload o'

/-- After a first write that leaves an empty file the mobile core does not start any more. -/
theorem mobile_start_empty :
    ¬ MobileStart.Starts MobileFile.fieldText (run (MobileStart.step MobileFile.fieldText) none
      [⟨privOf 1, privOf 2, .cut 0⟩, ⟨privOf 3, privOf 4, .done⟩]) := by
  rw [(mobile_start_iff MobileFile.fieldText _).1, along_cons]
  intro h
  have hlen := h.1 rfl 0 rfl
  exact List.concat_ne_nil _ _ (List.length_eq_zero_iff.mp (Nat.le_zero.mp hlen))

end OverMesh
