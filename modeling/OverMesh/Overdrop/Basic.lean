import OverMesh.Internal.Disk
import OverMesh.Internal.FirstFree
import OverMesh.Internal.GoText

/-!
# OverDrop

The receiver of `internal/overdrop`. A file is staged as `<name>.<size>.part` in the directory of
its sender and renamed to its name once all bytes are there; a name that is taken gets a number.
Staged and finished files share the directory, and the sender chooses the name.

Requests are taken one at a time here. What the operating system may refuse is in `Faults`.

## Main definitions

* `params`, `PutRequest.parse`, `Transfer` — the checks, and a request that passed them
* `Server.handleOffset`, `Server.handlePut`
* `dedupePath`

## Main results

* `read_dedupePath` — the search for a free path ends at one
* `Transfer.put_cases` — what a transfer can do to the inbox
-/

namespace OverMesh

open GoText

namespace Overdrop

/-! ### Paths -/

/-- A path in the inbox: the directory of a sender and a name in it. -/
structure Path where
  sender : String
  name : String
  deriving DecidableEq

/-- `filepath.Base`. -/
def filepathBase (p : List Char) : List Char :=
  if p = [] then ['.']
  else
    let base := (((p.reverse.dropWhile (· = '/')).takeWhile (· ≠ '/'))).reverse
    if base = [] then ['/'] else base

/-- `filepath.Ext` of a name without separators. -/
def filepathExt (base : List Char) : List Char :=
  if '.' ∈ base then '.' :: (base.reverse.takeWhile (· ≠ '.')).reverse else []

/-- The name without its extension. -/
def stem (base : List Char) : List Char := base.take (base.length - (filepathExt base).length)

/-- The `i`-th name `dedupePath` tries: `name.ext`, `name (2).ext`, `name (3).ext` and so on. -/
def candidate (base : String) : ℕ → String
  | 0 => base
  | i + 1 => String.ofList
      (stem base.toList ++ " (".toList ++ decString (i + 2) ++ ")".toList ++
        filepathExt base.toList)

/-- The name under which a file is staged. -/
def partName (name : String) (size : ℕ) : String :=
  name ++ "." ++ String.ofList (decString size) ++ ".part"

/-- `dedupePath`. One path more than there are entries is enough, see `read_dedupePath`. -/
def dedupePath (d : Disk Path) (p : Path) : Path :=
  FirstFree.search (fun q => (d.entry q).isSome) (fun i => ⟨p.sender, candidate p.name i⟩)
    d.paths.length 0

/-! ### Requests -/

/-- Why a request is refused. -/
inductive DropError where
  | unknownPeer
  | badName
  | badSize
  | badOffset
  | inProgress
  | os
  /-- The staged file has another length, `-1` if that cannot be found out. -/
  | mismatch (length : ℤ)
  | tooMany
  /-- The body ended with an error. -/
  | broken (got size : ℕ)
  /-- The body ended too early. -/
  | short (got size : ℕ)
  deriving DecidableEq

namespace DropError

/-- The status of the reply. -/
def status : DropError → ℕ
  | .unknownPeer => 403
  | .badName | .badSize | .badOffset | .tooMany | .short _ _ => 400
  | .inProgress | .mismatch _ => 409
  | .os | .broken _ _ => 500

/-- The text of the reply, `os` being that of the operating system. -/
def message (os : String) : DropError → String
  | .unknownPeer => "unknown peer"
  | .badName => "bad name"
  | .badSize => "bad size"
  | .badOffset => "bad offset"
  | .inProgress => "transfer already in progress"
  | .os => os
  | .mismatch n => s!"offset mismatch: have {n}"
  | .tooMany => "more bytes than announced"
  | .broken got size | .short got size => s!"short transfer at {got}/{size}"

end DropError

/-- `params`, of the values of the query. -/
def params (name size : String) : Except DropError (String × ℕ) :=
  let base := filepathBase (trimSpace name.toList)
  if base = [] ∨ base = ['.'] ∨ base = ['.', '.'] ∨ base = ['/'] ∨
      base.any (· ∈ ['/', '\\', '\x00']) then .error .badName
  else match parseInt 64 size.toList with
    | none => .error .badSize
    | some n => if n < 0 then .error .badSize else .ok (String.ofList base, n.toNat)

/-- `sender`, of the name the daemon has for the source address. -/
def sender (peer : String) : Except DropError String :=
  if peer = "" then .error .unknownPeer else .ok peer

/-- A `PUT` request: the name of the peer it comes from, the query, and what the body delivers
before it ends, with or without an error. -/
structure PutRequest where
  peer : String
  name : String
  size : String
  offset : String
  body : List UInt8
  bodyErr : Bool

/-- A request that passed the checks. -/
structure Transfer where
  sender : String
  name : String
  size : ℕ
  offset : ℕ
  body : List UInt8
  bodyErr : Bool
  offset_le : offset ≤ size
  deriving DecidableEq

namespace Transfer

/-- The staged path of `paths`. -/
def part (t : Transfer) : Path := ⟨t.sender, partName t.name t.size⟩

/-- The final path of `paths`. -/
def final (t : Transfer) : Path := ⟨t.sender, t.name⟩

end Transfer

/-- The checks of `handlePut`. -/
def PutRequest.parse (r : PutRequest) : Except DropError Transfer :=
  match sender r.peer with
  | .error e => .error e
  | .ok from_ =>
    match params r.name r.size with
    | .error e => .error e
    | .ok (name, size) =>
      match parseInt 64 r.offset.toList with
      | none => .error .badOffset
      | some offset =>
        if h : offset < 0 ∨ offset > size then .error .badOffset
        else .ok ⟨from_, name, size, offset.toNat, r.body, r.bodyErr, by omega⟩

/-! ### The handlers -/

/-- What the operating system refuses. `writes` is where the writes of the copy fail. -/
structure Faults where
  mkdir : Bool
  openFile : Bool
  stat : Bool
  seek : Bool
  writes : Option ℕ
  remove : Bool
  sync : Bool
  rename : Bool

/-- `Server`. -/
structure Server where
  disk : Disk Path
  busy : Path → Bool

/-- `handleOffset`. -/
def Server.handleOffset (s : Server) (peer name size : String) : Except DropError ℕ :=
  match sender peer with
  | .error e => .error e
  | .ok from_ =>
    match params name size with
    | .error e => .error e
    | .ok (name, size) => .ok (((s.disk.read ⟨from_, partName name size⟩).map List.length).getD 0)

namespace Transfer

/-- How many bytes `io.Copy` writes. -/
def copied (t : Transfer) (flt : Faults) : ℕ :=
  match flt.writes with
  | none => t.body.length
  | some k => min k t.body.length

/-- The end of `handlePut`, once all bytes are there. -/
def deliver (t : Transfer) (d : Disk Path) (flt : Faults) : Except DropError Path × Disk Path :=
  if flt.sync then (.error .os, d)
  else
    let dst := dedupePath d t.final
    match if flt.rename then none else d.rename t.part dst with
    | none => (.error .os, d)
    | some d => (.ok dst, d)

/-- What `handlePut` makes of what `io.Copy` returned: `n` bytes were written and `err` is whether
there was an error. -/
def verdict (t : Transfer) (n : ℕ) (err : Bool) : Option DropError :=
  let got := t.offset + n
  if err ∨ got > t.size then
    if got > t.size then some .tooMany else some (.broken got t.size)
  else if got < t.size then some (.short got t.size)
  else none

/-- A staged file with too many bytes is removed, if that is not refused. Any other one stays for
the next attempt. -/
def discard (t : Transfer) (d : Disk Path) (e : DropError) (fail : Bool) : Disk Path :=
  if e = .tooMany ∧ ¬ fail then d.remove t.part else d

/-- `handlePut` from the end of `io.Copy` on. -/
def settle (t : Transfer) (d : Disk Path) (n : ℕ) (err : Bool) (flt : Faults) :
    Except DropError Path × Disk Path :=
  match t.verdict n err with
  | some e => (.error e, t.discard d e flt.remove)
  | none => t.deliver d flt

/-- `handlePut` from the open file on. -/
def append (t : Transfer) (file : ℕ) (d : Disk Path) (flt : Faults) :
    Except DropError Path × Disk Path :=
  if flt.stat then (.error (.mismatch (-1)), d)
  else if (d.data file).length ≠ t.offset then (.error (.mismatch (d.data file).length), d)
  else if flt.seek then (.error .os, d)
  else
    let n := t.copied flt
    t.settle (d.pwrite file t.offset (t.body.take n)) n (t.bodyErr || n < t.body.length) flt

/-- `handlePut` while the transfer is marked as busy. -/
def put (t : Transfer) (d : Disk Path) (flt : Faults) : Except DropError Path × Disk Path :=
  if flt.mkdir ∨ flt.openFile then (.error .os, d)
  else t.append (d.openFile t.part).1 (d.openFile t.part).2 flt

end Transfer

/-- `handlePut`. The path of the staged file is marked as busy on the way in, and the mark is taken
away on the way out. -/
def Server.handlePut (s : Server) (req : PutRequest) (flt : Faults) :
    Except DropError Path × Server :=
  match req.parse with
  | .error e => (.error e, s)
  | .ok t =>
    if s.busy t.part then (.error .inProgress, s)
    else ((t.put s.disk flt).1, { s with disk := (t.put s.disk flt).2 })

/-! ### Extensions -/

section Names

variable {base e s : List Char}

theorem filepathExt_of_not_mem (h : '.' ∉ base) : filepathExt base = [] := if_neg h

/-- The extension starts at the last dot. -/
theorem filepathExt_append (s : List Char) (h : '.' ∉ e) :
    filepathExt (s ++ '.' :: e) = '.' :: e := by
  have hall : ∀ c ∈ e.reverse, decide (c ≠ '.') = true := by
    intro c hc
    rw [decide_eq_true_iff]
    rintro rfl
    exact h (List.mem_reverse.mp hc)
  rw [filepathExt, if_pos (by simp), List.reverse_append, List.reverse_cons, List.append_assoc,
    List.takeWhile_append_of_pos hall, List.singleton_append, List.takeWhile_cons_of_neg (by simp),
    List.append_nil, List.reverse_reverse]

/-- A name has no dot, or it is split at its last one. -/
theorem ext_cases (base : List Char) : '.' ∉ base ∧ filepathExt base = [] ∧ stem base = base ∨
      ∃ s e, base = s ++ '.' :: e ∧ '.' ∉ e ∧ filepathExt base = '.' :: e ∧ stem base = s := by
  by_cases hdot : '.' ∈ base
  · obtain ⟨e, s, hrev, he⟩ := List.eq_append_cons_of_mem (List.mem_reverse.mpr hdot)
    have hbase : base = s.reverse ++ '.' :: e.reverse := by
      rw [← List.reverse_reverse base, hrev]
      simp
    have he' : '.' ∉ e.reverse := fun h => he (List.mem_reverse.mp h)
    have hext : filepathExt base = '.' :: e.reverse := by
      rw [hbase]
      exact filepathExt_append _ he'
    refine .inr ⟨s.reverse, e.reverse, hbase, he', hext, ?_⟩
    rw [stem, hext, hbase]
    simp
  · have hext := filepathExt_of_not_mem hdot
    exact .inl ⟨hdot, hext, by simp [stem, hext]⟩

theorem stem_append_ext (base : List Char) : stem base ++ filepathExt base = base := by
  rcases ext_cases base with ⟨-, hext, hstem⟩ | ⟨s, e, rfl, -, hext, hstem⟩
  · rw [hext, hstem, List.append_nil]
  · rw [hext, hstem]

/-- The name ends in `.part`. -/
def EndsPart (name : String) : Prop := ".part".toList <:+ name.toList

instance (name : String) : Decidable (EndsPart name) := inferInstanceAs (Decidable (_ <:+ _))

theorem endsPart_iff {name : String} :
    EndsPart name ↔ filepathExt name.toList = ".part".toList := by
  constructor
  · rintro ⟨s, hs⟩
    rw [← hs]
    exact filepathExt_append s (by decide)
  · intro h
    exact ⟨stem name.toList, by rw [← h, stem_append_ext]⟩

theorem endsPart_partName (name : String) (size : ℕ) : EndsPart (partName name size) := by
  rw [EndsPart, partName, String.toList_append]
  exact List.suffix_append _ _

/-- No path `dedupePath` tries looks like that of a staged file, unless the name it is made from
does. -/
theorem not_endsPart_candidate {name : String} (h : ¬ EndsPart name) (i : ℕ) :
    ¬ EndsPart (candidate name i) := by
  cases i with
  | zero => exact h
  | succ i =>
    rcases ext_cases name.toList with ⟨-, hext, -⟩ | ⟨s, e, -, he, hext, -⟩
    · -- the candidate ends in a bracket
      rintro ⟨s, hs⟩
      have hcand : (candidate name (i + 1)).toList =
          (stem name.toList ++ " (".toList ++ decString (i + 2)) ++ [')'] := by
        simp [candidate, hext]
      have hpart : ".part".toList = ".par".toList ++ ['t'] := rfl
      rw [hcand, hpart, ← List.append_assoc] at hs
      have hlast := List.append_inj' hs rfl
      exact absurd hlast.2 (by decide)
    · rw [endsPart_iff, candidate, String.toList_ofList, hext, filepathExt_append _ he, ← hext]
      exact fun hpart => h (endsPart_iff.mpr hpart)

end Names

/-! ### Free paths -/

theorem candidate_injective (base : String) : Function.Injective (candidate base) := by
  have hlist : ∀ k : ℕ, (candidate base (k + 1)).toList = stem base.toList ++
      (" (".toList ++ (decString (k + 2) ++ (")".toList ++ filepathExt base.toList))) := fun k => by
    simp [candidate]
  have hzero : ∀ k : ℕ, candidate base 0 ≠ candidate base (k + 1) := by
    intro k h
    have hlen := congrArg List.length ((congrArg String.toList h).trans (hlist k))
    have hbase := congrArg List.length (stem_append_ext base.toList)
    simp only [candidate, List.length_append] at hlen hbase
    have : " (".toList.length = 2 := rfl
    omega
  intro i j h
  cases i with
  | zero =>
    cases j with
    | zero => rfl
    | succ j => exact absurd h (hzero j)
  | succ i =>
    cases j with
    | zero => exact absurd h.symm (hzero i)
    | succ j =>
      have heq := (hlist i).symm.trans ((congrArg String.toList h).trans (hlist j))
      rw [List.append_cancel_left_eq, List.append_cancel_left_eq, List.append_cancel_right_eq]
        at heq
      have := decString_inj (by omega) (by omega) heq
      omega

/-- **The search for a path ends at a free one.** -/
theorem read_dedupePath (d : Disk Path) (p : Path) : d.read (dedupePath d p) = none := by
  rw [Disk.read_eq_none_iff, dedupePath]
  have hinj : Function.Injective fun i => (⟨p.sender, candidate p.name i⟩ : Path) := by
    intro i j h
    exact candidate_injective p.name (Path.mk.inj h).2
  have hfree := FirstFree.search_free (i := 0) hinj
    (fun q hq => d.entries.mem q (Option.isSome_iff_ne_none.mp hq)) (le_refl d.paths.length)
  simpa using hfree

/-- The path is that of a candidate. -/
theorem dedupePath_eq (d : Disk Path) (p : Path) :
    ∃ i, dedupePath d p = ⟨p.sender, candidate p.name i⟩ := by
  obtain ⟨k, -, heq, -⟩ := FirstFree.search_eq (fun q => (d.entry q).isSome)
    (fun i => (⟨p.sender, candidate p.name i⟩ : Path)) d.paths.length 0
  exact ⟨0 + k, heq⟩

/-! ### What a transfer can do -/

/-- What is staged at a path. -/
def staged (d : Disk Path) (p : Path) : List UInt8 := (d.read p).getD []

theorem data_openFile (d : Disk Path) (p : Path) :
    (d.openFile p).2.data (d.openFile p).1 = staged d p :=
  (d.openFile_spec p).2

/-- Opening a file adds nothing to what is staged. -/
theorem staged_openFile (d : Disk Path) (p q : Path) : staged (d.openFile p).2 q = staged d q := by
  rw [staged, d.read_openFile]
  split_ifs with hq
  · rw [hq]
    rfl
  · rfl

/-- **The ways a transfer can end**, by what is found in the inbox afterwards. -/
inductive PutResult (t : Transfer) (d : Disk Path) : Except DropError Path × Disk Path → Prop
  /-- The staged file could not be opened. -/
  | unopened {e : DropError} : PutResult t d (.error e, d)
  /-- The staged file was opened, and created if there was none. -/
  | refused {e : DropError} {d' : Disk Path}
    (hread : ∀ q, d'.read q = if q = t.part then some (staged d t.part) else d.read q) :
    PutResult t d (.error e, d')
  /-- Bytes were appended to the staged file. -/
  | kept {e : DropError} {d' : Disk Path} {n : ℕ} (hlen : (staged d t.part).length = t.offset)
    (hn : n ≤ t.body.length)
    (hread : ∀ q, d'.read q =
      if q = t.part then some (staged d t.part ++ t.body.take n) else d.read q) :
    PutResult t d (.error e, d')
  /-- There were too many bytes. -/
  | removed {e : DropError} {d' : Disk Path} (hlen : (staged d t.part).length = t.offset)
    (hread : ∀ q, d'.read q = if q = t.part then none else d.read q) :
    PutResult t d (.error e, d')
  /-- All bytes are there, and the file was renamed to a free path. -/
  | delivered {dst : Path} {d' : Disk Path} {i : ℕ} (hlen : (staged d t.part).length = t.offset)
    (hsize : t.offset + t.body.length = t.size) (hdst : dst = ⟨t.sender, candidate t.name i⟩)
    (hne : dst ≠ t.part) (hfree : d.read dst = none)
    (hread : ∀ q, d'.read q = if q = dst then some (staged d t.part ++ t.body)
      else if q = t.part then none else d.read q) :
    PutResult t d (.ok dst, d')

namespace Transfer

variable (t : Transfer) (d : Disk Path) (flt : Faults)

theorem copied_le : t.copied flt ≤ t.body.length := by
  rw [copied]
  split
  · exact le_refl _
  · exact Nat.min_le_right _ _

theorem verdict_eq_none_iff {n : ℕ} {err : Bool} :
    t.verdict n err = none ↔ err = false ∧ t.offset + n = t.size := by
  simp only [verdict]
  split_ifs with hbad hmany hshort
  · simp only [false_iff]
    omega
  · simp only [false_iff]
    rintro ⟨rfl, -⟩
    simp only [Bool.false_eq_true, false_or] at hbad
    omega
  · simp only [false_iff]
    omega
  · simp only [not_or, Bool.not_eq_true] at hbad
    simp only [true_iff]
    exact ⟨hbad.1, by omega⟩

/-- The end of a transfer, after `n` bytes were appended to the staged file. -/
theorem settle_cases {d d₁ : Disk Path} {n : ℕ} {err : Bool}
    (hlen : (staged d t.part).length = t.offset) (hn : n ≤ t.body.length)
    (herr : err = false → n = t.body.length) (hread : ∀ q, d₁.read q =
      if q = t.part then some (staged d t.part ++ t.body.take n) else d.read q) :
    PutResult t d (t.settle d₁ n err flt) := by
  have hkept : ∀ e, PutResult t d (.error e, d₁) := fun e => .kept hlen hn hread
  rw [settle]
  split
  · next e _ =>
    rw [discard]
    split_ifs
    · refine .removed hlen ?_
      intro q
      rw [Disk.read_remove, hread]
      split_ifs <;> rfl
    · exact hkept _
  · -- all bytes are there
    next hnone =>
    obtain ⟨hok, hsize⟩ := (t.verdict_eq_none_iff).mp hnone
    have hall : n = t.body.length := herr hok
    rw [deliver]
    by_cases hsync : flt.sync = true
    · rw [if_pos hsync]
      exact hkept _
    · rw [if_neg hsync]
      have hpart : d₁.read t.part = some (staged d t.part ++ t.body) := by
        rw [hread, if_pos rfl, hall, List.take_length]
      have hfree := read_dedupePath d₁ t.final
      have hne : dedupePath d₁ t.final ≠ t.part := by
        intro he
        rw [he, hpart] at hfree
        cases hfree
      obtain ⟨i, hi⟩ := dedupePath_eq d₁ t.final
      simp only
      cases hren : if flt.rename then none else d₁.rename t.part (dedupePath d₁ t.final) with
      | none => exact hkept _
      | some d₂ =>
        have hren' : d₁.rename t.part (dedupePath d₁ t.final) = some d₂ := by
          split_ifs at hren
          exact hren
        refine .delivered hlen (by omega) hi hne ?_ ?_
        · rwa [hread, if_neg hne] at hfree
        · intro q
          rw [Disk.read_rename hren', hpart]
          split_ifs with hq hq'
          · rfl
          · rfl
          · rw [hread, if_neg hq']

/-- **What a transfer can do to the inbox.** -/
theorem put_cases : PutResult t d (t.put d flt) := by
  rw [put]
  split_ifs
  · exact .unopened
  · obtain ⟨hentry, hdata⟩ := d.openFile_spec t.part
    have hopen := d.read_openFile t.part
    have hrefused : ∀ e, PutResult t d (.error e, (d.openFile t.part).2) := fun e => .refused hopen
    rw [append]
    split_ifs with hstat hmismatch hseek
    · exact hrefused _
    · exact hrefused _
    · exact hrefused _
    · rw [not_not, hdata] at hmismatch
      refine settle_cases t flt hmismatch (t.copied_le flt) ?_ ?_
      · intro herr
        have hle := t.copied_le flt
        simp only [Bool.or_eq_false_iff, decide_eq_false_iff_not] at herr
        omega
      · intro q
        rw [Disk.read_pwrite hentry, hopen, hdata, ← hmismatch]
        split_ifs
        · rw [staged, Disk.splice_length]
        · rfl

end Transfer

/-! ### What a request can do -/

theorem parse_ok {r : PutRequest} {t : Transfer} (h : r.parse = .ok t) :
    t.sender = r.peer ∧ params r.name r.size = .ok (t.name, t.size) ∧
      parseInt 64 r.offset.toList = some (t.offset : ℤ) ∧ t.body = r.body ∧
      t.bodyErr = r.bodyErr := by
  rw [PutRequest.parse] at h
  split at h
  · cases h
  · next from_ hfrom =>
    split at h
    · cases h
    · next name size hparams =>
      split at h
      · cases h
      · next offset hoffset =>
        split_ifs at h with hbad
        obtain rfl := Except.ok.inj h
        have hsender : from_ = r.peer := by
          rw [sender] at hfrom
          split_ifs at hfrom
          exact (Except.ok.inj hfrom).symm
        refine ⟨hsender, hparams, ?_, rfl, rfl⟩
        rw [hoffset, Int.toNat_of_nonneg (by omega)]

/-- A request is refused, or it is a transfer. -/
theorem handlePut_cases (s : Server) (req : PutRequest) (flt : Faults) :
    (∃ e, s.handlePut req flt = (.error e, s)) ∨
      ∃ t, req.parse = .ok t ∧ s.busy t.part = false ∧
        s.handlePut req flt = ((t.put s.disk flt).1, { s with disk := (t.put s.disk flt).2 }) := by
  rw [Server.handlePut]
  cases hparse : req.parse with
  | error e => exact .inl ⟨e, rfl⟩
  | ok t =>
    cases hbusy : s.busy t.part with
    | true => exact .inl ⟨.inProgress, by simp [hbusy]⟩
    | false => exact .inr ⟨t, rfl, hbusy, by simp [hbusy]⟩

/-- A request that is answered with success is a transfer that is delivered. -/
theorem handlePut_ok {s s' : Server} {req : PutRequest} {flt : Faults} {dst : Path}
    (h : s.handlePut req flt = (.ok dst, s')) :
    ∃ t, req.parse = .ok t ∧ PutResult t s.disk (.ok dst, s'.disk) := by
  rcases handlePut_cases s req flt with ⟨e, hput⟩ | ⟨t, hparse, -, hput⟩
  · rw [hput] at h
    cases h
  · obtain ⟨hres, rfl⟩ := Prod.mk.inj (hput.symm.trans h)
    refine ⟨t, hparse, ?_⟩
    have hcases := t.put_cases s.disk flt
    rwa [← Prod.mk.eta (p := t.put s.disk flt), hres] at hcases

end Overdrop

end OverMesh
