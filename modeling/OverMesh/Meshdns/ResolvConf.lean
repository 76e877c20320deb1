import OverMesh.Internal.GoBytes
import OverMesh.Internal.NetipText
import OverMesh.Internal.Words

/-!
# The block in resolv.conf

Where there is no systemd-resolved, `internal/meshdns` writes itself into `/etc/resolv.conf`: a
block between two markers, in front of what was there, with the mesh resolver and a search list. The
block is found again by its markers and taken out before it is written anew, and at the end.

`stripMarkedBlock` looks for the first marker of each kind and does not compare their places. If the
end marker comes first, it copies the text between the two once more in every turn and never ends.

## Main definitions

* `stripMarkedBlock`, `configureResolvConf`, `restoreResolvConf`
* `WellMarked` — the texts whose blocks can be cut out one after the other
* `effectiveSearch` — the search list that counts

## Main results

* `stripMarkedBlock_ends_iff` — **the loop ends exactly on well-marked texts**
* `restoreResolvConf_configured` — **what was there is restored byte for byte**
* `effectiveSearch_configured_iff` — **when the search list that is written is the one that counts**
-/

namespace OverMesh

namespace Meshdns

namespace Linux

open GoBytes Netip

/-- The contents of a file. -/
abbrev Text : Type := List UInt8

def beginMarker : Text := bytes "# BEGIN overmesh dns"

def endMarker : Text := bytes "# END overmesh dns"

/-! ### Taking the block out -/

/-- What one turn of the loop of `stripMarkedBlock` does: it returns, or goes on with another
text. -/
inductive Turn where
  | done (s : Text)
  | again (s : Text)

/-- One turn of the loop. -/
def turn (s : Text) : Turn :=
  match index beginMarker s with
  | none => .done s
  | some start =>
    match index endMarker s with
    | none => .done (s.take start)
    | some stop =>
      let stop := stop + endMarker.length
      let stop := if s[stop]? = some 10 then stop + 1 else stop
      .again (s.take start ++ s.drop stop)

/-- The loop, for at most this many turns. -/
def stripLoop : ℕ → Text → Option Text
  | 0, _ => none
  | fuel + 1, s =>
    match turn s with
    | .done t => some t
    | .again t => stripLoop fuel t

/-- `stripMarkedBlock`, `none` if it never returns. If it returns it does so within this many turns,
see `stripLoop_eq_some_iff`. -/
def stripMarkedBlock (s : Text) : Option Text := stripLoop (s.length + 1) s

/-- The text without a newline at the front. -/
def dropNewline (r : Text) : Text := if r[0]? = some 10 then r.drop 1 else r

/-- **The markers come in order.** There is only one kind of them, or the first marker begins a
block, and this is true of what is left without the block. -/
inductive WellMarked : Text → Prop
  | plain {s : Text} (hbegin : ¬ beginMarker <:+: s) : WellMarked s
  | unclosed {s : Text} (hend : ¬ endMarker <:+: s) : WellMarked s
  | block {p m r : Text} (hbegin : ¬ beginMarker <:+: p)
    (hend : ¬ endMarker <:+: p ++ beginMarker ++ m) (h : WellMarked (p ++ dropNewline r)) :
    WellMarked (p ++ beginMarker ++ m ++ endMarker ++ r)

/-- There is an end marker in front of the first begin marker. -/
def EndFirst (s : Text) : Prop :=
  ∃ x r, s = x ++ endMarker ++ r ∧ ¬ beginMarker <:+: x ∧ beginMarker <:+: r

section Strip

variable {s t p m r : Text} {i j : ℕ}

/-- A marker begins with a `#` and has no other. -/
structure IsMarker (pat : Text) : Prop where
  front : pat = 35 :: pat.tail
  only : 35 ∉ pat.tail

theorem isMarker_begin : IsMarker beginMarker := ⟨by decide, by decide⟩

theorem isMarker_end : IsMarker endMarker := ⟨by decide, by decide⟩

namespace IsMarker

variable {pat pat' : Text}

theorem ne_nil (h : IsMarker pat) : pat ≠ [] := by
  rw [h.front]
  exact List.cons_ne_nil _ _

/-- No marker begins inside of another. -/
theorem apart (h : IsMarker pat) (h' : IsMarker pat') (hi : At pat s i) (hj : At pat' s j)
    (hlt : i < j) : i + pat.length ≤ j := by
  rw [h.front] at hi ⊢
  rw [h'.front] at hj
  exact GoBytes.apart h.only hi hj hlt

/-- A marker that begins before another one ends before it. -/
theorem infix_of_lt (h : IsMarker pat) (h' : IsMarker pat') (hi : At pat (p ++ pat' ++ r) i)
    (hlt : i < p.length) : pat <:+: p := by
  have hin := hi.infix_take (h.apart h' hi (at_append p pat' r) hlt)
  rwa [List.append_assoc, List.take_left] at hin

theorem index_append (h : IsMarker pat) (hp : ¬ pat <:+: p) (r : Text) :
    index pat (p ++ pat ++ r) = some p.length :=
  index_eq_some_iff.mpr
    ⟨at_append p pat r, fun _ hj hbefore => hp (h.infix_of_lt h hbefore hj)⟩

theorem getElem?_of_at (h : IsMarker pat) (hi : At pat s i) : s[i]? = some 35 := by
  obtain ⟨t, ht⟩ := hi
  have hzero : (s.drop i)[0]? = s[i + 0]? := List.getElem?_drop
  rw [← ht, h.front] at hzero
  exact hzero.symm

end IsMarker

/-- The two markers do not stand at one place. -/
theorem not_at_both (hb : At beginMarker s i) (he : At endMarker s i) : False := by
  rcases List.prefix_or_prefix_of_prefix hb he with h | h
  · exact absurd h (by decide)
  · exact absurd h (by decide)

/-- The text before the first place of a pattern does not contain it. -/
theorem not_infix_take_index {pat : Text} (hpat : pat ≠ []) (h : index pat s = some i) :
    ¬ pat <:+: s.take i := by
  intro hin
  obtain ⟨j, hj⟩ := exists_at_iff.mpr hin
  have hj' : At pat s j := by
    rw [At, List.drop_take] at hj
    exact hj.trans ( List.take_prefix _ _)
  have hle := hj.length_le
  have hpos := List.length_pos_iff.mpr hpat
  rw [List.length_drop, List.length_take] at hle
  exact (index_eq_some_iff.mp h).2 j (by omega) hj'

/-! #### One turn -/

theorem turn_plain (h : ¬ beginMarker <:+: s) : turn s = .done s := by
  rw [turn, index_eq_none_iff.mpr h]

theorem turn_unclosed (h : ¬ endMarker <:+: s) : ∃ t, turn s = .done t ∧ ¬ beginMarker <:+: t := by
  cases hbegin : index beginMarker s with
  | none => exact ⟨s, turn_plain (index_eq_none_iff.mp hbegin), index_eq_none_iff.mp hbegin⟩
  | some start =>
    refine ⟨s.take start, ?_, not_infix_take_index isMarker_begin.ne_nil hbegin⟩
    rw [turn, hbegin, index_eq_none_iff.mpr h]

/-- What is after the end of a block. -/
theorem drop_stop (q r : Text) :
    (q ++ r).drop (if (q ++ r)[q.length]? = some 10 then q.length + 1 else q.length) =
      dropNewline r := by
  have hnext : (q ++ r)[q.length]? = r[0]? := by
    rw [List.getElem?_append_right (le_refl _), Nat.sub_self]
  rw [hnext, dropNewline]
  split_ifs
  · rw [← List.drop_drop, List.drop_left]
  · rw [List.drop_left]

/-- The first marker begins a block: it is cut out. -/
theorem turn_block (hbegin : ¬ beginMarker <:+: p) (hend : ¬ endMarker <:+: p ++ beginMarker ++ m)
    (r : Text) : turn (p ++ beginMarker ++ m ++ endMarker ++ r) = .again (p ++ dropNewline r) := by
  have hstart : index beginMarker (p ++ beginMarker ++ m ++ endMarker ++ r) = some p.length := by
    rw [List.append_assoc _ m, List.append_assoc _ (m ++ endMarker)]
    exact isMarker_begin.index_append hbegin _
  have hstop := isMarker_end.index_append hend r
  have hlen : (p ++ beginMarker ++ m ++ endMarker).length =
      (p ++ beginMarker ++ m).length + endMarker.length := List.length_append
  have hdrop := drop_stop (p ++ beginMarker ++ m ++ endMarker) r
  rw [hlen] at hdrop
  simp only [turn, hstart, hstop, hdrop]
  congr 2
  simp only [List.append_assoc, List.take_left]

/-- If the first end marker is in front of all begin markers, they stand behind it. -/
theorem le_of_at_begin (hp : ¬ beginMarker <:+: p) (hi : At beginMarker (p ++ endMarker ++ r) i) :
    p.length + endMarker.length ≤ i := by
  have hend := at_append p endMarker r
  rcases Nat.lt_trichotomy i p.length with hlt | rfl | hgt
  · exact absurd (isMarker_begin.infix_of_lt isMarker_end hi hlt) hp
  · exact (not_at_both hi hend).elim
  · exact isMarker_end.apart isMarker_begin hend hi hgt

/-- The newline that is cut off with an end marker is not where a begin marker stands. -/
theorem stop_le (hi : At beginMarker s i) (hle : j ≤ i) :
    (if s[j]? = some 10 then j + 1 else j) ≤ i := by
  split_ifs with hnewline
  · refine Nat.lt_of_le_of_ne hle ?_
    rintro rfl
    rw [isMarker_begin.getElem?_of_at hi] at hnewline
    cases hnewline
  · exact hle

/-- An end marker in front of the first begin marker stays there. -/
theorem EndFirst.turn (h : EndFirst s) : ∃ t, turn s = .again t ∧ EndFirst t := by
  obtain ⟨x, r, rfl, hx, hr⟩ := h
  have hend := at_append x endMarker r
  obtain ⟨b, hb⟩ := exists_index (hr.trans (List.suffix_append (x ++ endMarker) r).isInfix)
  obtain ⟨e, he⟩ := exists_index (exists_at_iff.mp ⟨_, hend⟩)
  obtain ⟨hbAt, -⟩ := index_eq_some_iff.mp hb
  obtain ⟨-, hefirst⟩ := index_eq_some_iff.mp he
  have hle : e ≤ x.length := by
    by_contra hlt
    exact hefirst x.length (by omega) hend
  have hbehind := le_of_at_begin hx hbAt
  have hstop := stop_le hbAt (by omega : e + endMarker.length ≤ b)
  refine ⟨_, by simp only [Linux.turn, hb, he]; rfl, x,
    r.take (b - (x ++ endMarker).length) ++ (x ++ endMarker ++ r).drop _, ?_, hx,
    (hbAt.infix_drop hstop).trans (List.suffix_append _ _).isInfix⟩
  rw [List.take_append, List.take_of_length_le, List.append_assoc, List.append_assoc]
  rw [List.length_append]
  exact hbehind

/-- **What a text can look like to the loop.** -/
theorem marked_cases (s : Text) : ¬ beginMarker <:+: s ∨ ¬ endMarker <:+: s ∨
      (∃ p m r, s = p ++ beginMarker ++ m ++ endMarker ++ r ∧ ¬ beginMarker <:+: p ∧
        ¬ endMarker <:+: p ++ beginMarker ++ m) ∨ EndFirst s := by
  by_cases hbegin : beginMarker <:+: s
  · by_cases hend : endMarker <:+: s
    · right; right
      obtain ⟨b, hb⟩ := exists_index hbegin
      obtain ⟨e, he⟩ := exists_index hend
      have hbAt := (index_eq_some_iff.mp hb).1
      have heAt := (index_eq_some_iff.mp he).1
      have heSplit := heAt.split
      have hbFree := not_infix_take_index isMarker_begin.ne_nil hb
      have heFree := not_infix_take_index isMarker_end.ne_nil he
      rcases Nat.lt_trichotomy b e with hlt | rfl | hgt
      · left
        obtain ⟨k, hk⟩ := Nat.exists_eq_add_of_le (isMarker_begin.apart isMarker_end hbAt heAt hlt)
        obtain ⟨t, ht⟩ := hbAt
        have htake : s.take e = s.take b ++ beginMarker ++ t.take k := by
          rw [hk, Nat.add_assoc, List.take_add, ← ht, List.take_length_add_append,
            List.append_assoc]
        rw [htake] at heSplit heFree
        exact ⟨s.take b, t.take k, s.drop (e + endMarker.length), heSplit, hbFree, heFree⟩
      · exact (not_at_both hbAt heAt).elim
      · right
        refine ⟨s.take e, s.drop (e + endMarker.length), heSplit, ?_, ?_⟩
        · refine fun hin => hbFree (hin.trans ?_)
          exact (List.take_prefix_take_left (by omega)).isInfix
        · exact hbAt.infix_drop (isMarker_end.apart isMarker_begin heAt hbAt hgt)
    · exact .inr (.inl hend)
  · exact .inl hbegin

/-! #### The loop -/

theorem EndFirst.stripLoop (h : EndFirst s) (fuel : ℕ) : stripLoop fuel s = none := by
  induction fuel generalizing s with
  | zero => rfl
  | succ fuel ih =>
    obtain ⟨t, hturn, ht⟩ := h.turn
    rw [Linux.stripLoop, hturn]
    exact ih ht

theorem length_dropNewline_le (r : Text) : (dropNewline r).length ≤ r.length := by
  rw [dropNewline]
  split_ifs
  · rw [List.length_drop]
    omega
  · exact le_refl _

/-- The loop ends on a well-marked text, after at most as many turns as the text has bytes. -/
theorem WellMarked.stripLoop (h : WellMarked s) :
    ∃ t, ¬ beginMarker <:+: t ∧ ∀ fuel > s.length, stripLoop fuel s = some t := by
  induction h with
  | @plain s hbegin =>
    refine ⟨s, hbegin, fun fuel hfuel => ?_⟩
    obtain ⟨fuel, rfl⟩ := Nat.exists_eq_succ_of_ne_zero (Nat.ne_zero_of_lt hfuel)
    rw [Linux.stripLoop, turn_plain hbegin]
  | @unclosed s hend =>
    obtain ⟨t, hturn, ht⟩ := turn_unclosed hend
    refine ⟨t, ht, fun fuel hfuel => ?_⟩
    obtain ⟨fuel, rfl⟩ := Nat.exists_eq_succ_of_ne_zero (Nat.ne_zero_of_lt hfuel)
    rw [Linux.stripLoop, hturn]
  | @block p m r hbegin hend _ ih =>
    obtain ⟨t, ht, hends⟩ := ih
    refine ⟨t, ht, fun fuel hfuel => ?_⟩
    obtain ⟨fuel, rfl⟩ := Nat.exists_eq_succ_of_ne_zero (Nat.ne_zero_of_lt hfuel)
    have hlen : (p ++ dropNewline r).length < fuel := by
      have hmarker : 0 < endMarker.length := by decide
      have hdrop := length_dropNewline_le r
      simp only [List.length_append] at hfuel ⊢
      omega
    rw [Linux.stripLoop, turn_block hbegin hend]
    exact hends fuel hlen

/-- The loop ends on no other text. -/
theorem wellMarked_of_stripLoop {fuel : ℕ} (h : stripLoop fuel s = some t) : WellMarked s := by
  induction fuel generalizing s with
  | zero => cases h
  | succ fuel ih =>
    rcases marked_cases s with hbegin | hend | ⟨p, m, r, rfl, hbegin, hend⟩ | hfirst
    · exact .plain hbegin
    · exact .unclosed hend
    · rw [stripLoop, turn_block hbegin hend] at h
      exact .block hbegin hend (ih h)
    · rw [hfirst.stripLoop] at h
      cases h

theorem stripLoop_mono {fuel fuel' : ℕ} (h : stripLoop fuel s = some t) (hle : fuel ≤ fuel') :
    stripLoop fuel' s = some t := by
  induction fuel generalizing s fuel' with
  | zero => cases h
  | succ fuel ih =>
    obtain ⟨fuel', rfl⟩ := Nat.exists_eq_succ_of_ne_zero (by omega : fuel' ≠ 0)
    rw [stripLoop] at h ⊢
    cases hturn : turn s with
    | done t' =>
      rw [hturn] at h
      exact h
    | again t' =>
      rw [hturn] at h
      exact ih h (by omega)

/-- **The loop returns what it returns within `s.length + 1` turns**, or it never returns. -/
theorem stripLoop_eq_some_iff :
    (∃ fuel, stripLoop fuel s = some t) ↔ stripMarkedBlock s = some t := by
  refine ⟨?_, fun h => ⟨_, h⟩⟩
  rintro ⟨fuel, h⟩
  obtain ⟨t', -, hends⟩ := (wellMarked_of_stripLoop h).stripLoop
  have ht' := hends (max fuel (s.length + 1)) (by omega)
  rw [stripLoop_mono h (Nat.le_max_left _ _), Option.some.injEq] at ht'
  rw [stripMarkedBlock, hends _ (Nat.lt_succ_self _), ht']

/-- A text without begin marker is left alone. -/
theorem stripMarkedBlock_plain (h : ¬ beginMarker <:+: s) : stripMarkedBlock s = some s := by
  rw [stripMarkedBlock, stripLoop, turn_plain h]

/-- A block at the front is cut out. -/
theorem stripMarkedBlock_block (hm : ¬ endMarker <:+: beginMarker ++ m)
    (hr : ¬ beginMarker <:+: r) :
    stripMarkedBlock (beginMarker ++ m ++ endMarker ++ 10 :: r) = some r := by
  have hnil : ¬ beginMarker <:+: ([] : Text) := by decide
  have hturn : turn (beginMarker ++ m ++ endMarker ++ 10 :: r) = .again r :=
    turn_block (p := []) (m := m) hnil hm (10 :: r)
  refine stripLoop_eq_some_iff.mp ⟨2, ?_⟩
  rw [stripLoop, hturn]
  simp only [stripLoop, turn_plain hr]

end Strip

/-- **When the block can be taken out.** The loop of `stripMarkedBlock` ends, with a text without
begin marker, if and only if the text is well marked. On every other text it never ends. -/
theorem stripMarkedBlock_ends_iff (s : Text) :
    (∃ fuel t, stripLoop fuel s = some t ∧ ¬ beginMarker <:+: t) ↔ WellMarked s := by
  constructor
  · rintro ⟨fuel, t, h, -⟩
    exact wellMarked_of_stripLoop h
  · intro h
    obtain ⟨t, ht, hends⟩ := h.stripLoop
    exact ⟨_, t, hends _ (Nat.lt_succ_self _), ht⟩

/-- The two lines of a block in the wrong order, as an editor may leave them. -/
theorem stripMarkedBlock_hangs :
    ¬ ∃ fuel t, stripLoop fuel (endMarker ++ bytes "\n" ++ beginMarker ++ bytes "\n") = some t ∧
      ¬ beginMarker <:+: t := by
  rintro ⟨fuel, t, h, -⟩
  have hfirst : EndFirst (endMarker ++ bytes "\n" ++ beginMarker ++ bytes "\n") := by
    refine ⟨[], bytes "\n" ++ beginMarker ++ bytes "\n", by simp, by decide, ?_⟩
    exact List.infix_append (bytes "\n") beginMarker (bytes "\n")
  rw [hfirst.stripLoop] at h
  cases h

/-! ### Writing the block -/

/-- The domains of a line of the file, if it is a `search` or a `domain` line. -/
def searchLine (line : Text) : Option (List Text) :=
  match fields line with
  | [] => none
  | f :: ds => if ds ≠ [] ∧ (f = bytes "search" ∨ f = bytes "domain") then some ds else none

/-- The domains of the `search` and `domain` lines, line by line. -/
def searchLines (content : Text) : List (List Text) := (content.splitOn 10).filterMap searchLine

/-- The search list that is written: the domain, and the others behind it. -/
def mergedSearch (domain : Text) (existing : List Text) : Text :=
  existing.foldl (fun search e => if e ≠ domain then search ++ 32 :: e else search) domain

/-- The block, for what is in the file without it. -/
def markedBlock (domain : Text) (resolver : Addr) (content : Text) : Text :=
  beginMarker ++ (bytes "\nnameserver " ++ bytes resolver.string ++ bytes "\nsearch " ++
    mergedSearch domain (searchLines content).flatten ++ bytes "\n") ++ endMarker ++ bytes "\n"

/-- What the operating system refuses: to read the file, to open it for writing, or to write more
than so many bytes. -/
structure Faults where
  read : Bool
  openFile : Bool
  write : Option ℕ

/-- `os.ReadFile`. -/
def readFile (flt : Faults) (file : Option Text) : Option Text := if flt.read then none else file

/-- `os.WriteFile`, with the error as `false`. -/
def writeFile (flt : Faults) (data : Text) (file : Option Text) : Bool × Option Text :=
  if flt.openFile then (false, file)
  else match flt.write with
    | none => (true, some data)
    | some k => (false, some (data.take k))

/-- `configureResolvConf`, on the file if there is one. The outer `none` is for a call that never
returns, `false` for an error. -/
def configureResolvConf (domain : Text) (resolver : Addr) (flt : Faults) (file : Option Text) :
    Option (Bool × Option Text) :=
  match readFile flt file with
  | none => some (false, file)
  | some orig => (stripMarkedBlock orig).map fun content =>
      writeFile flt (markedBlock domain resolver content ++ content) file

/-- `restoreResolvConf`. -/
def restoreResolvConf (flt : Faults) (file : Option Text) : Option (Option Text) :=
  match readFile flt file with
  | none => some file
  | some orig => (stripMarkedBlock orig).map fun stripped =>
      if stripped ≠ orig then (writeFile flt stripped file).2 else file

/-- A call of `configureResolvConf`. -/
structure Call where
  domain : Text
  resolver : Addr
  flt : Faults

/-- The file after a call. -/
def Call.run (c : Call) (file : Option Text) : Option (Option Text) :=
  (configureResolvConf c.domain c.resolver c.flt file).map Prod.snd

/-- The file after some calls, `none` if one of them never returns. -/
def runCalls : List Call → Option Text → Option (Option Text)
  | [], file => some file
  | c :: cs, file => (c.run file).bind (runCalls cs)

/-- The operating system refuses nothing. -/
def noFaults : Faults := ⟨false, false, none⟩

/-- The arguments hold no `#`, and a write that is begun is completed. -/
structure Call.Plain (c : Call) : Prop where
  domain : 35 ∉ c.domain
  zone : '#' ∉ c.resolver.zone.toList
  write : c.flt.write = none

/-- The file a call leaves if nothing is refused. -/
def Call.written (c : Call) (orig : Text) : Text := markedBlock c.domain c.resolver orig ++ orig

/-! ### What was there -/

section Restore

variable {orig : Text} {c : Call}

/-- A text without `#` holds no marker, and it makes none behind a begin marker. -/
theorem not_endMarker_append {m : Text} (hm : 35 ∉ m) : ¬ endMarker <:+: beginMarker ++ m := by
  intro hin
  obtain ⟨i, hi⟩ := exists_at_iff.mpr hin
  have hzero : At beginMarker (beginMarker ++ m) 0 := List.prefix_append beginMarker m
  rcases Nat.eq_zero_or_pos i with rfl | hpos
  · exact not_at_both hzero hi
  · have hle := isMarker_begin.apart isMarker_end hzero hi hpos
    have hend := hi.infix_drop (by omega : beginMarker.length ≤ i)
    rw [List.drop_left] at hend
    exact hm (hend.subset (by decide : (35 : UInt8) ∈ endMarker))

theorem not_mem_mergedSearch {domain : Text} {existing : List Text} (hdomain : 35 ∉ domain)
    (hexisting : ∀ e ∈ existing, 35 ∉ e) : 35 ∉ mergedSearch domain existing := by
  have hfold : ∀ search : Text, 35 ∉ search → 35 ∉ existing.foldl
      (fun search e => if e ≠ domain then search ++ 32 :: e else search) search := by
    intro search hsearch
    induction existing generalizing search with
    | nil => exact hsearch
    | cons e es ih =>
      rw [List.forall_mem_cons] at hexisting
      refine ih hexisting.2 _ ?_
      show 35 ∉ if e ≠ domain then search ++ 32 :: e else search
      split_ifs
      · simp [hsearch, hexisting.1]
      · exact hsearch
  exact hfold domain hdomain

theorem not_mem_resolver (h : '#' ∉ c.resolver.zone.toList) : 35 ∉ bytes c.resolver.string := by
  intro hmem
  have hchar : '#' ∈ c.resolver.string.toList := mem_of_mem_bytes hmem rfl (by decide)
  rw [toList_addrString] at hchar
  rcases mem_chars hchar with h' | h' | h' | h'
  · exact absurd h' (by decide)
  · exact absurd h' (by decide)
  · exact absurd h' (by decide)
  · exact h h'

/-- The block is taken out again. -/
theorem stripMarkedBlock_written (hc : c.Plain) (hbegin : ¬ beginMarker <:+: orig)
    (htokens : ∀ ds ∈ searchLines orig, ∀ d ∈ ds, 35 ∉ d) :
    stripMarkedBlock (c.written orig) = some orig := by
  have hexisting : ∀ e ∈ (searchLines orig).flatten, 35 ∉ e := by
    intro e he
    obtain ⟨ds, hds, hed⟩ := List.mem_flatten.mp he
    exact htokens ds hds e hed
  have hinner : 35 ∉ bytes "\nnameserver " ++ bytes c.resolver.string ++ bytes "\nsearch " ++
      mergedSearch c.domain (searchLines orig).flatten ++ bytes "\n" := by
    simp only [List.mem_append, not_or]
    exact ⟨⟨⟨⟨by decide, not_mem_resolver hc.zone⟩, by decide⟩,
      not_mem_mergedSearch hc.domain hexisting⟩, by decide⟩
  have hstrip := stripMarkedBlock_block (not_endMarker_append hinner) hbegin
  rw [Call.written, markedBlock, List.append_assoc _ (bytes "\n") orig]
  exact hstrip

/-- The file is as it was, or it was written by a call. -/
def Configured (orig file : Text) : Prop :=
  file = orig ∨ ∃ c : Call, c.Plain ∧ file = c.written orig

theorem Configured.strip {file : Text} (h : Configured orig file)
    (hbegin : ¬ beginMarker <:+: orig) (htokens : ∀ ds ∈ searchLines orig, ∀ d ∈ ds, 35 ∉ d) :
    stripMarkedBlock file = some orig := by
  rcases h with rfl | ⟨c, hc, rfl⟩
  · exact stripMarkedBlock_plain hbegin
  · exact stripMarkedBlock_written hc hbegin htokens

/-- **One call**: it is refused, or writes its block in front of what was there. -/
theorem Configured.run {file : Text} (h : Configured orig file)
    (hbegin : ¬ beginMarker <:+: orig) (htokens : ∀ ds ∈ searchLines orig, ∀ d ∈ ds, 35 ∉ d)
    (hc : c.Plain) : c.run (some file) = some (some (if c.flt.read ∨ c.flt.openFile then file
      else c.written orig)) := by
  have hstrip := h.strip hbegin htokens
  rw [Call.run, configureResolvConf, readFile]
  by_cases hread : c.flt.read
  · simp [hread]
  · by_cases hopen : c.flt.openFile
    · simp [hread, hstrip, writeFile, hopen]
    · simp [hread, hstrip, writeFile, hopen, hc.write, Call.written]

/-- **Any number of calls.** -/
theorem Configured.runCalls {file : Text} (h : Configured orig file)
    (hbegin : ¬ beginMarker <:+: orig) (htokens : ∀ ds ∈ searchLines orig, ∀ d ∈ ds, 35 ∉ d)
    {calls : List Call} (hcalls : ∀ c ∈ calls, c.Plain) :
    ∃ file', runCalls calls (some file) = some (some file') ∧ Configured orig file' := by
  induction calls generalizing file with
  | nil => exact ⟨file, rfl, h⟩
  | cons c cs ih =>
    rw [List.forall_mem_cons] at hcalls
    rw [Linux.runCalls, h.run hbegin htokens hcalls.1, Option.bind_some]
    refine ih ?_ hcalls.2
    split_ifs
    · exact h
    · exact .inr ⟨c, hcalls.1, rfl⟩

theorem runCalls_append (cs cs' : List Call) (file : Option Text) :
    runCalls (cs ++ cs') file = (runCalls cs file).bind (runCalls cs') := by
  induction cs generalizing file with
  | nil => rfl
  | cons c cs ih =>
    rw [List.cons_append, Linux.runCalls, Linux.runCalls, Option.bind_assoc]
    congr 1
    funext file'
    exact ih file'

end Restore

/-- **The file is restored byte for byte.** After any number of calls, the last of which is `c`, the
block can be taken out and what was there is left. And the last call can be repeated without
changing anything. Some of the calls may be refused, but none may be cut short. -/
theorem restoreResolvConf_configured {orig : Text} (calls : List Call) (c : Call)
    (hbegin : ¬ beginMarker <:+: orig) (htokens : ∀ ds ∈ searchLines orig, ∀ d ∈ ds, 35 ∉ d)
    (hcalls : ∀ c' ∈ calls ++ [c], c'.Plain) :
    ∃ file, runCalls (calls ++ [c]) (some orig) = some (some file) ∧
      restoreResolvConf noFaults (some file) = some (some orig) ∧
      c.run (some file) = some (some file) := by
  rw [List.forall_mem_append, List.forall_mem_singleton] at hcalls
  obtain ⟨file₀, hrun, hfile₀⟩ := Configured.runCalls (.inl rfl) hbegin htokens hcalls.1
  have hlast := hfile₀.run hbegin htokens hcalls.2
  obtain ⟨file, hfile⟩ : ∃ file, file = if c.flt.read ∨ c.flt.openFile then file₀
    else c.written orig := ⟨_, rfl⟩
  have hconf : Configured orig file := by
    rw [hfile]
    split_ifs
    · exact hfile₀
    · exact .inr ⟨c, hcalls.2, rfl⟩
  refine ⟨file, ?_, ?_, ?_⟩
  · rw [runCalls_append, hrun, Option.bind_some, Linux.runCalls, hlast, Option.bind_some, hfile]
    rfl
  · have hstrip := hconf.strip hbegin htokens
    by_cases hsame : orig = file
    · rw [← hsame] at hstrip ⊢
      simp [restoreResolvConf, readFile, noFaults, hstrip]
    · simp [restoreResolvConf, readFile, noFaults, hstrip, hsame, writeFile]
  · rw [hconf.run hbegin htokens hcalls.2, hfile]
    split_ifs <;> rfl

/-- A file with a search line, and two calls. -/
theorem restoreResolvConf_configured_twice :
    ∃ file, runCalls [⟨bytes "default.mesh", .v4 0x64600001#32, noFaults⟩,
        ⟨bytes "home.mesh", .v4 0x64600002#32, noFaults⟩]
          (some (bytes "search lan\nnameserver 8.8.8.8\n")) = some (some file) ∧
      restoreResolvConf noFaults (some file) =
        some (some (bytes "search lan\nnameserver 8.8.8.8\n")) ∧
      Call.run ⟨bytes "home.mesh", .v4 0x64600002#32, noFaults⟩ (some file) = some (some file) := by
  refine restoreResolvConf_configured [⟨bytes "default.mesh", .v4 0x64600001#32, noFaults⟩] _
    ?_ ?_ ?_
  · decide +kernel
  · decide +kernel
  · rintro c' (_ | ⟨_, _ | ⟨_, hc'⟩⟩)
    · exact ⟨by decide, by decide, rfl⟩
    · exact ⟨by decide, by decide, rfl⟩
    · exact absurd hc' List.not_mem_nil

/-! ### The search list -/

/-- The search list of a file, by the rule that the last line counts. -/
def effectiveSearch (file : Text) : List Text := (searchLines file).getLast?.getD []

section Search

variable {domain content : Text}

theorem searchLines_append (l m : Text) :
    searchLines (l ++ 10 :: m) = searchLines l ++ searchLines m := by
  rw [searchLines, Words.splitOn_append_cons, List.filterMap_append]
  rfl

/-- The lines of a file that was written: those of the block, and those that were there. -/
theorem searchLines_written (c : Call) (orig : Text) : searchLines (c.written orig) =
      searchLines (beginMarker ++ bytes "\nnameserver " ++ bytes c.resolver.string) ++
        searchLines (bytes "search" ++ 32 :: mergedSearch c.domain (searchLines orig).flatten) ++
        searchLines orig := by
  have hend : searchLines endMarker = [] := by decide +kernel
  have htext : c.written orig =
      (beginMarker ++ bytes "\nnameserver " ++ bytes c.resolver.string) ++ 10 ::
        ((bytes "search" ++ 32 :: mergedSearch c.domain (searchLines orig).flatten) ++ 10 ::
          (endMarker ++ 10 :: orig)) := by
    simp only [Call.written, markedBlock, List.append_assoc]
    rfl
  rw [htext, searchLines_append, searchLines_append, searchLines_append, hend, List.nil_append,
    ← List.append_assoc (searchLines _)]

/-- What a line lists are its fields. -/
theorem mem_fields_of_searchLine {line d : Text} {ds : List Text} (h : searchLine line = some ds)
    (hd : d ∈ ds) : d ∈ fields line := by
  rw [searchLine] at h
  split at h
  · cases h
  · next f ds' hfields =>
    split_ifs at h
    obtain rfl := Option.some.inj h
    rw [hfields]
    exact List.mem_cons_of_mem f hd

/-- A domain that is listed is a single word. -/
theorem fields_of_mem_searchLines {d : Text} {ds : List Text} (h : ds ∈ searchLines content)
    (hd : d ∈ ds) : fields d = [d] := by
  obtain ⟨line, -, hline⟩ := List.mem_filterMap.mp h
  exact fields_of_mem (mem_fields_of_searchLine hline hd)

/-- The line that is written lists the domain. -/
theorem searchLines_search (h : fields domain = [domain]) :
    searchLines (bytes "search" ++ 32 :: domain) = [[domain]] := by
  have hmem : domain ∈ fields domain := by
    rw [h]
    exact List.mem_singleton_self domain
  have hnewline : (10 : UInt8) ∉ bytes "search" ++ 32 :: domain := by
    rw [List.mem_append, List.mem_cons, not_or, not_or]
    exact ⟨by decide, by decide, not_mem_of_mem_fields (by decide) hmem⟩
  have hfields : fields (bytes "search" ++ 32 :: domain) = [bytes "search", domain] := by
    have hsearch : fields (bytes "search") = [bytes "search"] := by decide +kernel
    rw [fields_append (by decide), hsearch, h]
    rfl
  have hline : searchLine (bytes "search" ++ 32 :: domain) = some [domain] := by
    rw [searchLine, hfields]
    simp
  have hone : (bytes "search" ++ 32 :: domain).splitOn 10 = [bytes "search" ++ 32 :: domain] := by
    refine List.splitOnP_eq_singleton fun x hx => ?_
    rw [beq_eq_false_iff_ne]
    rintro rfl
    exact hnewline hx
  rw [searchLines, hone]
  simp [hline]

theorem fields_of_mem_effectiveSearch {file d : Text} (h : d ∈ effectiveSearch file) :
    fields d = [d] := by
  rw [effectiveSearch] at h
  cases hlast : (searchLines file).getLast? with
  | none =>
    rw [hlast] at h
    exact absurd h List.not_mem_nil
  | some ds =>
    rw [hlast] at h
    exact fields_of_mem_searchLines (List.mem_of_getLast? hlast) h

/-- A list that begins with an element and goes on with everything else, of itself and of a list in
front of it, is alone: there was nothing else in front. -/
theorem eq_cons_filter_iff {α : Type*} [DecidableEq α] {d : α} {front last : List α} :
    last = d :: (front ++ last).filter (· ≠ d) ↔
      ∃ t, last = d :: t ∧ d ∉ t ∧ ∀ x ∈ front, x = d := by
  constructor
  · intro h
    obtain ⟨t, ht⟩ : ∃ t, last = d :: t := ⟨_, h⟩
    rw [ht, List.cons.injEq, List.filter_append, List.filter_cons_of_neg (by simp)] at h
    have htwice := congrArg (fun l => (l.filter (· ≠ d)).length) h.2
    simp only [List.filter_append, List.length_append, List.filter_filter, Bool.and_self] at htwice
    have hfront : front.filter (· ≠ d) = [] := List.length_eq_zero_iff.mp (by omega)
    refine ⟨t, ht, ?_, ?_⟩
    · rw [h.2, hfront, List.nil_append, List.mem_filter]
      simp
    · simpa using hfront
  · rintro ⟨t, rfl, hd, hfront⟩
    have hfront : front.filter (· ≠ d) = [] := by simpa using hfront
    have ht : t.filter (· ≠ d) = t := by
      refine List.filter_eq_self.mpr fun x hx => ?_
      rw [decide_eq_true_iff]
      rintro rfl
      exact hd hx
    rw [List.filter_append, hfront, List.filter_cons_of_neg (by simp), ht, List.nil_append]

end Search

/-- A file without a block gets one. -/
theorem configureResolvConf_plain (domain : Text) (resolver : Addr) {orig : Text}
    (h : ¬ beginMarker <:+: orig) : configureResolvConf domain resolver noFaults (some orig) =
      some (true, some (Call.written ⟨domain, resolver, noFaults⟩ orig)) := by
  simp [configureResolvConf, readFile, noFaults, stripMarkedBlock_plain h, writeFile, Call.written]

/-- **When the search list that is written is the one that counts.** The block goes in front of what
was there, so a `search` or `domain` line that was there comes after it and wins. The list that
counts is the mesh domain and the domains that were there if and only if there was no such line, or
the last one read like this already and those before it named nothing else. -/
theorem effectiveSearch_configured_iff (domain : Text) (resolver : Addr) {orig : Text}
    (hplain : ¬ beginMarker <:+: orig) :
    (∃ file, configureResolvConf domain resolver noFaults (some orig) = some (true, some file) ∧
        effectiveSearch file = domain :: (searchLines orig).flatten.filter (· ≠ domain)) ↔
      searchLines orig = [] ∧ fields domain = [domain] ∨
        ∃ init t, searchLines orig = init ++ [domain :: t] ∧ domain ∉ t ∧
          ∀ ds ∈ init, ∀ d ∈ ds, d = domain := by
  rw [configureResolvConf_plain domain resolver hplain]
  simp only [Option.some.injEq, Prod.mk.injEq, true_and, exists_eq_left']
  cases hlines : searchLines orig using List.reverseRecOn with
  | nil =>
    constructor
    · intro h
      have hmem : domain ∈ effectiveSearch (Call.written ⟨domain, resolver, noFaults⟩ orig) := by
        rw [h]
        exact List.mem_cons_self
      exact .inl ⟨rfl, fields_of_mem_effectiveSearch hmem⟩
    · rintro (⟨-, hword⟩ | ⟨init, t, h, -⟩)
      · have hmerged : mergedSearch domain ([] : List (List Text)).flatten = domain := rfl
        rw [effectiveSearch, searchLines_written, hlines, hmerged, searchLines_search hword]
        simp
      · simp at h
  | append_singleton init last =>
    have hlast : effectiveSearch (Call.written ⟨domain, resolver, noFaults⟩ orig) = last := by
      rw [effectiveSearch, searchLines_written, hlines]
      simp
    rw [hlast, List.flatten_append, List.flatten_singleton, eq_cons_filter_iff]
    simp only [List.append_eq_nil_iff, List.cons_ne_nil, and_false, false_and, false_or]
    constructor
    · rintro ⟨t, rfl, ht, hinit⟩
      exact ⟨init, t, rfl, ht, fun ds hds d hd => hinit d (List.mem_flatten.mpr ⟨ds, hds, hd⟩)⟩
    · rintro ⟨init', t, heq, ht, hinit⟩
      obtain ⟨rfl, hlast'⟩ := List.append_inj' heq rfl
      obtain rfl := List.singleton_inj.mp hlast'
      refine ⟨t, rfl, ht, fun d hd => ?_⟩
      obtain ⟨ds, hds, hd⟩ := List.mem_flatten.mp hd
      exact hinit ds hds d hd

/-- A file that lists a domain keeps it, and the mesh domain is not searched. -/
theorem effectiveSearch_overridden :
    ¬ ∃ file, configureResolvConf (bytes "default.mesh") (.v4 0x64600001#32) noFaults
          (some (bytes "search lan\nnameserver 8.8.8.8\n")) = some (true, some file) ∧
        effectiveSearch file = [bytes "default.mesh", bytes "lan"] := by
  rintro ⟨file, hfile, heffective⟩
  rw [configureResolvConf_plain _ _ (by decide +kernel), Option.some.injEq, Prod.mk.injEq] at hfile
  obtain rfl := Option.some.inj hfile.2
  exact absurd heffective (by decide +kernel)

/-- A file without a search list gets one. -/
theorem effectiveSearch_configured_sample :
    ∃ file, configureResolvConf (bytes "default.mesh") (.v4 0x64600001#32) noFaults
          (some (bytes "nameserver 8.8.8.8\n")) = some (true, some file) ∧
        effectiveSearch file =
          bytes "default.mesh" :: (searchLines (bytes "nameserver 8.8.8.8\n")).flatten.filter
            (· ≠ bytes "default.mesh") :=
  (effectiveSearch_configured_iff (bytes "default.mesh") (.v4 0x64600001#32)
    (by decide +kernel)).mpr (.inl ⟨by decide +kernel, by decide +kernel⟩)

end Linux

end Meshdns

end OverMesh
