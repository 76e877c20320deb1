import Mathlib.Data.List.Basic
import Mathlib.Tactic.SplitIfs

/-!
# Unix paths of the Go standard library

`path/filepath` on Unix, on lists of bytes. The package works on the text of a path alone: `Clean`
takes the elements between separators one after the other, drops empty ones and `.`, and lets `..`
take back the element before it.

A `Place` is where a path leads: from the root or from the working directory some steps up, and then
down along names. `place` reads it off a path and `render` writes it, so that `Clean` is the one
after the other.

## Main results

* `place_render` — what is written is read back, so a cleaned path leads where the path does
* `place_join` — joining a name leads one step down
* `place_dir_join`, `base_join` — `Dir` and `Base` take a joined path apart again
-/

namespace GoPath

/-- `filepath.Separator`. -/
def sep : UInt8 := 47

/-- The byte of `.` and `..`. -/
def dot : UInt8 := 46

/-- The name of an entry of a directory. -/
def Proper (n : List UInt8) : Prop := n ≠ [] ∧ n ≠ [dot] ∧ n ≠ [dot, dot] ∧ sep ∉ n

instance (n : List UInt8) : Decidable (Proper n) := inferInstanceAs (Decidable (_ ∧ _))

/-! ### Places -/

/-- Where a path leads: `ups` steps up from the working directory, or to the root, which has nothing
above it, and then down along the names. -/
@[ext] structure Place where
  rooted : Bool
  ups : ℕ
  names : List (List UInt8)
  ups_rooted : rooted = true → ups = 0
  proper : ∀ n ∈ names, Proper n

namespace Place

/-- The root, or the working directory. -/
def start (rooted : Bool) : Place := ⟨rooted, 0, [], fun _ => rfl, by simp⟩

/-- One step down. -/
def down (l : Place) (n : List UInt8) (h : Proper n) : Place :=
  { l with
    names := l.names ++ [n]
    proper := by
      intro m hm
      rcases List.mem_append.mp hm with hm | hm
      · exact l.proper m hm
      · rw [List.mem_singleton.mp hm]
        exact h }

/-- One step up. -/
def up (l : Place) : Place :=
  if l.names = [] then
    { l with
      ups := if l.rooted then 0 else l.ups + 1
      ups_rooted := fun h => if_pos h }
  else
    { l with
      names := l.names.dropLast
      proper := fun n hn => l.proper n (List.dropLast_subset _ hn) }

/-- One element of a path. Empty ones and `.` change nothing. -/
def enter (l : Place) (c : List UInt8) : Place :=
  if c = [dot, dot] then l.up else if h : Proper c then l.down c h else l

/-- The elements of the shortest path to a place. -/
def elements (l : Place) : List (List UInt8) := List.replicate l.ups [dot, dot] ++ l.names

/-- The shortest path to a place. -/
def render (l : Place) : List UInt8 :=
  if l.rooted then sep :: [sep].intercalate l.elements
  else if l.elements = [] then [dot]
  else [sep].intercalate l.elements

theorem down_injective {l l' : Place} {n n' : List UInt8} {h : Proper n} {h' : Proper n'}
    (heq : l.down n h = l'.down n' h') : l = l' ∧ n = n' := by
  have hrooted : (l.down n h).rooted = (l'.down n' h').rooted := congrArg Place.rooted heq
  have hups : (l.down n h).ups = (l'.down n' h').ups := congrArg Place.ups heq
  have hnames : (l.down n h).names = (l'.down n' h').names := congrArg Place.names heq
  obtain ⟨hinit, hlast⟩ := List.append_inj' hnames rfl
  exact ⟨Place.ext hrooted hups hinit, (List.cons.inj hlast).1⟩

theorem enter_proper (l : Place) {c : List UInt8} (h : Proper c) : l.enter c = l.down c h := by
  rw [enter, if_neg h.2.2.1, dif_pos h]

theorem enter_nil (l : Place) : l.enter [] = l := by
  rw [enter, if_neg (by decide), dif_neg (by decide)]

theorem enter_dot (l : Place) : l.enter [dot] = l := by
  rw [enter, if_neg (by decide), dif_neg (by decide)]

theorem not_mem_elements {l : Place} {c : List UInt8} (h : c ∈ l.elements) : sep ∉ c := by
  rcases List.mem_append.mp h with h | h
  · rw [List.eq_of_mem_replicate h]
    decide
  · exact (l.proper c h).2.2.2

theorem ne_nil_of_mem_elements {l : Place} {c : List UInt8} (h : c ∈ l.elements) : c ≠ [] := by
  rcases List.mem_append.mp h with h | h
  · rw [List.eq_of_mem_replicate h]
    decide
  · exact (l.proper c h).1

/-- Steps up from the working directory. -/
theorem foldl_enter_ups (k : ℕ) : (List.replicate k [dot, dot]).foldl enter (start false) =
      ⟨false, k, [], fun h => absurd h (by decide), by simp⟩ := by
  induction k with
  | zero => rfl
  | succ k ih =>
    rw [List.replicate_succ', List.foldl_append, ih, List.foldl_cons, List.foldl_nil, enter,
      if_pos rfl, up, if_pos rfl]
    rfl

/-- Steps down. -/
theorem foldl_enter_names {l : Place} {ns : List (List UInt8)} (h : ∀ n ∈ ns, Proper n) :
    ns.foldl enter l =
      { l with
        names := l.names ++ ns
        proper := fun n hn => (List.mem_append.mp hn).elim (l.proper n) (h n) } := by
  induction ns generalizing l with
  | nil => exact Place.ext rfl rfl (List.append_nil _).symm
  | cons n ns ih =>
    rw [List.foldl_cons, l.enter_proper (h n List.mem_cons_self),
      ih fun m hm => h m (List.mem_cons_of_mem _ hm)]
    refine Place.ext rfl rfl ?_
    show l.names ++ [n] ++ ns = l.names ++ n :: ns
    rw [List.append_assoc, List.singleton_append]

/-- The elements of a place lead there. -/
theorem foldl_enter_elements (l : Place) : l.elements.foldl enter (start l.rooted) = l := by
  obtain ⟨rooted, ups, names, hroot, hproper⟩ := l
  rw [elements, List.foldl_append]
  cases rooted with
  | true =>
    obtain rfl := hroot rfl
    rw [List.replicate_zero, List.foldl_nil, foldl_enter_names hproper]
    exact Place.ext rfl rfl (List.nil_append _)
  | false =>
    rw [foldl_enter_ups, foldl_enter_names hproper]
    exact Place.ext rfl rfl (List.nil_append _)

end Place

/-! ### Reading a path -/

/-- Where a path leads. -/
def place (p : List UInt8) : Place :=
  (p.splitOn sep).foldl Place.enter (Place.start (p.head? = some sep))

/-- `filepath.Clean`. -/
def clean (p : List UInt8) : List UInt8 := (place p).render

/-- `filepath.Join` of two elements. -/
def join (d n : List UInt8) : List UInt8 :=
  if d ≠ [] then clean (d ++ sep :: n) else if n ≠ [] then clean n else []

/-- `filepath.Dir`. -/
def dir (p : List UInt8) : List UInt8 := clean (p.reverse.dropWhile (· ≠ sep)).reverse

/-- `filepath.Base`. -/
def base (p : List UInt8) : List UInt8 :=
  if p = [] then [dot]
  else
    let b := ((p.reverse.dropWhile (· = sep)).takeWhile (· ≠ sep)).reverse
    if b = [] then [sep] else b

/-- `filepath.Ext`. -/
def ext (p : List UInt8) : List UInt8 :=
  let b := (p.reverse.takeWhile (· ≠ sep)).reverse
  if dot ∈ b then dot :: (b.reverse.takeWhile (· ≠ dot)).reverse else []

theorem head?_intercalate {cs : List (List UInt8)} (h : ∀ c ∈ cs, c ≠ []) :
    ([sep].intercalate cs).head? = cs.head?.bind List.head? := by
  cases cs with
  | nil => rfl
  | cons c cs =>
    obtain ⟨b, c, rfl⟩ := List.exists_cons_of_ne_nil (h c List.mem_cons_self)
    cases cs with
    | nil =>
      rw [List.intercalate_singleton]
      rfl
    | cons c' cs =>
      rw [List.intercalate_cons_cons]
      rfl

/-- **What is written is read back.** -/
theorem place_render (l : Place) : place l.render = l := by
  have hsep : ∀ c ∈ l.elements, sep ∉ c := fun c => Place.not_mem_elements
  have hne : ∀ c ∈ l.elements, c ≠ [] := fun c => Place.ne_nil_of_mem_elements
  have hread := l.foldl_enter_elements
  rw [Place.render]
  split_ifs with hroot hnil
  · have hsplit : (sep :: [sep].intercalate l.elements).splitOn sep =
        [] :: ([sep].intercalate l.elements).splitOn sep :=
      List.splitOn_append_cons_self [] _
    have hstart : Place.start ((sep :: [sep].intercalate l.elements).head? = some sep) =
        Place.start l.rooted := by
      rw [hroot]
      rfl
    rw [place, hstart, hsplit, List.foldl_cons, Place.enter_nil]
    by_cases hnil : l.elements = []
    · rw [hnil] at hread ⊢
      exact (Place.enter_nil _).trans hread
    · rw [List.splitOn_intercalate sep hsep hnil, hread]
  · rw [hnil, (Bool.not_eq_true _).mp hroot] at hread
    exact (Place.enter_dot _).trans hread
  · have hhead : ([sep].intercalate l.elements).head? ≠ some sep := by
      obtain ⟨c, cs, hcs⟩ := List.exists_cons_of_ne_nil hnil
      rw [head?_intercalate hne, hcs]
      intro h
      exact hsep c (hcs ▸ List.mem_cons_self) (List.mem_of_mem_head? h)
    rw [place, List.splitOn_intercalate sep hsep hnil, decide_eq_false hhead,
      ← (Bool.not_eq_true _).mp hroot, hread]

/-- A cleaned path leads where the path does. -/
theorem place_clean (p : List UInt8) : place (clean p) = place p := place_render _

theorem place_append {p : List UInt8} (h : p ≠ []) (q : List UInt8) :
    place (p ++ sep :: q) = (q.splitOn sep).foldl Place.enter (place p) := by
  rw [place, place, List.splitOn_append_cons_self, List.foldl_append,
    List.head?_append_of_ne_nil _ h]

theorem place_of_proper {n : List UInt8} (h : Proper n) :
    place n = (Place.start false).down n h := by
  have hhead : n.head? ≠ some sep := fun hs => h.2.2.2 (List.mem_of_mem_head? hs)
  rw [place, List.splitOn_eq_singleton h.2.2.2, decide_eq_false hhead]
  exact Place.enter_proper _ h

/-- **Joining a name leads one step down.** -/
theorem join_eq_render (d : List UInt8) {n : List UInt8} (h : Proper n) :
    join d n = ((place d).down n h).render := by
  rw [join]
  split_ifs with hd hn
  · rw [clean, place_append hd, List.splitOn_eq_singleton h.2.2.2]
    exact congrArg Place.render (Place.enter_proper _ h)
  · rw [not_ne_iff.mp hd, clean, place_of_proper h]
    refine congrArg (fun l => (Place.down l n h).render) ?_
    exact (Place.enter_nil _).symm
  · exact absurd (not_ne_iff.mp hn) h.1

theorem place_join (d : List UInt8) {n : List UInt8} (h : Proper n) :
    place (join d n) = (place d).down n h := by
  rw [join_eq_render d h, place_render]

/-! ### Taking a path apart -/

theorem intercalate_append_singleton {cs : List (List UInt8)} (h : cs ≠ []) (n : List UInt8) :
    [sep].intercalate (cs ++ [n]) = [sep].intercalate cs ++ sep :: n := by
  induction cs with
  | nil => exact absurd rfl h
  | cons c cs ih =>
    cases cs with
    | nil =>
      rw [List.singleton_append, List.intercalate_cons_cons, List.intercalate_singleton,
        List.intercalate_singleton, List.append_assoc]
      rfl
    | cons c' cs =>
      rw [List.cons_append, List.cons_append, List.intercalate_cons_cons, ← List.cons_append,
        ih (List.cons_ne_nil _ _), List.intercalate_cons_cons, List.append_assoc, List.append_assoc,
        List.append_assoc]

/-- The path to an entry of a directory that has a path of its own. -/
theorem render_down_of_elements {l : Place} (hnil : l.elements ≠ []) {n : List UInt8}
    (h : Proper n) :
    (l.down n h).render = (l.render ++ [sep]) ++ n ∧ place (l.render ++ [sep]) = l := by
  constructor
  · have hels : (l.down n h).elements = l.elements ++ [n] := (List.append_assoc _ _ _).symm
    have hrooted : (l.down n h).rooted = l.rooted := rfl
    rw [Place.render, Place.render, hels, hrooted, if_neg (by simp : l.elements ++ [n] ≠ []),
      if_neg hnil, intercalate_append_singleton hnil]
    split_ifs
    · simp
    · simp
  · have hrender : l.render ≠ [] := by
      intro h0
      have hplace := place_render l
      rw [h0] at hplace
      rw [← hplace] at hnil
      exact hnil rfl
    rw [place_append hrender, place_render]
    exact Place.enter_nil l

/-- The path to an entry of a directory is a path to the directory, which is empty or ends in a
separator, and the name. -/
theorem exists_render_down (l : Place) {n : List UInt8} (h : Proper n) :
    ∃ q, (l.down n h).render = q ++ n ∧ place q = l ∧ ∀ b ∈ q.getLast?, b = sep := by
  by_cases hnil : l.elements = []
  · have hels : (l.down n h).elements = l.elements ++ [n] := (List.append_assoc _ _ _).symm
    rw [hnil, List.nil_append] at hels
    have hread := l.foldl_enter_elements
    rw [hnil, List.foldl_nil] at hread
    cases hroot : l.rooted with
    | true =>
      refine ⟨[sep], ?_, ?_, by simp⟩
      · have hrooted : (l.down n h).rooted = true := hroot
        rw [Place.render, hels, if_pos hrooted, List.intercalate_singleton]
        rfl
      · rw [hroot] at hread
        exact ((Place.enter_nil _).trans (Place.enter_nil _)).trans hread
    | false =>
      refine ⟨[], ?_, ?_, by simp⟩
      · have hrooted : ¬ (l.down n h).rooted = true := by
          rw [Bool.not_eq_true]
          exact hroot
        rw [Place.render, hels, if_neg hrooted, if_neg (List.cons_ne_nil n []),
          List.intercalate_singleton, List.nil_append]
      · rw [hroot] at hread
        exact (Place.enter_nil _).trans hread
  · obtain ⟨hrender, hplace⟩ := render_down_of_elements hnil h
    exact ⟨_, hrender, hplace, by simp⟩

/-- The bytes of a name are not separators, from the back either. -/
theorem ne_sep_of_mem_reverse {n : List UInt8} (h : sep ∉ n) :
    ∀ b ∈ n.reverse, decide (b ≠ sep) = true := by
  intro b hb
  rw [decide_eq_true_iff]
  rintro rfl
  exact h (List.mem_reverse.mp hb)

theorem dropWhile_reverse_append {q n : List UInt8} (h : sep ∉ n) (hq : ∀ b ∈ q.getLast?, b = sep) :
    (q ++ n).reverse.dropWhile (· ≠ sep) = q.reverse := by
  have hall := ne_sep_of_mem_reverse h
  rw [List.reverse_append, List.dropWhile_append_of_pos hall]
  cases hrev : q.reverse with
  | nil => rfl
  | cons b bs =>
    have hb : b = sep := hq b (by rw [← List.head?_reverse, hrev]; rfl)
    rw [hb, List.dropWhile_cons_of_neg (by simp)]

/-- `Dir` of a joined path leads to the directory. -/
theorem place_dir_join (d : List UInt8) {n : List UInt8} (h : Proper n) :
    place (dir (join d n)) = place d := by
  obtain ⟨q, hq, hplace, hlast⟩ := exists_render_down (place d) h
  rw [join_eq_render d h, hq, dir, dropWhile_reverse_append h.2.2.2 hlast, List.reverse_reverse,
    place_clean, hplace]

/-- What stands after the last separator is the base. -/
theorem base_append {q n : List UInt8} (hn : n ≠ []) (h : sep ∉ n)
    (hq : ∀ b ∈ q.getLast?, b = sep) : base (q ++ n) = n := by
  have hall := ne_sep_of_mem_reverse h
  have hdrop : (q ++ n).reverse.dropWhile (· = sep) = (q ++ n).reverse := by
    rw [List.reverse_append]
    cases hrev : n.reverse with
    | nil => exact absurd (List.reverse_eq_nil_iff.mp hrev) hn
    | cons b bs =>
      have hb : b ≠ sep := of_decide_eq_true (hall b (by rw [hrev]; exact List.mem_cons_self))
      rw [List.cons_append, List.dropWhile_cons_of_neg (by simp [hb])]
  have htake : (q ++ n).reverse.takeWhile (· ≠ sep) = n.reverse := by
    rw [List.reverse_append, List.takeWhile_append_of_pos hall]
    cases hrev : q.reverse with
    | nil => rw [List.takeWhile_nil, List.append_nil]
    | cons b bs =>
      have hb : b = sep := hq b (by rw [← List.head?_reverse, hrev]; rfl)
      rw [hb, List.takeWhile_cons_of_neg (by simp), List.append_nil]
  rw [base, if_neg (by simp [hn])]
  simp only [hdrop, htake, List.reverse_reverse]
  rw [if_neg hn]

/-- A name without separators is its own base. -/
theorem base_eq_self {n : List UInt8} (hn : n ≠ []) (h : sep ∉ n) : base n = n :=
  base_append (q := []) hn h (by simp)

/-- `Base` of a joined path is the name. -/
theorem base_join (d : List UInt8) {n : List UInt8} (h : Proper n) : base (join d n) = n := by
  obtain ⟨q, hq, -, hlast⟩ := exists_render_down (place d) h
  rw [join_eq_render d h, hq]
  exact base_append h.1 h.2.2.2 hlast

end GoPath
