import OverMesh.Overdrop.Wire
import OverMesh.Coord.Hostnames

/-!
# Where files are written

The receiver puts a file into the directory of its sender, under a name that the sender chooses. The
sender is the name of a peer, as `sanitizeHostname` makes them, and the name has passed `params`.
Here are the paths that `paths` and `dedupePath` make of these, byte by byte, and where they lead.

## Main definitions

* `paths`, `Wire.candidate`, `Wire.dedupePath`
* `IsChild` — a path leads to an entry of a directory

## Main results

* `overdrop_confined` — **all that is written is in the directory of the sender**
-/

namespace OverMesh

open GoText GoBytes GoPath

namespace Overdrop

namespace Wire

/-- The name under which a file is staged. -/
def partName (name : List UInt8) (size : ℕ) : List UInt8 :=
  name ++ bytes "." ++ decBytes size ++ bytes ".part"

/-- What `paths` returns. -/
structure Paths where
  dir : List UInt8
  part : List UInt8
  final : List UInt8

/-- `paths`. -/
def paths (inbox sender name : List UInt8) (size : ℕ) : Paths :=
  let dir := join inbox sender
  ⟨dir, join dir (partName name size), join dir name⟩

/-- The name `dedupePath` makes of another one with a number. -/
def numbered (base : List UInt8) (i : ℕ) : List UInt8 :=
  base.take (base.length - (ext base).length) ++ bytes " (" ++ decBytes i ++ bytes ")" ++ ext base

/-- The `i`-th path `dedupePath` tries. -/
def candidate (path : List UInt8) : ℕ → List UInt8
  | 0 => path
  | i + 1 => join (dir path) (numbered (base path) (i + 2))

/-- `dedupePath`, where `taken` says what exists, and at most `fuel` paths are passed over. -/
def dedupePath (taken : List UInt8 → Bool) (fuel : ℕ) (path : List UInt8) : List UInt8 :=
  FirstFree.search taken (candidate path) fuel 0

/-- The path `p` leads to an entry of the directory that `d` leads to. -/
def IsChild (d p : List UInt8) : Prop := ∃ n, ∃ h : Proper n, place p = (place d).down n h

/-! ### Names -/

theorem proper_of_mem {n : List UInt8} {b : UInt8} (hb : b ∈ n) (hdot : b ≠ dot) (h : sep ∉ n) :
    Proper n := by
  refine ⟨?_, ?_, ?_, h⟩
  · rintro rfl
    exact absurd hb List.not_mem_nil
  · rintro rfl
    exact hdot (List.mem_singleton.mp hb)
  · rintro rfl
    rcases List.mem_cons.mp hb with hb | hb
    · exact hdot hb
    · exact hdot (List.mem_singleton.mp hb)

theorem proper_partName {name : List UInt8} (h : Proper name) (size : ℕ) :
    Proper (partName name size) := by
  refine proper_of_mem (b := 112) ?_ (by decide) ?_
  · exact List.mem_append_right _ (by decide)
  · rw [partName]
    simp only [List.mem_append, not_or]
    exact ⟨⟨⟨h.2.2.2, by decide⟩, not_mem_decBytes (by decide)⟩, by decide⟩

theorem mem_of_mem_ext {b : UInt8} {n : List UInt8} (h : b ∈ ext n) : b ∈ n := by
  have hlast : (n.reverse.takeWhile (· ≠ sep)).reverse ⊆ n := fun x hx =>
    List.mem_reverse.mp (List.takeWhile_subset _ (List.mem_reverse.mp hx))
  rw [ext] at h
  split_ifs at h with hdot
  · rcases List.mem_cons.mp h with rfl | h
    · exact hlast hdot
    · exact hlast (List.mem_reverse.mp (List.takeWhile_subset _ (List.mem_reverse.mp h)))
  · exact absurd h List.not_mem_nil

theorem proper_numbered {n : List UInt8} (h : Proper n) (i : ℕ) : Proper (numbered n i) := by
  refine proper_of_mem (b := 40) ?_ (by decide) ?_
  · rw [numbered]
    simp only [List.mem_append]
    exact .inl (.inl (.inl (.inr (by decide))))
  · rw [numbered]
    simp only [List.mem_append, not_or]
    refine ⟨⟨⟨⟨?_, by decide⟩, not_mem_decBytes (by decide)⟩, by decide⟩, ?_⟩
    · exact fun hm => h.2.2.2 (List.mem_of_mem_take hm)
    · exact fun hm => h.2.2.2 (mem_of_mem_ext hm)

/-- What `params` accepts is the name of an entry of a directory. -/
theorem proper_of_params {raw size n : List UInt8} {k : ℕ} (h : params raw size = .ok (n, k)) :
    Proper n := (not_badName_iff.mp (params_eq_ok_iff.mp h).2.1).1

/-- So is the name of a peer. -/
theorem proper_of_plainName {s : String} (h : PlainName s) (hne : s ≠ "") : Proper (bytes s) := by
  have hnot : ∀ c : Char, c.toNat < 128 → hostnameChar c = false →
      UInt8.ofNat c.toNat ∉ bytes s := by
    intro c hc hplain hm
    have hbyte : (UInt8.ofNat c.toNat).toNat = c.toNat := by
      rw [UInt8.toNat_ofNat', Nat.mod_eq_of_lt (by omega)]
    have := h c (mem_of_mem_bytes hm hbyte.symm (by omega))
    rw [hplain] at this
    exact absurd this Bool.false_ne_true
  obtain ⟨b, hb⟩ := List.exists_mem_of_ne_nil (bytes s) fun h0 => hne (bytes_injective h0)
  refine proper_of_mem hb ?_ (hnot '/' (by decide) (by decide))
  rintro rfl
  exact hnot '.' (by decide) (by decide) hb

/-! ### Paths -/

theorem isChild_join (d : List UInt8) {n : List UInt8} (h : Proper n) : IsChild d (join d n) :=
  ⟨n, h, place_join d h⟩

/-- Every path `dedupePath` tries leads to an entry of the same directory. -/
theorem isChild_candidate (d : List UInt8) {n : List UInt8} (h : Proper n) (i : ℕ) :
    IsChild d (candidate (join d n) i) := by
  cases i with
  | zero => exact isChild_join d h
  | succ i =>
    have hn := proper_numbered h (i + 2)
    refine ⟨numbered n (i + 2), hn, ?_⟩
    rw [candidate, base_join d h, place_join _ hn]
    simp only [place_dir_join d h]

theorem isChild_dedupePath (d : List UInt8) {n : List UInt8} (h : Proper n)
    (taken : List UInt8 → Bool) (fuel : ℕ) : IsChild d (dedupePath taken fuel (join d n)) := by
  obtain ⟨k, -, heq, -⟩ := FirstFree.search_eq taken (candidate (join d n)) fuel 0
  rw [dedupePath, heq]
  exact isChild_candidate d h _

/-- A path leads to an entry of one directory only. -/
theorem place_eq_of_isChild {d d' p : List UInt8} (h : IsChild d p) (h' : IsChild d' p) :
    place d = place d' := by
  obtain ⟨n, hn, hp⟩ := h
  obtain ⟨n', hn', hp'⟩ := h'
  exact (Place.down_injective (hp.symm.trans hp')).1

theorem place_join_ne {d n n' : List UInt8} (h : Proper n) (h' : Proper n') (hne : n ≠ n') :
    place (join d n) ≠ place (join d n') := by
  rw [place_join d h, place_join d h']
  exact fun heq => hne (Place.down_injective heq).2

/-- **All that is written is in the directory of the sender.** Whatever a request that is accepted
names, the staged file and every path under which the file may end up are entries of the sender's
directory, which is an entry of the inbox; and no file of another sender is in that directory. -/
theorem overdrop_confined {inbox raw rawSize name : List UInt8} {size : ℕ} {host : String}
    (hhost : sanitizeHostname host ≠ "") (hparams : params raw rawSize = .ok (name, size)) :
    IsChild inbox (paths inbox (bytes (sanitizeHostname host)) name size).dir ∧
      IsChild (paths inbox (bytes (sanitizeHostname host)) name size).dir
        (paths inbox (bytes (sanitizeHostname host)) name size).part ∧
      (∀ taken fuel, IsChild (paths inbox (bytes (sanitizeHostname host)) name size).dir
        (dedupePath taken fuel (paths inbox (bytes (sanitizeHostname host)) name size).final)) ∧
      ∀ host' name' size', sanitizeHostname host' ≠ "" →
        sanitizeHostname host' ≠ sanitizeHostname host →
          ∀ p, IsChild (paths inbox (bytes (sanitizeHostname host)) name size).dir p →
            ¬ IsChild (paths inbox (bytes (sanitizeHostname host')) name' size').dir p := by
  have hname := proper_of_params hparams
  have hsender := proper_of_plainName (plainName_sanitizeHostname host) hhost
  refine ⟨isChild_join inbox hsender, isChild_join _ (proper_partName hname size),
    isChild_dedupePath _ hname, ?_⟩
  intro host' name' size' hhost' hne p hp hp'
  have hsender' := proper_of_plainName (plainName_sanitizeHostname host') hhost'
  have hbytes : bytes (sanitizeHostname host') ≠ bytes (sanitizeHostname host) :=
    fun h => hne (bytes_injective h)
  exact place_join_ne hsender' hsender hbytes (place_eq_of_isChild hp' hp)

/-- A name that climbs, from a sender with an ordinary name: what is left of it is the last element.
-/
theorem overdrop_confined_climbing :
    params (bytes "../../etc/passwd") (bytes "12") = .ok (bytes "passwd", 12) ∧
      IsChild
        (paths (bytes "/var/inbox") (bytes (sanitizeHostname "Laptop")) (bytes "passwd") 12).dir
        (paths (bytes "/var/inbox") (bytes (sanitizeHostname "Laptop")) (bytes "passwd") 12).part :=
  have hhost : sanitizeHostname "Laptop" ≠ "" := by decide +kernel
  have hparams : params (bytes "../../etc/passwd") (bytes "12") = .ok (bytes "passwd", 12) := by
    decide +kernel
  ⟨hparams, (overdrop_confined hhost hparams).2.1⟩

end Wire

end Overdrop

end OverMesh
