import Mathlib.Algebra.GroupWithZero.Nat
import Census.Proofs.Files.Growth

/-!
# Lengths of paths

A path is followed only if it can be written in `pathLimit` bytes. All of it counts, also what leads
nowhere: a directory has paths that are as long as one likes, since slashes may be repeated.

- `Path.utf8ByteSize_text`, `Path.utf8ByteSize_text_append`: how long a path from the root is.
- `Path.withSlashes`: a path with slashes at its end, which is longer and leads where the path does.
- `FileTree.isFollowable_iff`: the paths that are followed.
- `FileTree.isFollowable_withSlashes`, `FileTree.isFollowable_join_withSlashes`: a directory can be
  reached by a path behind which there is no room for an entry.
-/

namespace Census

variable {names more : List String}

namespace Path

/-- Each name of a path from the root has a slash before it. -/
theorem utf8ByteSize_text (hnames : names ≠ []) :
    (text ⟨true, names⟩).utf8ByteSize = (names.map fun name => 1 + name.utf8ByteSize).sum := by
  have hslash : "/".utf8ByteSize = 1 := rfl
  induction names with
  | nil => exact absurd rfl hnames
  | cons name names ih =>
    by_cases hlast : names = []
    · simp only [hlast, text, if_true, String.intercalate_singleton, String.utf8ByteSize_append,
        List.map_singleton, List.sum_singleton, hslash]
    · have hrest := ih hlast
      simp only [text, if_true, String.utf8ByteSize_append] at hrest ⊢
      rw [String.intercalate_cons_of_ne_nil hlast, String.utf8ByteSize_append,
        String.utf8ByteSize_append, List.map_cons, List.sum_cons, ← hrest]
      omega

/-- What is written behind a path from the root adds its own length. -/
theorem utf8ByteSize_text_append (hnames : names ≠ []) (hmore : more ≠ []) :
    (text ⟨true, names ++ more⟩).utf8ByteSize
      = (text ⟨true, names⟩).utf8ByteSize + (text ⟨true, more⟩).utf8ByteSize := by
  have happend : names ++ more ≠ [] := by simp [hnames]
  rw [utf8ByteSize_text happend, utf8ByteSize_text hnames, utf8ByteSize_text hmore,
    List.map_append, List.sum_append]

/-- An entry of a directory has a longer path than the directory, by its name at least. -/
theorem le_utf8ByteSize_text_join {path : Path} (hrooted : path.rooted = true)
    (hnames : path.names ≠ []) (name : String) :
    path.text.utf8ByteSize + name.utf8ByteSize
      ≤ (path.join ⟨false, [name]⟩).text.utf8ByteSize := by
  obtain ⟨front, hjoin, hfront⟩ := path.join_name name
  have hpath : path = ⟨true, path.names⟩ := by rw [← hrooted]
  have hone (other : String) :
      (text ⟨true, [other]⟩).utf8ByteSize = 1 + other.utf8ByteSize := by
    rw [utf8ByteSize_text (List.cons_ne_nil _ _), List.map_singleton, List.sum_singleton]
  rw [hjoin, hrooted]
  rcases hfront with hfront | hfront
  · rw [← hfront, utf8ByteSize_text_append hnames (List.cons_ne_nil _ _), hone, ← hpath]
    omega
  · by_cases hempty : front = []
    · -- the root, written with a slash more
      have hpath' : path = ⟨true, [""]⟩ := by rw [hpath, hfront, hempty, List.nil_append]
      have hnothing : "".utf8ByteSize = 0 := String.utf8ByteSize_empty
      rw [hpath', hempty, List.nil_append, hone, hone]
      omega
    · rw [hpath, hfront, utf8ByteSize_text_append hempty (List.cons_ne_nil _ _), hone,
        utf8ByteSize_text_append hempty (List.cons_ne_nil _ _), hone, String.utf8ByteSize_empty]
      omega

/-! ## Slashes at the end -/

/-- The path with so many slashes more at its end. -/
def withSlashes (path : Path) (slashes : Nat) : Path :=
  ⟨path.rooted, path.names ++ List.replicate slashes ""⟩

theorem utf8ByteSize_text_withSlashes (hnames : names ≠ []) (slashes : Nat) :
    (withSlashes ⟨true, names⟩ slashes).text.utf8ByteSize
      = (text ⟨true, names⟩).utf8ByteSize + slashes := by
  rw [withSlashes, utf8ByteSize_text (by simp [hnames]), utf8ByteSize_text hnames,
    List.map_append, List.sum_append, List.map_replicate, List.sum_replicate_nat,
    String.utf8ByteSize_empty, Nat.add_zero, Nat.mul_one]

/-- Empty names are no components. -/
theorem trim_replicate_empty (rooted : Bool) (count : Nat) (names : List String) :
    trim rooted (List.replicate count "" ++ names) = trim rooted names := by
  induction count with
  | zero => rfl
  | succ count ih =>
    rw [List.replicate_succ, List.cons_append, trim, if_neg (by simp [isComponent]), ih]

theorem parent?_withSlashes (path : Path) (slashes : Nat) :
    (path.withSlashes slashes).parent? = path.parent? := by
  rw [parent?, parent?, withSlashes, List.reverse_append, List.reverse_replicate,
    trim_replicate_empty]

theorem chain_eq_cons {path parent : Path} (h : path.parent? = some parent) :
    path.chain = path :: parent.chain := by
  rw [chain]
  split
  · next hnone => cases h.symm.trans hnone
  · next other hother =>
    obtain rfl : parent = other := Option.some.inj (h.symm.trans hother)
    rfl

end Path

namespace FileTree

variable {tree : FileTree} {start place : Place}

/-- A path is followed if it holds no null character and is not too long. -/
theorem isFollowable_iff {path : Path} :
    isFollowable path = true ↔
      hasNull path = false ∧ path.text.utf8ByteSize ≤ pathLimit := by
  simp [isFollowable]

/-- Only what is written behind a path can bring a null character. -/
theorem hasNull_append (rooted : Bool) (names : List String) {more : List String}
    (hmore : hasNull ⟨rooted, more⟩ = false) :
    hasNull ⟨rooted, names ++ more⟩ = hasNull ⟨rooted, names⟩ := by
  rw [hasNull] at hmore
  rw [hasNull, List.any_append, hmore, Bool.or_false, hasNull]

/-- A path is followed with as many slashes at its end as there is room for. -/
theorem isFollowable_withSlashes {slashes : Nat} (hnames : names ≠ [])
    (hnull : hasNull ⟨true, names⟩ = false)
    (hroom : (Path.text ⟨true, names⟩).utf8ByteSize + slashes ≤ pathLimit) :
    isFollowable (Path.withSlashes ⟨true, names⟩ slashes) = true := by
  have hslashes : hasNull ⟨true, List.replicate slashes ""⟩ = false := by
    rw [hasNull, List.any_replicate]
    simp
  rw [isFollowable_iff, Path.utf8ByteSize_text_withSlashes hnames]
  exact ⟨(hasNull_append true names hslashes).trans hnull, hroom⟩

/-- The slashes leave less room for the name of an entry. -/
theorem isFollowable_join_withSlashes {slashes : Nat} {name : String} (hnames : names ≠ [])
    (hlong : pathLimit
      < (Path.text ⟨true, names⟩).utf8ByteSize + slashes + name.utf8ByteSize) :
    isFollowable ((Path.withSlashes ⟨true, names⟩ slashes).join ⟨false, [name]⟩) = false := by
  have hnames' : (Path.withSlashes ⟨true, names⟩ slashes).names ≠ [] := by
    simp [Path.withSlashes, hnames]
  have hjoin := Path.le_utf8ByteSize_text_join rfl hnames' name
  rw [Path.utf8ByteSize_text_withSlashes hnames] at hjoin
  rw [← Bool.not_eq_true, isFollowable_iff]
  rintro ⟨-, hfits⟩
  omega

/-- A slash at the end of a path leads nowhere else. -/
theorem route_concat_empty (hplace : tree.sight? place = some .directory) :
    tree.route start (names ++ [""]) = .ok place ↔ tree.route start names = .ok place := by
  rw [route_append_eq_ok_iff]
  constructor
  · rintro ⟨between, hnames, hlast⟩
    obtain ⟨next, henter, hnext⟩ := route_cons_eq_ok_iff.mp hlast
    obtain rfl : between = next := Except.ok.inj (enter_eq_ok_iff.mp henter).2
    rwa [show between = place from Except.ok.inj hnext] at hnames
  · intro hnames
    exact ⟨place, hnames, route_cons_eq_ok_iff.mpr
      ⟨place, enter_eq_ok_iff.mpr ⟨hplace, rfl⟩, rfl⟩⟩

theorem route_withSlashes (hplace : tree.sight? place = some .directory) (path : Path)
    (slashes : Nat) :
    tree.route start (path.withSlashes slashes).names = .ok place ↔
      tree.route start path.names = .ok place := by
  show tree.route start (path.names ++ List.replicate slashes "") = .ok place ↔ _
  induction slashes with
  | zero => rw [List.replicate_zero, List.append_nil]
  | succ slashes ih =>
    rw [List.replicate_succ', ← List.append_assoc, route_concat_empty hplace, ih]

end FileTree

end Census
