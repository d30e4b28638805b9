import Census.Files.Tree

/-!
# What stands where in a file tree

Seen from outside, a file is its bytes and a directory is nothing but a directory. A tree grows
when new things appear in it and all that was seen stays.

- `FileTree.sight?`: what is seen at a place.
- `FileTree.sight?_put`: what is put at a place leaves the other places as they were.
- `FileTree.GrowsTo`: trees in which all that was seen is still there.
-/

namespace Census

/-- What is seen of a file or a directory from outside. -/
inductive Sight where
  | file (bytes : ByteArray)
  | directory

-- byte arrays are compared by their contents: libraries decide their equality in several ways
instance : DecidableEq Sight
  | .file bytes, .file bytes' =>
    decidable_of_decidable_of_iff (p := bytes.data = bytes'.data)
      (by rw [Sight.file.injEq, ByteArray.ext_iff])
  | .directory, .directory => .isTrue rfl
  | .file _, .directory => .isFalse nofun
  | .directory, .file _ => .isFalse nofun

namespace FileTree

variable {tree grown new inner : FileTree} {place other : Place} {seen : Sight} {bytes : ByteArray}
  {name : String}

/-- How a file or a directory looks from outside. -/
def sight : FileTree → Sight
  | file bytes => .file bytes
  | directory _ => .directory

/-- What is seen at a place. -/
def sight? (tree : FileTree) (place : Place) : Option Sight :=
  (tree.at? place).map sight

theorem sight?_eq_none_iff : tree.sight? place = none ↔ tree.at? place = none :=
  Option.map_eq_none_iff

theorem sight?_eq_file_iff :
    tree.sight? place = some (.file bytes) ↔ tree.at? place = some (.file bytes) := by
  rw [sight?, Option.map_eq_some_iff]
  constructor
  · rintro ⟨inner, hinner, hsight⟩
    cases inner <;> cases hsight
    exact hinner
  · exact fun h => ⟨_, h, rfl⟩

theorem sight?_eq_directory_iff :
    tree.sight? place = some .directory ↔
      ∃ entries, tree.at? place = some (.directory entries) := by
  rw [sight?, Option.map_eq_some_iff]
  constructor
  · rintro ⟨inner, hinner, hsight⟩
    cases inner <;> cases hsight
    exact ⟨_, hinner⟩
  · exact fun ⟨_, h⟩ => ⟨_, h, rfl⟩

@[simp] theorem sight?_cons :
    tree.sight? (name :: place) = (tree.child? name).bind fun child => child.sight? place :=
  Option.map_bind

theorem at?_append (front back : Place) :
    tree.at? (front ++ back) = (tree.at? front).bind fun inner => inner.at? back := by
  induction front generalizing tree with
  | nil => rfl
  | cons name front ih =>
    rw [List.cons_append, at?, at?]
    cases tree.child? name with
    | none => rfl
    | some child => exact ih

/-- Only directories have something in them. -/
theorem sight?_eq_directory_of_append (h : (tree.sight? (place ++ name :: other)).isSome = true) :
    tree.sight? place = some .directory := by
  rw [sight?, Option.isSome_map, at?_append] at h
  rw [sight?]
  match hinner : tree.at? place with
  | none => simp [hinner] at h
  | some (.file bytes) => simp [hinner, at?, child?] at h
  | some (.directory entries) => rfl

/-! ## Putting something somewhere -/

theorem child?_put_self (entries : List (String × FileTree)) :
    (put new (name :: place) (.directory entries)).child? name
      = some (put new place ((entries.lookup name).getD emptyDirectory)) := by
  simp [put, child?]

theorem lookup_filter_of_ne {name' : String} (hne : name' ≠ name)
    (entries : List (String × FileTree)) :
    (entries.filter fun (other, _) => other != name).lookup name' = entries.lookup name' := by
  induction entries with
  | nil => rfl
  | cons entry entries ih =>
    obtain ⟨other, inner⟩ := entry
    by_cases hother : other = name
    · simp [hother, List.lookup_cons, beq_false_of_ne hne, ih]
    · simp [hother, List.lookup_cons, ih]

theorem child?_put_of_ne {name' : String} (hne : name' ≠ name) :
    (put new (name :: place) tree).child? name' = tree.child? name' := by
  cases tree with
  | file bytes => rfl
  | directory entries =>
    rw [put, child?, child?, List.lookup_cons, beq_false_of_ne hne]
    exact lookup_filter_of_ne hne entries

/-- What is put at a place, but not over a directory, leaves the other places as they were. -/
theorem sight?_put (hplace : tree.sight? place ≠ some .directory) (hne : other ≠ place)
    (h : tree.sight? other = some seen) : (put new place tree).sight? other = some seen := by
  induction place generalizing tree other with
  | nil =>
    cases tree with
    | directory entries => exact absurd rfl hplace
    | file bytes =>
      obtain ⟨name, rest, rfl⟩ := List.exists_cons_of_ne_nil hne
      simp [child?] at h
  | cons name place ih =>
    cases tree with
    | file bytes => exact h
    | directory entries =>
      cases other with
      | nil => exact h
      | cons name' other =>
        rw [sight?_cons] at h hplace ⊢
        by_cases hname : name' = name
        · subst hname
          rw [child?_put_self]
          obtain ⟨child, hchild, hseen⟩ := Option.bind_eq_some_iff.mp h
          rw [child?] at hchild
          rw [child?, hchild] at hplace
          rw [hchild]
          exact ih hplace (fun heq => hne (heq ▸ rfl)) hseen
        · rwa [child?_put_of_ne hname]

/-- What takes the place of something is seen there. -/
theorem sight?_put_self (h : (tree.sight? place).isSome = true) :
    (put new place tree).sight? place = some new.sight := by
  induction place generalizing tree with
  | nil => rfl
  | cons name place ih =>
    cases tree with
    | file bytes => simp [child?] at h
    | directory entries =>
      rw [sight?_cons, child?] at h
      rw [sight?_cons, child?_put_self]
      cases hchild : entries.lookup name with
      | none => simp [hchild] at h
      | some child =>
        rw [hchild] at h
        exact ih h

/-! ## Growing -/

/-- All that is seen in the first tree is seen in the second one too. -/
def GrowsTo (tree grown : FileTree) : Prop :=
  ∀ place seen, tree.sight? place = some seen → grown.sight? place = some seen

theorem GrowsTo.refl (tree : FileTree) : tree.GrowsTo tree := fun _ _ h => h

theorem GrowsTo.trans {further : FileTree} (h : tree.GrowsTo grown) (h' : grown.GrowsTo further) :
    tree.GrowsTo further := fun place seen hseen => h' place seen (h place seen hseen)

/-- A tree grows by what is put where nothing was. -/
theorem growsTo_put (h : tree.at? place = none) : tree.GrowsTo (put new place tree) := by
  intro other seen hseen
  have hnone := sight?_eq_none_iff.mpr h
  refine sight?_put (by simp [hnone]) (fun heq => ?_) hseen
  rw [heq, hnone] at hseen
  cases hseen

end FileTree

end Census
