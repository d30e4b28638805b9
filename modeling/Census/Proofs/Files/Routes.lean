import Mathlib.Tactic.SplitIfs
import Census.Proofs.Files.Sights

/-!
# Where paths lead

A path is followed with all directories on the way in hand. Only what is seen of them matters, so
the same path leads to the same place in a tree that has grown.

- `FileTree.route`: places on the way of a path, name by name.
- `FileTree.destination`: where a whole path leads.
- `FileTree.find?_eq_some_iff`, `FileTree.write?_eq_some_iff`, `FileTree.makeDirectory_eq_ok_iff`:
  what is done with files, in terms of places.
-/

namespace Census

/-- Where a name leads from a directory at the place. -/
def Place.next (place : Place) (name : String) : Except FileError Place :=
  if name = "" || name = "." then .ok place
  else if name = ".." then .ok place.dropLast
  else if name.utf8ByteSize > nameLimit then .error .unusable
  else .ok (place ++ [name])

/-- Upwards leads one name only. -/
theorem Place.prefix_of_next {place next : Place} {name : String} (h : place.next name = .ok next)
    (hname : name ≠ "..") : next = place ∨ next = place ++ [name] := by
  unfold Place.next at h
  split_ifs at h
  · exact .inl (Except.ok.inj h).symm
  · exact .inr (Except.ok.inj h).symm

namespace FileTree

variable {tree grown : FileTree} {place next : Place} {name : String} {names : List String}
  {directory : Place} {path : Path} {bytes : ByteArray}

/-- Follows one name from a place. -/
def enter (tree : FileTree) (place : Place) (name : String) : Except FileError Place :=
  match tree.sight? place with
  | none => .error .missing
  | some (.file _) => .error .unusable
  | some .directory => place.next name

/-- Follows names from a place. -/
def route (tree : FileTree) (place : Place) (names : List String) : Except FileError Place :=
  names.foldlM tree.enter place

theorem enter_eq_ok_iff :
    tree.enter place name = .ok next ↔
      tree.sight? place = some .directory ∧ place.next name = .ok next := by
  unfold enter
  split <;> simp_all

@[simp] theorem route_nil : tree.route place [] = .ok place := rfl

theorem route_cons_eq_ok_iff :
    tree.route place (name :: names) = .ok next ↔
      ∃ between, tree.enter place name = .ok between ∧ tree.route between names = .ok next := by
  rw [route, List.foldlM_cons]
  cases tree.enter place name with
  | error e => simp [bind, Except.bind]
  | ok between => simp [bind, Except.bind, route]

theorem route_append_eq_ok_iff {names' : List String} :
    tree.route place (names ++ names') = .ok next ↔
      ∃ between, tree.route place names = .ok between ∧ tree.route between names' = .ok next := by
  induction names generalizing place with
  | nil => simp
  | cons name names ih =>
    simp only [List.cons_append, route_cons_eq_ok_iff, ih]
    constructor
    · rintro ⟨between, henter, between', hroute, hroute'⟩
      exact ⟨between', ⟨between, henter, hroute⟩, hroute'⟩
    · rintro ⟨between', ⟨between, henter, hroute⟩, hroute'⟩
      exact ⟨between, henter, between', hroute, hroute'⟩

end FileTree

/-! ## Spots -/

/-- The spot is one of the tree: all that it holds in hand is where it says. -/
inductive Spot.Stands (tree : FileTree) : Spot → Prop
  | root : Stands tree (.root tree)
  | child {inner : FileTree} {above : List (String × FileTree)} (name : String) :
    Stands tree ⟨some inner, above⟩ → Stands tree ⟨inner.child? name, (name, inner) :: above⟩

namespace Spot.Stands

variable {tree : FileTree} {spot : Spot}

theorem here_eq (h : Stands tree spot) : spot.here = tree.at? spot.place := by
  induction h with
  | root => rfl
  | @child inner above name _ ih =>
    have hinner : tree.at? (above.map Prod.fst).reverse = some inner := ih.symm
    have hbelow : FileTree.child? inner name = inner.at? [name] := by
      rw [FileTree.at?]
      cases inner.child? name <;> rfl
    rw [Spot.place, List.map_cons, List.reverse_cons, FileTree.at?_append, hinner, Option.bind_some]
    exact hbelow

theorem up (h : Stands tree spot) : Stands tree spot.up ∧ spot.up.place = spot.place.dropLast := by
  cases h with
  | root => exact ⟨.root, rfl⟩
  | child name habove => exact ⟨habove, by simp [Spot.up, Spot.place]⟩

/-- A name leads from a spot to where it leads from its place. -/
theorem follow (h : Stands tree spot) (name : String) :
    (spot.follow name).map Spot.place = tree.enter spot.place name ∧
      ∀ next, spot.follow name = .ok next → Stands tree next := by
  have hhere := h.here_eq
  unfold Spot.follow FileTree.enter
  rw [FileTree.sight?, ← hhere]
  obtain ⟨here, above⟩ := spot
  rcases here with _ | ⟨bytes⟩ | ⟨entries⟩
  · exact ⟨rfl, fun _ hnext => by cases hnext⟩
  · exact ⟨rfl, fun _ hnext => by cases hnext⟩
  · simp only [Option.map_some, FileTree.sight, Place.next]
    split_ifs
    · exact ⟨rfl, fun _ hnext => by cases hnext; exact h⟩
    · exact ⟨congrArg Except.ok h.up.2, fun _ hnext => by cases hnext; exact h.up.1⟩
    · exact ⟨rfl, fun _ hnext => by cases hnext⟩
    · exact ⟨by simp [Except.map, Spot.place], fun _ hnext => by cases hnext; exact .child name h⟩

/-- Names lead from a spot to where they lead from its place. -/
theorem foldlM_follow (h : Stands tree spot) (names : List String) :
    (names.foldlM Spot.follow spot).map Spot.place = tree.route spot.place names ∧
      ∀ last, names.foldlM Spot.follow spot = .ok last → Stands tree last := by
  induction names generalizing spot with
  | nil => exact ⟨rfl, fun _ hlast => by cases hlast; exact h⟩
  | cons name names ih =>
    obtain ⟨hplace, hstands⟩ := h.follow name
    rw [FileTree.route, List.foldlM_cons, List.foldlM_cons, ← hplace]
    cases hnext : spot.follow name with
    | error e => exact ⟨rfl, fun _ hlast => by cases hlast⟩
    | ok next => exact ih (hstands next hnext)

end Spot.Stands

namespace FileTree

variable {tree grown : FileTree} {place next : Place} {name : String} {names : List String}
  {directory : Place} {path : Path} {bytes : ByteArray}

/-! ## Whole paths -/

/-- The names in front of those of a path that is followed from a directory. -/
def base (directory : Place) (path : Path) : List String :=
  if path.rooted then [] else directory

/-- Where a path leads from a working directory. -/
def destination (tree : FileTree) (directory : Place) (path : Path) : Except FileError Place :=
  if path = .empty then .error .missing
  else if !isFollowable path then .error .unusable
  else tree.route [] (base directory path ++ path.names)

theorem destination_eq_ok_iff :
    tree.destination directory path = .ok place ↔
      path ≠ .empty ∧ isFollowable path = true ∧
        tree.route [] (base directory path ++ path.names) = .ok place := by
  unfold destination
  split_ifs <;> simp_all

/-- A path leads to a spot at its destination. -/
theorem locate_spec (tree : FileTree) (directory : Place) (path : Path) :
    (tree.locate directory path).map Spot.place = tree.destination directory path ∧
      ∀ spot, tree.locate directory path = .ok spot → spot.here = tree.at? spot.place := by
  have hlocate : tree.locate directory path =
      if path = .empty then .error .missing
      else if !isFollowable path then .error .unusable
      else (base directory path ++ path.names).foldlM Spot.follow (.root tree) := by
    unfold locate base
    cases path.rooted <;> rfl
  rw [hlocate, destination]
  split_ifs
  · exact ⟨rfl, fun _ hspot => by cases hspot⟩
  · exact ⟨rfl, fun _ hspot => by cases hspot⟩
  · have hroot : Spot.Stands tree (.root tree) := .root
    obtain ⟨hplace, hstands⟩ := hroot.foldlM_follow (base directory path ++ path.names)
    exact ⟨hplace, fun spot hspot => (hstands spot hspot).here_eq⟩

/-- Where a path leads, and what stands there. -/
theorem locate_cases (tree : FileTree) (directory : Place) (path : Path) :
    (∃ error, tree.locate directory path = .error error ∧
      tree.destination directory path = .error error) ∨
    ∃ spot, tree.locate directory path = .ok spot ∧
      tree.destination directory path = .ok spot.place ∧ spot.here = tree.at? spot.place := by
  obtain ⟨hplace, hhere⟩ := tree.locate_spec directory path
  cases hlocate : tree.locate directory path with
  | error error => exact .inl ⟨error, rfl, by rw [← hplace, hlocate]; rfl⟩
  | ok spot => exact .inr ⟨spot, rfl, by rw [← hplace, hlocate]; rfl, hhere spot hlocate⟩

theorem find?_eq_some_iff {inner : FileTree} :
    tree.find? directory path = some inner ↔
      ∃ place, tree.destination directory path = .ok place ∧ tree.at? place = some inner := by
  unfold find?
  rcases tree.locate_cases directory path with ⟨_, hlocate, hplace⟩ | ⟨spot, hlocate, hplace, hhere⟩
  · simp [hlocate, hplace]
  · simp [hlocate, hplace, hhere]

theorem isDirectory_iff :
    tree.isDirectory directory path = true ↔
      ∃ place, tree.destination directory path = .ok place ∧
        tree.sight? place = some .directory := by
  simp only [sight?_eq_directory_iff, isDirectory]
  constructor
  · intro h
    split at h
    · next entries hfind =>
      obtain ⟨place, hplace, hentries⟩ := find?_eq_some_iff.mp hfind
      exact ⟨place, hplace, entries, hentries⟩
    · cases h
  · rintro ⟨place, hplace, entries, hentries⟩
    rw [find?_eq_some_iff.mpr ⟨place, hplace, hentries⟩]

/-- Files are written over nothing and over files. -/
theorem write?_eq_some_iff :
    tree.write? directory path bytes = some grown ↔
      ∃ place, tree.destination directory path = .ok place ∧
        tree.sight? place ≠ some .directory ∧ grown = put (.file bytes) place tree := by
  unfold write?
  rcases tree.locate_cases directory path with ⟨_, hlocate, hplace⟩ | ⟨spot, hlocate, hplace, hhere⟩
  · simp [hlocate, hplace]
  · rcases hat : tree.at? spot.place with _ | ⟨_ | _⟩ <;>
      simp [hlocate, hplace, hhere, hat, sight?, sight, eq_comm]

/-- Directories are made over nothing. -/
theorem makeDirectory_eq_ok_iff :
    tree.makeDirectory directory path = .ok grown ↔
      isFollowable path = true ∧ ∃ place,
        tree.destination directory (withoutTrailing path) = .ok place ∧
          tree.at? place = none ∧ grown = put emptyDirectory place tree := by
  unfold makeDirectory
  cases hfollowable : isFollowable path
  · simp [throw, throwThe, MonadExceptOf.throw, bind, Except.bind]
  rcases tree.locate_cases directory (withoutTrailing path) with
    ⟨_, hlocate, hplace⟩ | ⟨spot, hlocate, hplace, hhere⟩
  · simp [hlocate, hplace, bind, Except.bind]
  · cases hat : tree.at? spot.place <;>
      simp [hlocate, hplace, hhere, hat, pure, Except.pure, bind, Except.bind, eq_comm]

end FileTree

end Census
