import Mathlib.Data.List.Induction
import Mathlib.Logic.Function.Basic
import Census.Proofs.Files.Changes

/-!
# Inside of a directory

Where the names of a place lead to a directory there, paths below it are easily told: each is the
names of the place and those behind them, and one more name leads one step down. What is made or
written right below such a place is the one thing more that the tree has afterwards.

- `FileTree.Reaches`: places of directories whose names lead there.
- `FileTree.Gains`, `FileTree.Provides`: trees with one thing more.
- `FileTree.Reaches.join_eq`, `FileTree.Reaches.destination_iff`: paths below such a place.
- `FileTree.Reaches.find?_eq_none_iff`, `FileTree.Reaches.write?_cases`,
  `FileTree.Reaches.makeDirectories_cases`: what is found, written and made right below it.
-/

namespace Census.FileTree

variable {tree grown : FileTree} {place next : Place} {name : String} {names : List String}
  {directory : Place} {path : Path} {bytes : ByteArray}

/-- The names of the place lead from the root to it, and it is one of a directory. -/
structure Reaches (tree : FileTree) (place : Place) : Prop where
  route : tree.route [] place = .ok place
  isDirectory : tree.sight? place = some .directory

/-- The name is one for things in directories: it leads one step down, wherever that is. -/
def IsPlain (name : String) : Prop := ∀ place : Place, place.next name = .ok (place ++ [name])

/-- Names that stand for directories around, and names that are too long, are not plain. -/
theorem isPlain_iff :
    IsPlain name ↔ name ≠ "" ∧ name ≠ "." ∧ name ≠ ".." ∧ name.utf8ByteSize ≤ nameLimit := by
  constructor
  · intro h
    have hroot := h []
    unfold Place.next at hroot
    split_ifs at hroot <;> simp_all
  · rintro ⟨hempty, hdot, hdots, hlength⟩ place
    unfold Place.next
    rw [if_neg (by simp [hempty, hdot]), if_neg hdots, if_neg (Nat.not_lt.mpr hlength)]

/-- Each name leads at most one step down. -/
theorem length_le_of_route (h : tree.route place names = .ok next) :
    next.length ≤ place.length + names.length := by
  induction names generalizing place with
  | nil => cases h; exact Nat.le_refl _
  | cons name names ih =>
    obtain ⟨between, henter, hroute⟩ := route_cons_eq_ok_iff.mp h
    have hbetween : between.length ≤ place.length + 1 := by
      rcases enter_cases henter with hdirectory | ⟨-, rfl⟩
      · have hnext := (enter_eq_ok_iff.mp henter).2
        unfold Place.next at hnext
        split_ifs at hnext <;> cases hnext <;> simp
        omega
      · simp
    have hlength := ih hroute
    rw [List.length_cons]
    omega

/-- A directory that cannot be made for want of another one stands on the way to nowhere. -/
theorem destination_of_missing (h : tree.makeDirectory directory path = .error .missing) :
    isFollowable path = true ∧
      tree.destination directory (withoutTrailing path) = .error .missing := by
  unfold makeDirectory at h
  cases hfollowable : isFollowable path with
  | false => simp [hfollowable, throw, throwThe, MonadExceptOf.throw, bind, Except.bind] at h
  | true =>
    refine ⟨rfl, ?_⟩
    rcases tree.locate_cases directory (withoutTrailing path) with
      ⟨error, hlocate, hplace⟩ | ⟨spot, hlocate, -, -⟩
    · rw [hplace]
      simpa [hfollowable, hlocate, pure, Except.pure, bind, Except.bind] using h
    · cases hhere : spot.here <;>
        simp [hfollowable, hlocate, hhere, pure, Except.pure, bind, Except.bind] at h

/-! ## One thing more -/

/-- The second tree has one thing more than the first one. -/
def Gains (tree : FileTree) (place : Place) (seen : Sight) (grown : FileTree) : Prop :=
  tree.sight? place = none ∧ grown.sight? = Function.update tree.sight? place (some seen)

namespace Gains

variable {other : Place} {seen : Sight} (h : tree.Gains place seen grown)
include h

theorem sight?_self : grown.sight? place = some seen := by
  rw [h.2, Function.update_self]

/-- Elsewhere nothing has changed. -/
theorem sight?_of_ne (hne : other ≠ place) : grown.sight? other = tree.sight? other := by
  rw [h.2, Function.update_of_ne hne]

/-- What there was is still there. -/
theorem growsTo : tree.GrowsTo grown := by
  intro other seen' hseen
  have hne : other ≠ place := fun heq => by simp [heq, h.1] at hseen
  rwa [h.sight?_of_ne hne]

theorem sameFilesBut : tree.SameFilesBut [place] grown := by
  intro other hother bytes
  rw [← sight?_eq_file_iff, ← sight?_eq_file_iff,
    h.sight?_of_ne fun heq => hother (heq ▸ List.mem_singleton_self _)]

end Gains

/-- What is put into a directory where nothing was is the one thing more. -/
theorem gains_put {above : Place} {new : FileTree} (habove : tree.sight? above = some .directory)
    (hnone : tree.sight? (above ++ [name]) = none)
    (hbelow : ∀ name below, new.sight? (name :: below) = none) :
    tree.Gains (above ++ [name]) new.sight (put new (above ++ [name]) tree) := by
  refine ⟨hnone, funext fun other => ?_⟩
  by_cases hother : other = above ++ [name]
  · rw [hother, Function.update_self, sight?, at?_put_child habove, Option.map_some]
  · rw [Function.update_of_ne hother]
    refine Option.ext fun seen => ⟨fun hafter => ?_, fun hbefore =>
      growsTo_put (sight?_eq_none_iff.mp hnone) _ _ hbefore⟩
    rcases sight?_of_put hafter with hbefore | ⟨_ | ⟨name', below⟩, rfl, hnew⟩ | ⟨rfl, hway⟩
    · exact hbefore
    · exact absurd (List.append_nil _) hother
    · rw [hbelow] at hnew
      cases hnew
    · -- the directories on the way are there
      exact sight?_of_way habove ((List.prefix_concat_iff.mp hway).resolve_left hother)

/-- The place is one of a directory in the second tree, which is all that may be new in it. -/
def Provides (tree : FileTree) (place : Place) (grown : FileTree) : Prop :=
  (grown = tree ∧ tree.sight? place = some .directory) ∨ tree.Gains place .directory grown

namespace Provides

variable {other : Place} (h : tree.Provides place grown)
include h

theorem sight?_self : grown.sight? place = some .directory := by
  rcases h with ⟨rfl, hdirectory⟩ | hgains
  · exact hdirectory
  · exact hgains.sight?_self

theorem sight?_of_ne (hne : other ≠ place) : grown.sight? other = tree.sight? other := by
  rcases h with ⟨rfl, -⟩ | hgains
  · rfl
  · exact hgains.sight?_of_ne hne

theorem growsTo : tree.GrowsTo grown := by
  rcases h with ⟨rfl, -⟩ | hgains
  · exact .refl _
  · exact hgains.growsTo

theorem sameFiles : tree.SameFilesBut [] grown := by
  intro other _ bytes
  rw [← sight?_eq_file_iff, ← sight?_eq_file_iff]
  refine ⟨h.growsTo _ _, fun hafter => ?_⟩
  have hne : other ≠ place := fun heq => by simp [heq, h.sight?_self] at hafter
  rwa [h.sight?_of_ne hne] at hafter

end Provides

/-! ## Paths into a directory -/

namespace Reaches

variable (h : tree.Reaches place)
include h

/-- More in the tree does not lead astray. -/
theorem mono (hgrows : tree.GrowsTo grown) : grown.Reaches place :=
  ⟨hgrows.route h.route, hgrows _ _ h.isDirectory⟩

/-- The last name of the place is plain. -/
theorem isPlain_of_concat {above : Place} (hplace : place = above ++ [name]) : IsPlain name := by
  subst hplace
  obtain ⟨between, habove, hlast⟩ := route_append_eq_ok_iff.mp h.route
  obtain ⟨next, henter, hnext⟩ := route_cons_eq_ok_iff.mp hlast
  obtain rfl : next = above ++ [name] := Except.ok.inj hnext
  have hlength := length_le_of_route habove
  have hnext := (enter_eq_ok_iff.mp henter).2
  intro other
  unfold Place.next at hnext ⊢
  split_ifs at hnext with hempty hdots hlong
  · -- a name that leads nowhere would leave too few names
    rw [Except.ok.inj hnext] at hlength
    simp only [List.length_append, List.length_cons, List.length_nil] at hlength
    omega
  · have hlengths := congrArg List.length (Except.ok.inj hnext)
    simp at hlengths hlength
    omega
  · rw [if_neg hempty, if_neg hdots, if_neg hlong]

/-- A path seen from the place is written behind its names. -/
theorem join_eq {right : Path} (hrooted : right.rooted = false) (hnames : right.names ≠ []) :
    Path.join ⟨true, place⟩ right = ⟨true, place ++ right.names⟩ := by
  have hlast : place.getLast? ≠ some "" := by
    intro hempty
    obtain ⟨above, hplace⟩ := List.getLast?_eq_some_iff.mp hempty
    exact (isPlain_iff.mp (h.isPlain_of_concat hplace)).1 rfl
  have hsome : right.names.isEmpty = false := by simpa using hnames
  unfold Path.join
  rw [if_neg (by simp [hrooted, Path.empty])]
  by_cases hroot : (⟨true, place⟩ : Path) = .root
  · obtain rfl : place = [] := congrArg Path.names hroot
    rw [if_pos hroot]
    rfl
  · simp [hroot, hlast, hsome]

/-- The directory has the last name of the place. -/
theorem fileName?_eq : Path.fileName? ⟨true, place⟩ = place.getLast? := by
  rcases List.eq_nil_or_concat' place with rfl | ⟨above, name, rfl⟩
  · rfl
  · obtain ⟨hempty, hdot, hdots, -⟩ := isPlain_iff.mp (h.isPlain_of_concat rfl)
    simp [Path.fileName?, Path.trim, Path.isComponent, hempty, hdot, hdots]

/-- Behind the names of the place the other names are followed from there. -/
theorem destination_iff :
    tree.destination directory ⟨true, place ++ names⟩ = .ok next ↔
      isFollowable ⟨true, place ++ names⟩ = true ∧ tree.route place names = .ok next := by
  rw [destination_eq_ok_iff, base, if_pos rfl, List.nil_append, route_append_eq_ok_iff]
  constructor
  · rintro ⟨-, hfollowable, between, hplace, hnames⟩
    obtain rfl : place = between := Except.ok.inj (h.route.symm.trans hplace)
    exact ⟨hfollowable, hnames⟩
  · rintro ⟨hfollowable, hnames⟩
    exact ⟨by simp [Path.empty], hfollowable, place, h.route, hnames⟩

/-- A plain name leads one step down. -/
theorem route_one (hname : IsPlain name) : tree.route place [name] = .ok (place ++ [name]) :=
  route_cons_eq_ok_iff.mpr ⟨_, enter_eq_ok_iff.mpr ⟨h.isDirectory, hname place⟩, rfl⟩

/-- So a directory right below is reached as well. -/
theorem below (hname : IsPlain name)
    (hdirectory : tree.sight? (place ++ [name]) = some .directory) :
    tree.Reaches (place ++ [name]) :=
  ⟨route_append_eq_ok_iff.mpr ⟨place, h.route, h.route_one hname⟩, hdirectory⟩

/-- What is not found is not there, or its path is none that is followed. -/
theorem find?_eq_none_iff (hname : IsPlain name) :
    tree.find? directory ⟨true, place ++ [name]⟩ = none ↔
      isFollowable ⟨true, place ++ [name]⟩ = false ∨ tree.sight? (place ++ [name]) = none := by
  rw [sight?_eq_none_iff, Option.eq_none_iff_forall_ne_some]
  simp only [ne_eq, find?_eq_some_iff, h.destination_iff, h.route_one hname, Except.ok.injEq]
  cases isFollowable ⟨true, place ++ [name]⟩ <;> simp [Option.eq_none_iff_forall_ne_some]

/-- A file in the directory is read. -/
theorem read?_eq_some (hname : IsPlain name)
    (hfollowable : isFollowable ⟨true, place ++ [name]⟩ = true)
    (hfile : tree.at? (place ++ [name]) = some (.file bytes)) :
    tree.read? directory ⟨true, place ++ [name]⟩ = some bytes := by
  rw [read?, find?_eq_some_iff.mpr
    ⟨_, h.destination_iff.mpr ⟨hfollowable, h.route_one hname⟩, hfile⟩]

/-- What is not found can be written, unless its path is none that is followed. -/
theorem write?_cases (hname : IsPlain name)
    (hnone : tree.find? directory ⟨true, place ++ [name]⟩ = none) :
    (tree.write? directory ⟨true, place ++ [name]⟩ bytes = none ∧
      isFollowable ⟨true, place ++ [name]⟩ = false) ∨
    ∃ grown, tree.write? directory ⟨true, place ++ [name]⟩ bytes = some grown ∧
      isFollowable ⟨true, place ++ [name]⟩ = true ∧
      tree.Gains (place ++ [name]) (.file bytes) grown := by
  cases hfollowable : isFollowable ⟨true, place ++ [name]⟩ with
  | false =>
    refine .inl ⟨Option.eq_none_iff_forall_ne_some.mpr fun grown hwrite => ?_, rfl⟩
    obtain ⟨next, hnext, -⟩ := write?_eq_some_iff.mp hwrite
    cases hfollowable.symm.trans (h.destination_iff.mp hnext).1
  | true =>
    have hplace : tree.sight? (place ++ [name]) = none :=
      ((h.find?_eq_none_iff hname).mp hnone).resolve_left (by simp [hfollowable])
    refine .inr ⟨put (.file bytes) (place ++ [name]) tree, write?_eq_some_iff.mpr
      ⟨_, h.destination_iff.mpr ⟨hfollowable, h.route_one hname⟩, ?_, rfl⟩, rfl, ?_⟩
    · simp [hplace]
    · exact gains_put h.isDirectory hplace fun _ _ => rfl

/-- A directory right below is there or is made, unless its path is none that is followed or a file
is in its place. -/
theorem makeDirectories_cases (hname : IsPlain name) (directory : Place) :
    let path : Path := ⟨true, place ++ [name]⟩
    (tree.makeDirectories directory path = (tree, false) ∧
      (isFollowable path = false ∨ ∃ bytes, tree.sight? (place ++ [name]) = some (.file bytes))) ∨
    ∃ grown, tree.makeDirectories directory path = (grown, true) ∧
      tree.Provides (place ++ [name]) grown := by
  intro path
  have hempty : path ≠ .empty := by simp [path, Path.empty]
  have htrailing : withoutTrailing path = path := by
    have hlast : ¬ (name == "") = true := by simpa using (isPlain_iff.mp hname).1
    simp [path, withoutTrailing, hlast]
  have hdestination {next : Place} (hnext : tree.destination directory path = .ok next) :
      next = place ++ [name] :=
    Except.ok.inj ((h.destination_iff.mp hnext).2.symm.trans (h.route_one hname))
  have hsomewhere (hfollowable : isFollowable path = true) :
      tree.destination directory path = .ok (place ++ [name]) :=
    h.destination_iff.mpr ⟨hfollowable, h.route_one hname⟩
  obtain ⟨above, habove⟩ := path.exists_chain_eq
  rw [makeDirectories, habove, makeChain, if_neg hempty]
  split
  · next grown hmade =>
    obtain ⟨-, next, hnext, hnone, rfl⟩ := makeDirectory_eq_ok_iff.mp hmade
    rw [htrailing] at hnext
    obtain rfl := hdestination hnext
    exact .inr ⟨_, rfl, .inr <| gains_put h.isDirectory (sight?_eq_none_iff.mpr hnone)
      fun _ _ => rfl⟩
  · next hrefused =>
    cases hthere : tree.isDirectory directory path with
    | false =>
      refine .inl ⟨rfl, or_iff_not_imp_left.mpr fun hfollowable => ?_⟩
      rw [Bool.not_eq_false] at hfollowable
      -- it would have been made if nothing were in its place
      cases hseen : tree.sight? (place ++ [name]) with
      | none =>
        have hmade := makeDirectory_eq_ok_iff.mpr ⟨hfollowable, place ++ [name],
          htrailing.symm ▸ hsomewhere hfollowable, sight?_eq_none_iff.mp hseen, rfl⟩
        cases hrefused.symm.trans hmade
      | some seen =>
        cases seen with
        | file bytes => exact ⟨bytes, rfl⟩
        | directory =>
          have hfound := isDirectory_iff.mpr ⟨_, hsomewhere hfollowable, hseen⟩
          cases hthere.symm.trans hfound
    | true =>
      obtain ⟨next, hnext, hdirectory⟩ := isDirectory_iff.mp hthere
      obtain rfl := hdestination hnext
      exact .inr ⟨tree, rfl, .inl ⟨rfl, hdirectory⟩⟩
  · next hmissing =>
    obtain ⟨hfollowable, hnowhere⟩ := destination_of_missing hmissing
    rw [htrailing] at hnowhere
    cases (hsomewhere hfollowable).symm.trans hnowhere

end Reaches

/-- Plain names lead to the directory that they are the place of. -/
theorem reaches_of_isPlain (hnames : ∀ name ∈ place, IsPlain name)
    (hdirectory : tree.sight? place = some .directory) : tree.Reaches place := by
  induction place using List.reverseRecOn with
  | nil => exact ⟨rfl, hdirectory⟩
  | append_singleton above name ih =>
    have habove : tree.sight? above = some .directory :=
      sight?_eq_directory_of_append (by rw [hdirectory]; rfl)
    exact (ih (fun other hother => hnames other (List.mem_append_left _ hother)) habove).below
      (hnames name List.mem_concat_self) hdirectory

end Census.FileTree
