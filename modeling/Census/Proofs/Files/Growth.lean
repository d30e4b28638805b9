import Mathlib.Data.List.Basic
import Census.Proofs.Files.Routes

/-!
# Growing file trees

Making directories takes nothing away. A path that leads somewhere still leads there when the tree
has grown, and a path without `..` that leads to something old in a grown tree has led there before.

- `FileTree.GrowsTo.route`: paths in a grown tree.
- `FileTree.makeChain_induction`, `FileTree.makeDirectories_growsTo`: nothing gets lost when
  directories are made.
- `FileTree.exists_find?_of_inside`: the directory of something old was found before.
-/

namespace Census

namespace Path

variable {path : Path}

theorem ofText_ne_empty {text : String} (h : text ≠ "") : ofText text ≠ .empty := by
  intro heq
  unfold ofText at heq
  split at heq
  · next hnil => exact h (String.toList_eq_nil_iff.mp hnil)
  · cases heq
  · cases heq
  · have hnames : (splitSlashes text.toList).map String.ofList = [] := congrArg names heq
    unfold splitSlashes at hnames
    split at hnames
    · cases hnames
    · split_ifs at hnames
      · cases hnames
      · split at hnames <;> cases hnames

theorem exists_chain_eq (path : Path) : ∃ above, path.chain = path :: above := by
  rw [chain]
  split <;> exact ⟨_, rfl⟩

/-- A parent starts where the path does. -/
theorem rooted_of_mem_chain {other : Path} (h : other ∈ path.chain) :
    other.rooted = path.rooted := by
  induction path using Path.chain.induct with
  | case1 path hparent =>
    rw [chain] at h
    split at h <;> simp_all
  | case2 path parent hparent ih =>
    rw [chain] at h
    split at h
    · simp_all
    · next parent' hparent' =>
      obtain rfl : parent = parent' := by simpa [hparent] using hparent'
      have hrooted : parent.rooted = path.rooted := by
        unfold parent? at hparent
        split at hparent <;> cases hparent
        rfl
      rcases List.mem_cons.mp h with rfl | h
      · rfl
      · exact (ih h).trans hrooted

/-- A name behind a path. A slash at the end of the path is the one in between. -/
theorem join_name (path : Path) (name : String) :
    ∃ front, path.join ⟨false, [name]⟩ = ⟨path.rooted, front ++ [name]⟩ ∧
      (path.names = front ∨ path.names = front ++ [""]) := by
  by_cases hempty : path = .empty
  · subst hempty
    exact ⟨[], rfl, .inl rfl⟩
  by_cases hroot : path = .root
  · subst hroot
    exact ⟨[], rfl, .inl rfl⟩
  have hjoin : path.join ⟨false, [name]⟩ = ⟨path.rooted,
      (if path.names.getLast? = some "" then path.names.dropLast else path.names) ++ [name]⟩ := by
    simp [join, hempty, hroot]
  refine ⟨_, hjoin, ?_⟩
  split_ifs with hlast
  · exact .inr (List.dropLast_append_getLast? _ hlast).symm
  · exact .inl rfl

end Path

namespace FileTree

variable {tree grown : FileTree} {place next : Place} {name : String} {names : List String}
  {directory : Place} {path : Path} {bytes : ByteArray}

/-! ## Growing trees -/

/-- Only directories are on the way of a path: it leads to the same place where they all still
are. -/
theorem route_of_directories
    (h : ∀ place, tree.sight? place = some .directory → grown.sight? place = some .directory)
    (hroute : tree.route place names = .ok next) : grown.route place names = .ok next := by
  induction names generalizing place with
  | nil => exact hroute
  | cons name names ih =>
    obtain ⟨between, henter, hroute⟩ := route_cons_eq_ok_iff.mp hroute
    obtain ⟨hplace, hnext⟩ := enter_eq_ok_iff.mp henter
    exact route_cons_eq_ok_iff.mpr ⟨between, enter_eq_ok_iff.mpr ⟨h place hplace, hnext⟩, ih hroute⟩

/-- What a path leads to, it still leads to when the tree has grown. -/
theorem GrowsTo.route (h : tree.GrowsTo grown) (hroute : tree.route place names = .ok next) :
    grown.route place names = .ok next :=
  route_of_directories (fun place hplace => h place .directory hplace) hroute

theorem makeDirectory_growsTo (h : tree.makeDirectory directory path = .ok grown) :
    tree.GrowsTo grown := by
  obtain ⟨-, place, -, hnone, rfl⟩ := makeDirectory_eq_ok_iff.mp h
  exact growsTo_put hnone

/-- What holds of a tree and of all that single directories make of it holds of what is left when
directories are made, whether all of them could be made or not. -/
theorem makeChain_induction {motive : FileTree → Prop} (htree : motive tree)
    (hmake : ∀ {tree path grown}, motive tree → tree.makeDirectory directory path = .ok grown →
      motive grown)
    (chain : List Path) : motive (tree.makeChain directory chain).1 := by
  induction chain with
  | nil => exact htree
  | cons path above ih =>
    rw [makeChain]
    split_ifs
    · exact htree
    split
    · next hmade => exact hmake htree hmade
    · exact htree
    · split
      · next heq => exact heq ▸ ih
      · next heq =>
        rw [heq] at ih
        split
        · next hmade => exact hmake ih hmade
        · exact ih

/-- Making directories takes nothing away. -/
theorem makeDirectories_growsTo (tree : FileTree) (directory : Place) (path : Path) :
    tree.GrowsTo (tree.makeDirectories directory path).1 :=
  makeChain_induction (.refl tree) (fun h hmade => h.trans (makeDirectory_growsTo hmade)) _

/-- A tree grows by a file that was not there. -/
theorem growsTo_of_write?_eq_some (h : tree.write? directory path bytes = some grown)
    (hnone : tree.find? directory path = none) : tree.GrowsTo grown := by
  obtain ⟨place, hplace, -, rfl⟩ := write?_eq_some_iff.mp h
  refine growsTo_put (Option.eq_none_iff_forall_ne_some.mpr fun inner hinner => ?_)
  rw [find?_eq_some_iff.mpr ⟨place, hplace, hinner⟩] at hnone
  cases hnone

/-! ## Directories that can be made -/

/-- A directory that can be had is made or is there, perhaps once those above it are made. -/
theorem exists_of_makeChain {above : List Path} (hpath : path ≠ .empty)
    (h : (tree.makeChain directory (path :: above)).2 = true) :
    ∃ between, (between = tree ∨ between = (tree.makeChain directory above).1) ∧
      ((∃ grown, between.makeDirectory directory path = .ok grown) ∨
        between.isDirectory directory path = true) := by
  rw [makeChain, if_neg hpath] at h
  split at h
  · next hmade => exact ⟨tree, .inl rfl, .inl ⟨_, hmade⟩⟩
  · exact ⟨tree, .inl rfl, .inr h⟩
  · split at h
    · cases h
    · next between heq =>
      refine ⟨between, .inr (heq ▸ rfl), ?_⟩
      split at h
      · next hmade => exact .inl ⟨_, hmade⟩
      · exact .inr h

theorem isFollowable_of_makeDirectories (hpath : path ≠ .empty)
    (h : (tree.makeDirectories directory path).2 = true) : isFollowable path = true := by
  obtain ⟨above, habove⟩ := path.exists_chain_eq
  rw [makeDirectories, habove] at h
  obtain ⟨between, -, ⟨grown, hmade⟩ | hdirectory⟩ := exists_of_makeChain hpath h
  · exact (makeDirectory_eq_ok_iff.mp hmade).1
  · obtain ⟨place, hplace, -⟩ := isDirectory_iff.mp hdirectory
    exact (destination_eq_ok_iff.mp hplace).2.1

/-- Without a working directory, only rooted paths lead somewhere. -/
theorem destination_ne_ok (hlost : ∀ start, tree.route [] directory ≠ .ok start)
    (hrooted : path.rooted = false) : tree.destination directory path ≠ .ok place := by
  intro h
  obtain ⟨-, -, hroute⟩ := destination_eq_ok_iff.mp h
  rw [base, hrooted] at hroute
  obtain ⟨start, hstart, -⟩ := route_append_eq_ok_iff.mp hroute
  exact hlost start hstart

theorem makeDirectory_ne_ok (hlost : ∀ start, tree.route [] directory ≠ .ok start)
    (hrooted : path.rooted = false) : tree.makeDirectory directory path ≠ .ok grown := by
  intro hmade
  obtain ⟨-, place, hplace, -⟩ := makeDirectory_eq_ok_iff.mp hmade
  exact destination_ne_ok hlost (show (withoutTrailing path).rooted = false from hrooted) hplace

theorem makeChain_eq_self (hlost : ∀ start, tree.route [] directory ≠ .ok start)
    {chain : List Path} (hrooted : ∀ path ∈ chain, path.rooted = false) :
    (tree.makeChain directory chain).1 = tree := by
  induction chain with
  | nil => rfl
  | cons path above ih =>
    have hpath := hrooted path List.mem_cons_self
    have ih := ih fun path hpath => hrooted path (List.mem_cons_of_mem _ hpath)
    rw [makeChain]
    split_ifs
    · rfl
    split
    · next hmade => exact absurd hmade (makeDirectory_ne_ok hlost hpath)
    · rfl
    · split
      · next heq => exact heq ▸ ih
      · next heq =>
        obtain rfl : _ = tree := heq ▸ ih
        split
        · next hmade => exact absurd hmade (makeDirectory_ne_ok hlost hpath)
        · rfl

/-- Only a working directory that is there gets directories. -/
theorem exists_start_of_makeDirectories (hpath : path ≠ .empty) (hrooted : path.rooted = false)
    (h : (tree.makeDirectories directory path).2 = true) :
    ∃ start, tree.route [] directory = .ok start := by
  by_contra hnone
  have hlost : ∀ start, tree.route [] directory ≠ .ok start := fun start hstart =>
    hnone ⟨start, hstart⟩
  obtain ⟨above, habove⟩ := path.exists_chain_eq
  have hsame : (tree.makeChain directory above).1 = tree :=
    makeChain_eq_self hlost fun other hother =>
      (Path.rooted_of_mem_chain (habove ▸ List.mem_cons_of_mem _ hother)).trans hrooted
  rw [makeDirectories, habove] at h
  obtain ⟨between, hbetween, hends⟩ := exists_of_makeChain hpath h
  obtain rfl : between = tree := hbetween.elim id fun heq => heq.trans hsame
  rcases hends with ⟨grown, hmade⟩ | hdirectory
  · exact makeDirectory_ne_ok hlost hrooted hmade
  · obtain ⟨place, hplace, -⟩ := isDirectory_iff.mp hdirectory
    exact destination_ne_ok hlost hrooted hplace

/-! ## Paths into a directory -/

theorem prefix_of_route (hnames : ".." ∉ names) (h : tree.route place names = .ok next) :
    place <+: next := by
  induction names generalizing place with
  | nil => cases h; exact List.prefix_rfl
  | cons name names ih =>
    obtain ⟨between, henter, hroute⟩ := route_cons_eq_ok_iff.mp h
    have hbelow := ih (List.not_mem_of_not_mem_cons hnames) hroute
    rcases Place.prefix_of_next (enter_eq_ok_iff.mp henter).2 (List.ne_of_not_mem_cons hnames).symm
      with rfl | rfl
    · exact hbelow
    · exact (List.prefix_append _ _).trans hbelow

/-- The way down to something that was there before was there as well. -/
theorem route_of_inside (hnames : ".." ∉ names) (h : grown.route place names = .ok next)
    (hinside : (tree.sight? (next ++ [name])).isSome = true) :
    tree.route place names = .ok next := by
  induction names generalizing place with
  | nil => exact h
  | cons first names ih =>
    obtain ⟨between, henter, hroute⟩ := route_cons_eq_ok_iff.mp h
    obtain ⟨rest, rfl⟩ := prefix_of_route hnames h
    have hdirectory : tree.sight? place = some .directory := by
      rw [List.append_assoc] at hinside
      cases rest <;> exact sight?_eq_directory_of_append hinside
    refine route_cons_eq_ok_iff.mpr ⟨between, ?_, ih (List.not_mem_of_not_mem_cons hnames) hroute⟩
    exact enter_eq_ok_iff.mpr ⟨hdirectory, (enter_eq_ok_iff.mp henter).2⟩

/-- A last name that is no dots leads to a place that ends with it. -/
theorem exists_above_of_route (hname : ∀ place : Place, place.next name = .ok (place ++ [name]))
    (h : tree.route place (names ++ [name]) = .ok next) :
    ∃ above, tree.route place names = .ok above ∧ next = above ++ [name] := by
  obtain ⟨above, habove, hlast⟩ := route_append_eq_ok_iff.mp h
  obtain ⟨next', henter, hnext⟩ := route_cons_eq_ok_iff.mp hlast
  have heq := (enter_eq_ok_iff.mp henter).2
  rw [hname] at heq
  exact ⟨above, habove, Except.ok.inj (hnext.symm.trans (congrArg _ (Except.ok.inj heq).symm))⟩

/-- Where the last name of a path without `..` leads to something old, the rest of the path led to
something before. -/
theorem exists_find?_of_inside (hgrows : tree.GrowsTo grown)
    (hstart : path.rooted = false → ∃ start, tree.route [] directory = .ok start)
    (hpath : path ≠ .empty) (hfollowable : isFollowable path = true) (hup : ".." ∉ path.names)
    (hname : ∀ place : Place, place.next name = .ok (place ++ [name]))
    (hplace : grown.destination directory (path.join ⟨false, [name]⟩) = .ok place)
    (hinside : (tree.sight? place).isSome = true) :
    ∃ inner, tree.find? directory path = some inner := by
  obtain ⟨front, hjoin, hfront⟩ := path.join_name name
  have hup' : ".." ∉ front := fun h => hup (by rcases hfront with h' | h' <;> simp [h', h])
  -- both paths start at the root or in the working directory
  obtain ⟨start, hstart⟩ : ∃ start, tree.route [] (base directory path) = .ok start := by
    unfold base
    split_ifs with hrooted
    · exact ⟨[], rfl⟩
    · exact hstart (by simpa using hrooted)
  obtain ⟨-, -, hroute⟩ := destination_eq_ok_iff.mp hplace
  rw [hjoin] at hroute
  obtain ⟨start', hstart', hroute⟩ := route_append_eq_ok_iff.mp hroute
  obtain rfl : start = start' := Except.ok.inj ((hgrows.route hstart).symm.trans hstart')
  -- the place is right below the one that the rest of the path leads to
  obtain ⟨above, hfrontRoute, rfl⟩ := exists_above_of_route hname hroute
  have hdirectory := sight?_eq_directory_of_append hinside
  have hdown := route_of_inside hup' hfrontRoute hinside
  have hnames : tree.route start path.names = .ok above := by
    rcases hfront with hfront | hfront
    · rwa [hfront]
    · rw [hfront]
      refine route_append_eq_ok_iff.mpr ⟨above, hdown, route_cons_eq_ok_iff.mpr ⟨above, ?_, rfl⟩⟩
      exact enter_eq_ok_iff.mpr ⟨hdirectory, rfl⟩
  have hbefore := route_append_eq_ok_iff.mpr ⟨start, hstart, hnames⟩
  obtain ⟨entries, hentries⟩ := sight?_eq_directory_iff.mp hdirectory
  exact ⟨_, find?_eq_some_iff.mpr
    ⟨above, destination_eq_ok_iff.mpr ⟨hpath, hfollowable, hbefore⟩, hentries⟩⟩

end FileTree

end Census
