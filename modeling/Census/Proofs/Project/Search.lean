import Census.Proofs.CommandLine.Steps
import Census.Proofs.Files.Chains
import Census.Proofs.Files.Lengths

/-!
# Searches for projects

A manifest is looked for in a directory, in the one above it, and so on. The search stops at the
first directory with an entry of the right name, whatever that entry is: one that is no manifest is
a failure, and no reason to look further up. Only an entry whose path is too long to be followed is
passed over, since asking for it finds nothing.

- `World.Contains`: directories with an entry of some name.
- `World.contains_iff`: they are found by asking for the path of the entry, if that is followed.
- `Manifest.findFrom_nearest`: what a search answers.
- `Manifest.findFrom_passes_long_path`: a manifest that is passed over.
-/

namespace Census

open Command FileTree

variable {world : World} {path : Path} {name : String}

/-! ## Entries of directories -/

/-- The path leads to a directory in which something stands under the name. -/
def World.Contains (world : World) (path : Path) (name : String) : Prop :=
  ∃ place, world.tree.route [] (base world.directory path ++ path.names) = .ok place ∧
    (world.tree.at? (place ++ [name])).isSome = true

/-- A directory contains the same by all its paths. -/
theorem World.contains_withSlashes (path : Path) (slashes : Nat) :
    world.Contains (path.withSlashes slashes) name ↔ world.Contains path name := by
  have hbase : base world.directory (path.withSlashes slashes) = base world.directory path := rfl
  have hroute {place : Place} (hplace : world.tree.sight? place = some .directory) :
      world.tree.route [] (base world.directory path ++ (path.withSlashes slashes).names)
          = .ok place ↔
        world.tree.route [] (base world.directory path ++ path.names) = .ok place := by
    rw [Path.withSlashes, ← List.append_assoc]
    exact route_withSlashes hplace ⟨path.rooted, _⟩ slashes
  rw [Contains, Contains, hbase]
  refine exists_congr fun place => and_congr_left fun hentry => hroute ?_
  obtain ⟨entry, hentry⟩ := Option.isSome_iff_exists.mp hentry
  exact sight?_eq_directory_of_append (by rw [sight?, hentry]; rfl)

/-- What stands in a directory is found behind the path of the directory, if that is followed. -/
theorem World.contains_iff (hname : ∀ place : Place, place.next name = .ok (place ++ [name])) :
    world.Contains path name ∧ isFollowable (path.join ⟨false, [name]⟩) = true ↔
      (world.tree.find? world.directory (path.join ⟨false, [name]⟩)).isSome = true := by
  obtain ⟨front, hjoin, hfront⟩ := path.join_name name
  have hbase : base world.directory (path.join ⟨false, [name]⟩) = base world.directory path := by
    rw [base, base, hjoin]
  -- the path of the directory may be written with a slash at its end
  have hroute {place : Place} (hplace : world.tree.sight? place = some .directory) :
      world.tree.route [] (base world.directory path ++ path.names) = .ok place ↔
        world.tree.route [] (base world.directory path ++ front) = .ok place := by
    rcases hfront with hfront | hfront
    · rw [hfront]
    · rw [hfront, ← List.append_assoc]
      exact route_concat_empty hplace
  rw [Contains, Option.isSome_iff_exists]
  simp only [find?_eq_some_iff, destination_eq_ok_iff, hbase]
  constructor
  · rintro ⟨⟨place, hplace, hentry⟩, hfollowable⟩
    obtain ⟨entry, hentry⟩ := Option.isSome_iff_exists.mp hentry
    have hdirectory : world.tree.sight? place = some .directory :=
      sight?_eq_directory_of_append (by rw [sight?, hentry]; rfl)
    refine ⟨entry, place ++ [name], ⟨by simp [hjoin, Path.empty], hfollowable, ?_⟩, hentry⟩
    rw [hjoin, ← List.append_assoc]
    exact route_append_eq_ok_iff.mpr ⟨place, (hroute hdirectory).mp hplace,
      route_cons_eq_ok_iff.mpr ⟨_, enter_eq_ok_iff.mpr ⟨hdirectory, hname place⟩, rfl⟩⟩
  · rintro ⟨entry, place, ⟨-, hfollowable, hplace⟩, hentry⟩
    rw [hjoin, ← List.append_assoc] at hplace
    obtain ⟨above, habove, rfl⟩ := exists_above_of_route hname hplace
    have hdirectory : world.tree.sight? above = some .directory :=
      sight?_eq_directory_of_append (by rw [sight?, hentry]; rfl)
    exact ⟨⟨above, (hroute hdirectory).mpr habove, by rw [hentry]; rfl⟩, hfollowable⟩

/-! ## Searches -/

namespace Manifest

/-- What a search asks for is found in directories that contain it and are not passed over. -/
theorem contains_fileName_iff {directory : Path} :
    world.Contains directory fileName ∧ isFollowable (pathIn directory) = true ↔
      (world.tree.find? world.directory (pathIn directory)).isSome = true :=
  World.contains_iff fun _ => rfl

/-- Loading a manifest changes nothing. -/
theorem load_leaves (path : Path) (world : World) :
    ((load path : Command (StateM World) Manifest).run.run world).2 = world := by
  have hends : Ends (load path : Command (StateM World) Manifest) world
      (fun _ after => after = world) fun _ after => after = world := by
    rw [load, ends_bind_iff, ends_readText_iff]
    split
    · next content _ => cases parse? content <;> exact rfl
    · exact rfl
  unfold Ends at hends
  rcases hrun : (load path : Command (StateM World) Manifest).run.run world with ⟨_ | _, after⟩ <;>
    rw [hrun] at hends <;> exact hends

/-- A manifest that is not found is not read. -/
theorem run_load_of_find?_eq_none (hnone : world.tree.find? world.directory path = none) :
    (load path : Command (StateM World) Manifest).run.run world
      = (.error (.unreadable path), world) := by
  have hread : world.tree.read? world.directory path = none := by rw [read?, hnone]
  refine Ends.run_eq_error ?_
  rw [load, ends_bind_iff, ends_readText_iff, hread]
  exact ⟨rfl, rfl⟩

/-- Where nothing is found, nothing is looked at twice. -/
theorem run_findAmong_append {nearer : List Path} (farther : List Path)
    (hnearer : ∀ other ∈ nearer,
      world.Contains other fileName → isFollowable (pathIn other) = false) :
    (findAmong (nearer ++ farther) : Command (StateM World) (Manifest × Path)).run.run world
      = (findAmong farther : Command (StateM World) (Manifest × Path)).run.run world := by
  induction nearer with
  | nil => rfl
  | cons other nearer ih =>
    have hnone : ¬ (world.tree.find? world.directory (pathIn other)).isSome = true := by
      rw [← contains_fileName_iff]
      rintro ⟨hcontains, hfollowable⟩
      cases hfollowable.symm.trans (hnearer other List.mem_cons_self hcontains)
    rw [List.cons_append, ← ih fun other hother => hnearer other (List.mem_cons_of_mem _ hother)]
    show (if (world.tree.find? world.directory (pathIn other)).isSome then _ else findAmong _ :
      Command (StateM World) (Manifest × Path)).run.run world = _
    rw [if_neg hnone]

/-- What is found first is loaded, for better or worse. -/
theorem run_findAmong_cons {directory : Path} {farther : List Path}
    (hcontains : world.Contains directory fileName)
    (hfollowable : isFollowable (pathIn directory) = true) :
    (findAmong (directory :: farther) : Command (StateM World) (Manifest × Path)).run.run world
      = (((load (pathIn directory) : Command (StateM World) Manifest).run.run world).1.map
          fun manifest => (manifest, directory), world) := by
  have hfound := contains_fileName_iff.mp ⟨hcontains, hfollowable⟩
  show (if (world.tree.find? world.directory (pathIn directory)).isSome
    then (return (← load (pathIn directory), directory)) else findAmong _ :
      Command (StateM World) (Manifest × Path)).run.run world = _
  rw [if_pos hfound, ExceptT.run_bind, StateT.run_bind]
  have hleaves := load_leaves (pathIn directory) world
  rcases hrun : (load (pathIn directory) : Command (StateM World) Manifest).run.run world with
    ⟨_ | _, after⟩ <;> rw [hrun] at hleaves <;> obtain rfl := hleaves <;> rfl

/-- **Searches find the nearest manifest**. A search goes through the paths that are left of its
start when one component after the other is taken off its end. It asks each directory for an entry
with the name of manifests, by a path that may be too long to be followed (`pathLimit`); then the
directory is passed over, whatever it contains. If all directories that contain such an entry are
passed over, or none does, that is the failure of the search. Otherwise the first one that is not
passed over decides: the answer is the manifest loaded from there with the path, and if the manifest
cannot be loaded, the search fails as that does. Nothing changes in either case. -/
theorem findFrom_nearest (start : Path) (world : World) :
    let found := (findFrom start : Command (StateM World) (Manifest × Path)).run.run world
    (start.chain.head? = some start ∧
      start.chain.map Path.components = start.components.inits.reverse ∧
      ∀ other ∈ start.chain, other.rooted = start.rooted ∧ other.names <+: start.names) ∧
    ((∀ other ∈ start.chain,
        world.Contains other "tally.toml" → isFollowable (pathIn other) = false) →
      ∃ failure, found = (.error failure, world) ∧ failure.message
        = "Could not find tally.toml in current directory or any parent directory") ∧
    ∀ nearer directory farther, start.chain = nearer ++ directory :: farther →
      (∀ other ∈ nearer,
        world.Contains other "tally.toml" → isFollowable (pathIn other) = false) →
      world.Contains directory "tally.toml" → isFollowable (pathIn directory) = true →
      found = (((load (pathIn directory) : Command (StateM World) Manifest).run.run world).1.map
        fun manifest => (manifest, directory), world) := by
  intro found
  refine ⟨⟨?_, start.map_components_chain, fun other hother => ⟨Path.rooted_of_mem_chain hother,
    Path.names_prefix_of_mem_chain hother⟩⟩, fun hnone => ⟨.noManifest, ?_, by decide⟩,
    fun nearer directory farther hchain hnearer hdirectory hfollowable => ?_⟩
  · obtain ⟨above, habove⟩ := start.exists_chain_eq
    rw [habove, List.head?_cons]
  · have hall := run_findAmong_append [] hnone
    rw [List.append_nil] at hall
    exact hall
  · have hfound : found
        = (findAmong start.chain : Command (StateM World) (Manifest × Path)).run.run world := rfl
    rw [hfound, hchain, run_findAmong_append _ hnearer, run_findAmong_cons hdirectory hfollowable]

end Manifest

/-- A world with a manifest in the working directory and something else of the same name in a
directory below. -/
def World.withNested (inner : FileTree) : World where
  tree := .directory [("work", .directory
    [("tally.toml", .file (Manifest.ofName "outer").render.toUTF8),
      ("inner", .directory [("tally.toml", inner)])])]
  directory := ["work"]

/-- A search that stops at something that is no manifest, although there is one further up, and a
search that finds nothing. -/
theorem Manifest.findFrom_nearest_broken :
    let world := World.withNested (.file "name = 1".toUTF8)
    let inner : Path := ⟨true, ["work", "inner"]⟩
    let search (start : Path) : Command (StateM World) (Manifest × Path) := findFrom start
    (inner.chain = [] ++ inner :: [⟨true, ["work"]⟩, .root] ∧ world.Contains inner "tally.toml" ∧
      isFollowable (pathIn inner) = true ∧ world.Contains ⟨true, ["work"]⟩ "tally.toml" ∧
      (search inner).run.run world = (.error .badManifest, world)) ∧
    (∀ other ∈ Path.root.chain,
        world.Contains other "tally.toml" → isFollowable (pathIn other) = false) ∧
      ∃ failure, (search .root).run.run world = (.error failure, world) ∧ failure.message
        = "Could not find tally.toml in current directory or any parent directory" := by
  intro world inner search
  have hchain : inner.chain = [] ++ inner :: [⟨true, ["work"]⟩, .root] := by decide +kernel
  have hinner : world.Contains inner "tally.toml" ∧ isFollowable (pathIn inner) = true :=
    contains_fileName_iff.mpr (by decide)
  have hload : ((load (pathIn inner) : Command (StateM World) Manifest).run.run world).1
      = .error .badManifest := by decide +kernel
  have hroot : ∀ other ∈ Path.root.chain,
      world.Contains other "tally.toml" → isFollowable (pathIn other) = false := by
    rw [show Path.root.chain = [.root] by decide +kernel, List.forall_mem_singleton]
    intro hcontains
    by_contra hfollowable
    exact absurd (contains_fileName_iff.mp ⟨hcontains, by simpa using hfollowable⟩)
      (by decide)
  refine ⟨⟨hchain, hinner.1, hinner.2, (contains_fileName_iff.mpr (by decide)).1, ?_⟩,
    hroot, (findFrom_nearest .root world).2.1 hroot⟩
  rw [(findFrom_nearest inner world).2.2 [] inner _ hchain (by simp) hinner.1 hinner.2, hload]
  rfl

/-- Directories with long paths are passed over: the path of the start can be followed and leads to
a directory that contains a manifest, but the path of that manifest is too long. So the search does
not end there, as loading that manifest does, but answers with the one further up. -/
theorem Manifest.findFrom_passes_long_path :
    let world := World.withNested (.file (Manifest.ofName "inner").render.toUTF8)
    let start : Path := ⟨true, ["work", "inner"] ++ List.replicate 4080 ""⟩
    let found := (findFrom start : Command (StateM World) (Manifest × Path)).run.run world
    let loaded := (load (pathIn start) : Command (StateM World) Manifest).run.run world
    isFollowable start = true ∧ world.Contains start "tally.toml" ∧
      start.chain = [start, ⟨true, ["work"]⟩, .root] ∧
      loaded = (.error (.unreadable (pathIn start)), world) ∧
      found = (.ok (.ofName "outer", ⟨true, ["work"]⟩), world) ∧
      found ≠ (loaded.1.map fun manifest => (manifest, start), world) := by
  intro world start found loaded
  let inner : Path := ⟨true, ["work", "inner"]⟩
  have hstart : start = inner.withSlashes 4080 := rfl
  have hinner : (Path.text ⟨true, ["work", "inner"]⟩).utf8ByteSize = 11 := by decide
  have hname : fileName.utf8ByteSize = 10 := by decide
  have hlimit : pathLimit = 4095 := rfl
  have hfollowable : isFollowable start = true :=
    isFollowable_withSlashes (List.cons_ne_nil _ _) (by decide) (by omega)
  have hlong : isFollowable (pathIn start) = false := by
    show isFollowable (start.join ⟨false, [fileName]⟩) = false
    exact isFollowable_join_withSlashes (List.cons_ne_nil _ _) (by omega)
  have hchain : start.chain = [start, ⟨true, ["work"]⟩, .root] := by
    have hparent : inner.parent? = some ⟨true, ["work"]⟩ := by decide
    have habove : Path.chain ⟨true, ["work"]⟩ = [⟨true, ["work"]⟩, .root] := by decide +kernel
    rw [← habove]
    exact Path.chain_eq_cons ((inner.parent?_withSlashes 4080).trans hparent)
  have hcontains : world.Contains start "tally.toml" := by
    rw [hstart, World.contains_withSlashes]
    exact (contains_fileName_iff.mpr (by decide)).1
  have hloaded : loaded = (.error (.unreadable (pathIn start)), world) := by
    refine run_load_of_find?_eq_none ?_
    rw [← Option.not_isSome_iff_eq_none, ← contains_fileName_iff, hlong]
    exact fun h => Bool.false_ne_true h.2
  have hfound : found = (.ok (.ofName "outer", ⟨true, ["work"]⟩), world) := by
    have houter : world.Contains ⟨true, ["work"]⟩ fileName ∧
        isFollowable (pathIn ⟨true, ["work"]⟩) = true :=
      contains_fileName_iff.mpr (by decide)
    have hload : ((load (pathIn ⟨true, ["work"]⟩) : Command (StateM World) Manifest).run.run
        world).1 = .ok (.ofName "outer") := by decide +kernel
    have hsearch : found
        = (findAmong ([start] ++ [⟨true, ["work"]⟩, .root]) :
            Command (StateM World) (Manifest × Path)).run.run world := by
      rw [← List.singleton_append.symm, ← hchain]
      rfl
    rw [hsearch, run_findAmong_append _ (by simpa using fun _ => hlong),
      run_findAmong_cons houter.1 houter.2, hload]
    rfl
  refine ⟨hfollowable, hcontains, hchain, hloaded, hfound, ?_⟩
  rw [hfound, hloaded]
  intro heq
  cases congrArg Prod.fst heq

end Census
