import Census.Proofs.CommandLine.Steps

/-!
# New projects and the files around them

The command that makes a new project asks first whether its directory is there. A path without `..`
that is not there holds no files, so none are written over. The empty path is never there, but what
is written behind it lands in the working directory.

- `run_new_keeps_files`: what becomes of the files that were there before.
- `new_replaces_manifest`: a project without a name takes the place of another one.
-/

namespace Census

open Command FileTree

variable {world : World} {name : String} {place : Place} {bytes : ByteArray}

theorem Place.next_fileName (place : Place) :
    place.next Manifest.fileName = .ok (place ++ [Manifest.fileName]) := rfl

/-- A manifest's path ends with its name. -/
theorem Manifest.getLast?_of_destination {tree : FileTree} {working : Place} {directory : Path}
    (h : tree.destination working (pathIn directory) = .ok place) :
    place.getLast? = some fileName := by
  obtain ⟨front, hjoin, -⟩ := directory.join_name fileName
  have hnames : (pathIn directory).names = front ++ [fileName] := congrArg Path.names hjoin
  obtain ⟨-, -, hroute⟩ := destination_eq_ok_iff.mp h
  rw [hnames, ← List.append_assoc] at hroute
  obtain ⟨above, -, rfl⟩ := exists_above_of_route Place.next_fileName hroute
  exact List.getLast?_concat

/-- What can become of a file when a new project is made: it stays, or it is replaced by the
manifest. -/
def World.Spares (after : World) (name : String) (place : Place) (bytes : ByteArray) : Prop :=
  after.tree.at? place = some (.file bytes) ∨
    (name = "" ∨ ".." ∈ (Path.ofText name).names) ∧ place.getLast? = some Manifest.fileName ∧
      after.tree.at? place = some (.file (Manifest.ofName name).render.toUTF8)

/-- Behind the path of a directory that was not there, nothing old is written over. -/
theorem World.Writes.spares {after : World} {between : FileTree}
    (h : { world with tree := between }.Writes (Manifest.pathIn (.ofText name))
      (Manifest.ofName name).render.toUTF8 after)
    (hgrows : world.tree.GrowsTo between)
    (hnone : world.tree.find? world.directory (.ofText name) = none)
    (hmade : (world.tree.makeDirectories world.directory (.ofText name)).2 = true)
    (hfile : world.tree.at? place = some (.file bytes)) : after.Spares name place bytes := by
  obtain ⟨grown, target, hgrown, htarget, hover, hafter⟩ := h
  have hsight := sight?_eq_file_iff.mpr hfile
  have hgrows := hgrows.trans hgrown
  by_cases htaken : place = target
  · subst htaken
    refine .inr ⟨?_, Manifest.getLast?_of_destination htarget, sight?_eq_file_iff.mp <|
      hafter _ _ (sight?_put_self (Option.isSome_of_eq_some (hgrows _ _ hsight)))⟩
    by_contra hplain
    obtain ⟨hname, hup⟩ := not_or.mp hplain
    have hpath := Path.ofText_ne_empty hname
    obtain ⟨inner, hinner⟩ := exists_find?_of_inside hgrows
      (fun hrooted => exists_start_of_makeDirectories hpath hrooted hmade) hpath
      (isFollowable_of_makeDirectories hpath hmade) hup Place.next_fileName htarget
      (Option.isSome_of_eq_some hsight)
    rw [hinner] at hnone
    cases hnone
  · exact .inl (sight?_eq_file_iff.mp (hafter _ _ (sight?_put hover htaken (hgrows _ _ hsight))))

theorem ends_createProject (hfile : world.tree.at? place = some (.file bytes)) :
    Ends (createProject name : Command (StateM World) Unit) world
      (fun _ after => after.Spares name place bytes)
      (fun _ after => after.Spares name place bytes) := by
  have hsight := sight?_eq_file_iff.mpr hfile
  have hkept {after : World} (hgrows : world.tree.GrowsTo after.tree) :
      after.Spares name place bytes :=
    .inl (sight?_eq_file_iff.mp (hgrows _ _ hsight))
  unfold createProject
  rw [ends_bind_iff, ends_isThere_iff]
  split
  case isTrue => exact hkept (.refl _)
  rename_i hthere
  have hnone : world.tree.find? world.directory (.ofText name) = none := by simpa using hthere
  have hgrows := world.tree.makeDirectories_growsTo world.directory (.ofText name)
  rw [ends_bind_iff, ends_makeDirectories_iff]
  split_ifs with hmade
  · rw [ends_bind_iff]
    refine (ends_writeSkeleton _ _ _).imp (fun _ after hwrites => ?_) fun _ after hafter => ?_
    · exact hwrites.spares hgrows hnone hmade hfile
    · rcases hafter with hafter | hwrites
      · exact hkept (hgrows.trans hafter)
      · exact hwrites.spares hgrows hnone hmade hfile
  · exact hkept hgrows

/-- **New projects and the files around them**. Whatever name the command that makes a new project
is given, all files stay as they were. Only if the name is empty or goes upwards may one of them be
replaced, a manifest by the new one. -/
theorem run_new_keeps_files {arguments : List String}
    (harguments : Invocation.ofArguments arguments = .run .new name)
    (hfile : world.tree.at? place = some (.file bytes)) :
    (world.run arguments).2.Spares name place bytes :=
  World.run_of_ends (fun _ after => after.Spares name place bytes) harguments
    (ends_createProject hfile)

/-- A world with a project in the working directory. -/
def World.withProject (name : String) : World where
  tree := .directory [("work", .directory
    [(Manifest.fileName, .file (Manifest.ofName name).render.toUTF8)])]
  directory := ["work"]

/-- A new project beside another one. -/
theorem run_new_keeps_files_beside :
    Invocation.ofArguments ["new", "second"] = .run .new "second" ∧
      (World.withProject "first").tree.at? ["work", "tally.toml"]
        = some (.file (Manifest.ofName "first").render.toUTF8) ∧
      ((World.withProject "first").run ["new", "second"]).2.Spares "second" ["work", "tally.toml"]
        (Manifest.ofName "first").render.toUTF8 :=
  ⟨by decide, rfl, run_new_keeps_files (by decide) rfl⟩

/-- **Projects in place of others**. With an empty name, or one that goes upwards from a directory
that is not there yet, the command that makes a new project replaces the manifest of the working
directory. -/
theorem new_replaces_manifest :
    (World.withProject "first").tree.at? ["work", "tally.toml"]
        = some (.file (Manifest.ofName "first").render.toUTF8) ∧
      ∀ name ∈ ["", "missing/.."],
        ((World.withProject "first").run ["new", name]).1 = .success ∧
          ((World.withProject "first").run ["new", name]).2.tree.at? ["work", "tally.toml"]
            ≠ some (.file (Manifest.ofName "first").render.toUTF8) := by
  simp only [ne_eq, ← sight?_eq_file_iff]
  decide +kernel

end Census
