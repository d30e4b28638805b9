import Census.Proofs.Files.Inside
import Census.Proofs.Files.Lengths
import Census.Proofs.Project.Manifests

/-!
# Projects in directories that are there

The command that makes the working directory a project asks for a manifest first. If none is found,
there are at most three things more afterwards: a directory for the program, the manifest, and the
program. Each of them is made only where nothing was, and where one cannot be made, the command
stops. Only the length of a path can keep it from writing a file, and the path of the program is a
little longer than that of the manifest.

- `ends_initProject`: the stages at which the command stops.
- `World.IsTight`: worlds in which only the path of the program is too long.
- `initProject_again`: what the command does the second time.
- `run_init_safe`: what becomes of the files.
- `run_init_leaves_manifest`: a run that fails and leaves a manifest.
-/

namespace Census

open Command FileTree

variable {world : World}

namespace World

/-- The place of the manifest of the working directory. -/
def manifestPlace (world : World) : Place := world.directory ++ ["tally.toml"]

/-- The place of the directory that new programs are put in. -/
def sourcesPlace (world : World) : Place := world.directory ++ ["src"]

/-- The place of the program of a new project in the working directory. -/
def programPlace (world : World) : Place := world.directory ++ ["src", "main.tly"]

/-- The manifest of a new project that has the name of the working directory, if it has one. -/
def newManifest (world : World) : Manifest :=
  .ofName (world.directory.getLast?.getD "tally-project")

theorem programPlace_eq : world.programPlace = world.sourcesPlace ++ ["main.tly"] := by
  simp [programPlace, sourcesPlace]

end World

theorem isPlain_fileName : IsPlain "tally.toml" := isPlain_iff.mpr (by decide)

theorem isPlain_sources : IsPlain "src" := isPlain_iff.mpr (by decide)

theorem isPlain_program : IsPlain "main.tly" := isPlain_iff.mpr (by decide)

/-! ## The stages of the command -/

/-- The tree has a manifest more, and the directory for the program if that was not there. -/
structure World.Founds (world : World) (complete : FileTree) : Prop where
  short : isFollowable ⟨true, world.manifestPlace⟩ = true
  made : ∃ grown, world.tree.Provides world.sourcesPlace grown ∧
    grown.Gains world.manifestPlace (.file world.newManifest.render.toUTF8) complete

/-- Where the command stops: nothing has changed, there is a directory for the program, or there is
a manifest too. -/
inductive World.Stops (world : World) : World → Prop
  | unchanged (hkept : (world.tree.sight? world.manifestPlace).isSome = true ∨
      isFollowable ⟨true, world.sourcesPlace⟩ = false ∨
        ∃ bytes, world.tree.sight? world.sourcesPlace = some (.file bytes)) :
    Stops world world
  | sources {grown : FileTree} (hsources : world.tree.Provides world.sourcesPlace grown)
    (hlong : isFollowable ⟨true, world.manifestPlace⟩ = false) :
    Stops world { world with tree := grown }
  | manifest {complete : FileTree} (hfounds : world.Founds complete)
    (hlong : isFollowable ⟨true, world.programPlace⟩ = false) :
    Stops world { world with tree := complete }

/-- What there is when the command is done: a manifest and, if there was none, a program. -/
inductive World.Completes (world : World) : World → Prop
  | manifest {complete : FileTree} (said : String) (hfounds : world.Founds complete)
    (hprogram : (complete.sight? world.programPlace).isSome = true) :
    Completes world { world with tree := complete, said }
  | program {complete whole : FileTree} (said : String) (hfounds : world.Founds complete)
    (hshort : isFollowable ⟨true, world.programPlace⟩ = true)
    (hprogram : complete.Gains world.programPlace (.file startProgram.toUTF8) whole) :
    Completes world { world with tree := whole, said }

section
variable (hhome : world.tree.Reaches world.directory)
include hhome

theorem pathIn_directoryPath :
    Manifest.pathIn world.directoryPath = ⟨true, world.manifestPlace⟩ :=
  hhome.join_eq rfl (by decide)

/-- The entry of a new manifest does not depend on the name of the project. -/
theorem join_entry (name : String) :
    world.directoryPath.join (.ofText (Manifest.ofName name).entry)
      = ⟨true, world.programPlace⟩ := by
  have hentry : Path.ofText defaultEntry = ⟨false, ["src", "main.tly"]⟩ := by decide
  rw [Manifest.ofName, hentry]
  exact hhome.join_eq rfl (by simp)

end

/-- The directory that is made first is the one the program is put into. -/
theorem parent?_programPlace :
    Path.parent? ⟨true, world.programPlace⟩ = some ⟨true, world.sourcesPlace⟩ := by
  simp [World.programPlace, World.sourcesPlace, Path.parent?, Path.trim, Path.isComponent]

/-- The steps of the command after it has asked for a manifest. -/
theorem writeSkeleton_eq (hhome : world.tree.Reaches world.directory) (name : String) :
    (writeSkeleton world.directoryPath name : Command (StateM World) Unit) = (do
      Command.makeDirectories ⟨true, world.sourcesPlace⟩ (.uncreatable ⟨true, world.sourcesPlace⟩)
      (Manifest.ofName name).save ⟨true, world.manifestPlace⟩
      unless ← (Host.isThere ⟨true, world.programPlace⟩ : StateM World Bool) do
        writeText ⟨true, world.programPlace⟩ startProgram
          (.uncreatable ⟨true, world.programPlace⟩)) := by
  simp only [writeSkeleton, join_entry hhome, parent?_programPlace, pathIn_directoryPath hhome]

/-- The last step: the program is written unless it is found. -/
theorem ends_program {complete : FileTree} (hfounds : world.Founds complete)
    (hinner : complete.Reaches world.sourcesPlace) :
    Ends (do
        unless ← (Host.isThere ⟨true, world.programPlace⟩ : StateM World Bool) do
          writeText ⟨true, world.programPlace⟩ startProgram
            (.uncreatable ⟨true, world.programPlace⟩) : Command (StateM World) Unit)
      { world with tree := complete } (fun _ after => ∀ said, world.Completes { after with said })
      fun _ after => world.Stops after := by
  rw [ends_bind_iff, ends_isThere_iff]
  split_ifs with hthere
  · refine fun said => .manifest said hfounds ?_
    -- what is not there is not found
    by_contra hprogram
    rw [world.programPlace_eq] at hthere hprogram
    rw [(hinner.find?_eq_none_iff isPlain_program).mpr (.inr (by simpa using hprogram))] at hthere
    cases hthere
  · rw [world.programPlace_eq] at hthere
    rw [ends_writeText_iff, world.programPlace_eq]
    rcases hinner.write?_cases isPlain_program (by simpa using hthere) with
      ⟨hwrite, hlong⟩ | ⟨whole, hwrite, hshort, hprogram⟩
    · rw [hwrite]
      rw [← world.programPlace_eq] at hlong
      exact .manifest hfounds hlong
    · rw [hwrite]
      rw [← world.programPlace_eq] at hshort hprogram
      exact fun said => .program said hfounds hshort hprogram

/-- Where no manifest is found, one thing is made after the other, each of them in a directory that
is there. -/
theorem ends_writeSkeleton_home (hhome : world.tree.Reaches world.directory)
    (hnone : world.tree.find? world.directory ⟨true, world.manifestPlace⟩ = none) :
    Ends (writeSkeleton world.directoryPath (world.directory.getLast?.getD "tally-project") :
        Command (StateM World) Unit) world
      (fun _ after => ∀ said, world.Completes { after with said })
      fun _ after => world.Stops after := by
  rw [writeSkeleton_eq hhome, ends_bind_iff, ends_makeDirectories_iff]
  rcases hhome.makeDirectories_cases isPlain_sources world.directory with
    ⟨hrefused, hkept⟩ | ⟨grown, hmade, hsources⟩
  · rw [← World.sourcesPlace] at hrefused hkept
    rw [hrefused]
    exact .unchanged (.inr hkept)
  rw [← World.sourcesPlace] at hmade hsources
  rw [hmade]
  -- the manifest was not found before the directory was there, so it is not found now
  have hgrown : grown.Reaches world.directory := hhome.mono hsources.growsTo
  have hnone' : grown.find? world.directory ⟨true, world.manifestPlace⟩ = none := by
    rw [World.manifestPlace, hgrown.find?_eq_none_iff isPlain_fileName, hsources.sight?_of_ne,
      ← hhome.find?_eq_none_iff isPlain_fileName]
    · exact hnone
    · simp [World.sourcesPlace]
  rw [if_pos rfl, Manifest.save, ends_bind_iff, ends_writeText_iff]
  rcases hgrown.write?_cases isPlain_fileName hnone' with
    ⟨hwrite, hlong⟩ | ⟨complete, hwrite, hshort, hmanifest⟩
  · rw [World.manifestPlace, hwrite]
    exact .sources hsources hlong
  · rw [World.manifestPlace, hwrite]
    exact ends_program ⟨hshort, grown, hsources, hmanifest⟩
      ((hgrown.below isPlain_sources hsources.sight?_self).mono hmanifest.growsTo)

/-- The command starts with a look for a manifest, and a project that is there is left alone. -/
theorem ends_initProject (hhome : world.tree.Reaches world.directory) :
    Ends (initProject : Command (StateM World) Unit) world (fun _ after => world.Completes after)
      fun _ after => world.Stops after := by
  have hname : world.directoryPath.fileName?.getD defaultName
      = world.directory.getLast?.getD "tally-project" := by
    rw [World.directoryPath, hhome.fileName?_eq]
    rfl
  unfold initProject
  rw [ends_bind_iff, ends_workingDirectory_iff, ends_bind_iff, ends_isThere_iff,
    pathIn_directoryPath hhome, hname]
  split
  case isTrue hthere =>
    refine .unchanged (.inl ?_)
    by_contra hmanifest
    have hnone : world.tree.find? world.directory ⟨true, world.manifestPlace⟩ = none :=
      (hhome.find?_eq_none_iff isPlain_fileName).mpr
        (.inr (Option.not_isSome_iff_eq_none.mp hmanifest))
    rw [hnone] at hthere
    cases hthere
  rename_i hthere
  rw [ends_bind_iff]
  exact (ends_writeSkeleton_home hhome (by simpa using hthere)).imp
    (fun _ after hafter => hafter _) fun _ _ hafter => hafter

/-! ## The tree afterwards -/

namespace World.Founds

variable {complete : FileTree} (h : world.Founds complete)
include h

/-- There was nothing where the manifest is now. -/
theorem sight?_manifestPlace_eq_none : world.tree.sight? world.manifestPlace = none := by
  obtain ⟨grown, hsources, hmanifest⟩ := h.made
  rw [← hmanifest.1, hsources.sight?_of_ne (by simp [manifestPlace, sourcesPlace])]

theorem sight?_manifestPlace :
    complete.sight? world.manifestPlace = some (.file world.newManifest.render.toUTF8) := by
  obtain ⟨grown, -, hmanifest⟩ := h.made
  exact hmanifest.sight?_self

/-- A manifest and a directory do not matter for a program that was there, and bring none. -/
theorem sight?_programPlace :
    complete.sight? world.programPlace = world.tree.sight? world.programPlace := by
  obtain ⟨grown, hsources, hmanifest⟩ := h.made
  rw [hmanifest.sight?_of_ne (by simp [manifestPlace, programPlace]),
    hsources.sight?_of_ne (by simp [sourcesPlace, programPlace])]

theorem growsTo : world.tree.GrowsTo complete := by
  obtain ⟨grown, hsources, hmanifest⟩ := h.made
  exact hsources.growsTo.trans hmanifest.growsTo

theorem sameFilesBut : world.tree.SameFilesBut [world.manifestPlace] complete := by
  obtain ⟨grown, hsources, hmanifest⟩ := h.made
  exact hsources.sameFiles.trans hmanifest.sameFilesBut

end World.Founds

theorem World.Stops.growsTo {after : World} (h : world.Stops after) :
    world.tree.GrowsTo after.tree := by
  cases h with
  | unchanged => exact .refl _
  | sources hsources => exact hsources.growsTo
  | manifest hfounds => exact hfounds.growsTo

theorem World.Completes.growsTo {after : World} (h : world.Completes after) :
    world.tree.GrowsTo after.tree := by
  cases h with
  | manifest _ hfounds => exact hfounds.growsTo
  | program _ hfounds _ hprogram => exact hfounds.growsTo.trans hprogram.growsTo

/-- However the command ended, the manifest was written on the way. -/
theorem World.Completes.exists_founds {after : World} (h : world.Completes after) :
    ∃ complete, world.Founds complete ∧ complete.GrowsTo after.tree := by
  cases h with
  | manifest _ hfounds => exact ⟨_, hfounds, .refl _⟩
  | program _ hfounds _ hprogram => exact ⟨_, hfounds, hprogram.growsTo⟩

/-- A program is written where none was. -/
theorem World.Completes.program_of_none {after : World} (h : world.Completes after)
    (hnone : world.tree.sight? world.programPlace = none) :
    after.tree.sight? world.programPlace = some (.file startProgram.toUTF8) := by
  cases h with
  | manifest _ hfounds hprogram =>
    rw [hfounds.sight?_programPlace, hnone] at hprogram
    cases hprogram
  | program _ _ _ hprogram => exact hprogram.sight?_self

/-- The places of new files: that of the manifest and, if nothing is there, that of the program. -/
def World.newPlaces (world : World) : List Place :=
  world.manifestPlace ::
    if (world.tree.at? world.programPlace).isNone then [world.programPlace] else []

/-- No other file is new, and none is changed. -/
theorem World.Completes.sameFilesBut {after : World} (h : world.Completes after) :
    world.tree.SameFilesBut world.newPlaces after.tree := by
  cases h with
  | manifest _ hfounds => exact hfounds.sameFilesBut.mono (by simp [newPlaces])
  | program _ hfounds _ hprogram =>
    have hnone : world.tree.at? world.programPlace = none :=
      sight?_eq_none_iff.mp (hfounds.sight?_programPlace ▸ hprogram.1)
    rw [newPlaces, hnone]
    exact hfounds.sameFilesBut.append hprogram.sameFilesBut

/-- The path of the working directory has 4083 or 4084 bytes. So that of the manifest, with 11 bytes
more, is no longer than `pathLimit`, and that of the program, with 13 bytes more, is too long. -/
def World.IsTight (world : World) : Prop :=
  4083 ≤ world.directoryPath.text.utf8ByteSize ∧ world.directoryPath.text.utf8ByteSize ≤ 4084

/-- How much longer than the path of the working directory the other paths are. -/
theorem World.utf8ByteSize_places (hdirectory : world.directory ≠ []) :
    (Path.text ⟨true, world.manifestPlace⟩).utf8ByteSize
        = world.directoryPath.text.utf8ByteSize + 11 ∧
      (Path.text ⟨true, world.sourcesPlace⟩).utf8ByteSize
        = world.directoryPath.text.utf8ByteSize + 4 ∧
      (Path.text ⟨true, world.programPlace⟩).utf8ByteSize
        = world.directoryPath.text.utf8ByteSize + 13 := by
  have happend (more : List String) (hmore : more ≠ []) :=
    Path.utf8ByteSize_text_append hdirectory hmore
  have hmanifest : (Path.text ⟨true, ["tally.toml"]⟩).utf8ByteSize = 11 := by decide
  have hsources : (Path.text ⟨true, ["src"]⟩).utf8ByteSize = 4 := by decide
  have hprogram : (Path.text ⟨true, ["src", "main.tly"]⟩).utf8ByteSize = 13 := by decide
  rw [manifestPlace, sourcesPlace, programPlace, directoryPath, happend _ (List.cons_ne_nil _ _),
    happend _ (List.cons_ne_nil _ _), happend _ (List.cons_ne_nil _ _), hmanifest, hsources,
    hprogram]
  exact ⟨rfl, rfl, rfl⟩

/-- The paths differ only in what stands behind that of the working directory. -/
theorem World.hasNull_places :
    hasNull ⟨true, world.manifestPlace⟩ = hasNull world.directoryPath ∧
      hasNull ⟨true, world.sourcesPlace⟩ = hasNull world.directoryPath ∧
      hasNull ⟨true, world.programPlace⟩ = hasNull world.directoryPath := by
  exact ⟨hasNull_append _ _ (by decide), hasNull_append _ _ (by decide),
    hasNull_append _ _ (by decide)⟩

/-- There is no other reason why the program cannot be written where the manifest can. -/
theorem World.isTight (hshort : isFollowable ⟨true, world.manifestPlace⟩ = true)
    (hlong : isFollowable ⟨true, world.programPlace⟩ = false) : world.IsTight := by
  obtain ⟨hnull, -, hnull'⟩ := world.hasNull_places
  rw [isFollowable_iff, hnull] at hshort
  rw [← Bool.not_eq_true, isFollowable_iff, hnull'] at hlong
  have hlimit : pathLimit = 4095 := rfl
  by_cases hroot : world.directory = []
  · have hprogram : (Path.text ⟨true, world.programPlace⟩).utf8ByteSize = 13 := by
      rw [programPlace, hroot]
      decide
    exact absurd ⟨hshort.1, by omega⟩ hlong
  · obtain ⟨hmanifest, -, hprogram⟩ := utf8ByteSize_places hroot
    have hover : ¬ (Path.text ⟨true, world.programPlace⟩).utf8ByteSize ≤ pathLimit :=
      fun hfits => hlong ⟨hshort.1, hfits⟩
    unfold IsTight
    omega

/-- A run that stops adds no file, unless there is no room for the path of the program. -/
theorem World.Stops.sameFilesBut {after : World} (h : world.Stops after) :
    world.tree.SameFilesBut [] after.tree ∨
      world.IsTight ∧ world.tree.SameFilesBut [world.manifestPlace] after.tree := by
  cases h with
  | unchanged => exact .inl (.refl _ _)
  | sources hsources => exact .inl hsources.sameFiles
  | manifest hfounds hlong => exact .inr ⟨isTight hfounds.short hlong, hfounds.sameFilesBut⟩

/-- In a tight world only the path of the program is too long. -/
theorem World.IsTight.isFollowable (h : world.IsTight)
    (hnull : hasNull world.directoryPath = false) :
    isFollowable ⟨true, world.manifestPlace⟩ = true ∧
      isFollowable ⟨true, world.sourcesPlace⟩ = true ∧
      isFollowable ⟨true, world.programPlace⟩ = false := by
  obtain ⟨hlow, hhigh⟩ := h
  have hdirectory : world.directory ≠ [] := by
    intro hroot
    rw [directoryPath, hroot] at hlow
    exact absurd hlow (by decide)
  obtain ⟨hmanifest, hsources, hprogram⟩ := utf8ByteSize_places hdirectory
  obtain ⟨hnull', hnull'', -⟩ := world.hasNull_places
  have hlimit : pathLimit = 4095 := rfl
  refine ⟨isFollowable_iff.mpr ⟨hnull'.trans hnull, by omega⟩,
    isFollowable_iff.mpr ⟨hnull''.trans hnull, by omega⟩, ?_⟩
  rw [← Bool.not_eq_true, isFollowable_iff]
  rintro ⟨-, hfits⟩
  omega

/-- In a tight world in which nothing is in the way, the command fails when it has written the
manifest. -/
theorem ends_initProject_of_isTight (hhome : world.tree.Reaches world.directory)
    (htight : world.IsTight) (hnull : hasNull world.directoryPath = false)
    (hmanifest : world.tree.sight? world.manifestPlace = none)
    (hsources : world.tree.sight? world.sourcesPlace = none) :
    Ends (initProject : Command (StateM World) Unit) world (fun _ _ => False) fun _ after =>
      after.tree.at? world.manifestPlace = some (.file world.newManifest.render.toUTF8) := by
  obtain ⟨hshort, hfits, hlong⟩ := htight.isFollowable hnull
  have hprogram : world.tree.sight? world.programPlace = none := by
    by_contra hthere
    rw [World.programPlace_eq] at hthere
    have hdirectory := sight?_eq_directory_of_append (Option.isSome_iff_ne_none.mpr hthere)
    cases hsources.symm.trans hdirectory
  refine (ends_initProject hhome).imp (fun _ after hafter => ?_) fun _ after hafter => ?_
  · cases hafter with
    | manifest _ hfounds hthere =>
      rw [hfounds.sight?_programPlace, hprogram] at hthere
      cases hthere
    | program _ _ hfits => cases hlong.symm.trans hfits
  · cases hafter with
    | unchanged hkept =>
      rcases hkept with hthere | hunfit | ⟨bytes, hfile⟩
      · rw [hmanifest] at hthere
        cases hthere
      · cases hunfit.symm.trans hfits
      · cases hsources.symm.trans hfile
    | sources _ hunfit => cases hshort.symm.trans hunfit
    | manifest hfounds => exact sight?_eq_file_iff.mp hfounds.sight?_manifestPlace

/-- The manifest is found and says what it was made to say. -/
theorem World.Completes.run_load {after : World} (h : world.Completes after)
    (hhome : world.tree.Reaches world.directory) :
    (Manifest.load ⟨true, world.manifestPlace⟩ : Command (StateM World) Manifest).run.run after
      = (.ok world.newManifest, after) := by
  obtain ⟨complete, hfounds, hgrows⟩ := h.exists_founds
  have hread : after.tree.read? after.directory ⟨true, world.manifestPlace⟩
      = some world.newManifest.render.toUTF8 := by
    refine (hhome.mono h.growsTo).read?_eq_some isPlain_fileName hfounds.short ?_
    exact sight?_eq_file_iff.mp (hgrows _ _ hfounds.sight?_manifestPlace)
  refine Ends.run_eq ?_
  rw [Manifest.load, ends_bind_iff, ends_readText_iff, hread, Option.bind_some, fromUTF8?_toUTF8]
  dsimp only
  rw [Manifest.parse?_render]
  exact ⟨rfl, rfl⟩

/-! ## The second time -/

/-- The command fails in the world and changes nothing. -/
def World.Declines (world : World) : Prop :=
  Ends (initProject : Command (StateM World) Unit) world (fun _ _ => False)
    fun _ again => again = world

/-- Where no manifest can be added and no directory is missing, the command stops. -/
theorem World.declines_of_not_founds (hhome : world.tree.Reaches world.directory)
    (hfounds : ∀ complete, ¬ world.Founds complete)
    (hsources : isFollowable ⟨true, world.manifestPlace⟩ = false →
      ∀ grown, world.tree.Provides world.sourcesPlace grown → grown = world.tree) :
    world.Declines := by
  refine (ends_initProject hhome).imp (fun _ again hagain => ?_) fun _ again hagain => ?_
  · obtain ⟨complete, h, -⟩ := hagain.exists_founds
    exact hfounds complete h
  · cases hagain with
    | unchanged => rfl
    | sources h hlong => rw [hsources hlong _ h]
    | manifest h => exact absurd h (hfounds _)

/-- A manifest that is there is found. -/
theorem World.declines_of_manifest (hhome : world.tree.Reaches world.directory)
    (hshort : isFollowable ⟨true, world.manifestPlace⟩ = true)
    (hthere : (world.tree.sight? world.manifestPlace).isSome = true) : world.Declines := by
  refine declines_of_not_founds hhome (fun complete h => ?_) fun hlong => ?_
  · rw [h.sight?_manifestPlace_eq_none] at hthere
    cases hthere
  · cases hlong.symm.trans hshort

/-- If no manifest can be written, a directory for the program is all that is ever made. -/
theorem World.declines_of_sources (hhome : world.tree.Reaches world.directory)
    (hlong : isFollowable ⟨true, world.manifestPlace⟩ = false)
    (hthere : world.tree.sight? world.sourcesPlace = some .directory) : world.Declines := by
  refine declines_of_not_founds hhome (fun complete h => ?_) fun _ grown hsources => ?_
  · cases hlong.symm.trans h.short
  · obtain ⟨rfl, -⟩ | hgains := hsources
    · rfl
    · cases hthere.symm.trans hgains.1

/-- The second run finds the manifest, or stops where the first one stopped. -/
theorem initProject_again (hhome : world.tree.Reaches world.directory) :
    Ends (initProject : Command (StateM World) Unit) world (fun _ after => after.Declines)
      fun _ after => after.Declines := by
  have hends := ends_initProject hhome
  rcases hrun : (initProject : Command (StateM World) Unit).run.run world with ⟨_ | _, after⟩
  · rw [ends_iff_of_error hrun] at hends ⊢
    cases hends with
    | unchanged => exact (ends_iff_of_error hrun).mpr rfl
    | sources hsources hlong =>
      exact World.declines_of_sources (hhome.mono hsources.growsTo) hlong hsources.sight?_self
    | manifest h =>
      exact World.declines_of_manifest (hhome.mono h.growsTo) h.short
        (Option.isSome_of_eq_some h.sight?_manifestPlace)
  · rw [ends_iff_of_ok hrun] at hends ⊢
    have hhome' := hhome.mono hends.growsTo
    cases hends with
    | manifest _ h =>
      exact World.declines_of_manifest hhome' h.short
        (Option.isSome_of_eq_some h.sight?_manifestPlace)
    | program _ h _ hprogram =>
      exact World.declines_of_manifest hhome' h.short
        (Option.isSome_of_eq_some (hprogram.growsTo _ _ h.sight?_manifestPlace))

/-- **Projects in directories that are there**. Whatever the tree and the working directory are, all
files keep their bytes when the working directory is made a project. That succeeds only where there
is no entry with the name of manifests. Then a manifest is all that is new, and a program if nothing
was in its place; the manifest that is loaded has the last name of the directory, or a name that
stands for none, and is otherwise that of any new project. Where it fails, no file is new, with one
exception: in a directory whose path has 4083 or 4084 bytes the manifest may be left. The second
time it fails and changes nothing. -/
theorem run_init_safe {arguments : List String} {operand : String}
    (harguments : Invocation.ofArguments arguments = .run .init operand)
    (hhome : world.tree.Reaches world.directory) :
    let outcome := (world.run arguments).1
    let after := (world.run arguments).2
    let manifest : Manifest :=
      { name := world.directory.getLast?.getD "tally-project", version := "0.1.0",
        entry := "src/main.tly", report := none }
    (∀ place bytes, world.tree.at? place = some (.file bytes) →
      after.tree.at? place = some (.file bytes)) ∧
    (outcome = .success →
      world.tree.at? world.manifestPlace = none ∧
      world.tree.SameFilesBut world.newPlaces after.tree ∧
      after.tree.at? world.manifestPlace = some (.file manifest.render.toUTF8) ∧
      (world.tree.at? world.programPlace = none →
        after.tree.at? world.programPlace = some (.file startProgram.toUTF8)) ∧
      (Manifest.load (Manifest.pathIn world.directoryPath) :
        Command (StateM World) Manifest).run.run after = (.ok manifest, after)) ∧
    (outcome ≠ .success →
      world.tree.SameFilesBut [] after.tree ∨
        world.IsTight ∧ world.tree.SameFilesBut [world.manifestPlace] after.tree) ∧
    ∀ again operand', Invocation.ofArguments again = .run .init operand' →
      ∃ failure, after.run again = (.failed failure, after) := by
  intro outcome after manifest
  have hends : (outcome = .success ∧ world.Completes after ∨
      outcome ≠ .success ∧ world.Stops after) ∧ after.Declines :=
    World.run_of_ends (fun outcome after => (outcome = .success ∧ world.Completes after ∨
      outcome ≠ .success ∧ world.Stops after) ∧ after.Declines) harguments
      (((ends_initProject hhome).and (initProject_again hhome)).imp
        (fun _ _ h => ⟨.inl ⟨rfl, h.1⟩, h.2⟩) fun _ _ h => ⟨.inr ⟨by simp, h.1⟩, h.2⟩)
  obtain ⟨hfirst, hagain⟩ := hends
  have hgrows : world.tree.GrowsTo after.tree := by
    rcases hfirst with ⟨-, hcompletes⟩ | ⟨-, hstops⟩
    · exact hcompletes.growsTo
    · exact hstops.growsTo
  refine ⟨fun place bytes hfile => ?_, fun hsuccess => ?_, fun hfailed => ?_,
    fun again operand' hinit => ?_⟩
  · exact sight?_eq_file_iff.mp (hgrows _ _ (sight?_eq_file_iff.mpr hfile))
  · have hcompletes := (hfirst.resolve_right fun h => h.1 hsuccess).2
    obtain ⟨complete, hfounds, hafter⟩ := hcompletes.exists_founds
    refine ⟨sight?_eq_none_iff.mp hfounds.sight?_manifestPlace_eq_none, hcompletes.sameFilesBut,
      sight?_eq_file_iff.mp (hafter _ _ hfounds.sight?_manifestPlace), fun hnone => ?_, ?_⟩
    · exact sight?_eq_file_iff.mp (hcompletes.program_of_none (sight?_eq_none_iff.mpr hnone))
    · rw [pathIn_directoryPath hhome]
      exact hcompletes.run_load hhome
  · exact (hfirst.resolve_left fun h => hfailed h.1).2.sameFilesBut
  · have hsecond : (∃ failure, (after.run again).1 = .failed failure) ∧
        (after.run again).2 = after :=
      World.run_of_ends (fun outcome last => (∃ failure, outcome = .failed failure) ∧ last = after)
        hinit (hagain.imp (fun _ _ h => h.elim) fun failure _ h => ⟨⟨failure, rfl⟩, h⟩)
    obtain ⟨⟨failure, houtcome⟩, hlast⟩ := hsecond
    exact ⟨failure, Prod.ext houtcome hlast⟩

/-- A world whose working directory has something under the name of directories for programs. -/
def World.withSources (sources : FileTree) : World where
  tree := .directory [("work", .directory [("src", sources)])]
  directory := ["work"]

/-- Around a program that was there the manifest is all that is new. Where a file is in the way,
there is nothing new. -/
theorem run_init_safe_sources :
    let around := World.withSources (.directory [("main.tly", .file "num a;".toUTF8)])
    let blocked := World.withSources (.file "num a;".toUTF8)
    Invocation.ofArguments ["init"] = .run .init "" ∧
    (around.tree.Reaches around.directory ∧ (around.run ["init"]).1 = .success ∧
      (around.run ["init"]).2.tree.at? ["work", "src", "main.tly"]
        = some (.file "num a;".toUTF8) ∧
      (Manifest.load (Manifest.pathIn around.directoryPath) :
        Command (StateM World) Manifest).run.run (around.run ["init"]).2
          = (.ok { name := "work", version := "0.1.0", entry := "src/main.tly", report := none },
            (around.run ["init"]).2)) ∧
    (blocked.tree.Reaches blocked.directory ∧ (blocked.run ["init"]).1 ≠ .success ∧
      (blocked.tree.SameFilesBut [] (blocked.run ["init"]).2.tree) ∧
      ∃ failure, (blocked.run ["init"]).2.run ["init"]
        = (.failed failure, (blocked.run ["init"]).2)) := by
  intro around blocked
  have hinit : Invocation.ofArguments ["init"] = .run .init "" := by decide
  have haround : around.tree.Reaches around.directory := ⟨rfl, rfl⟩
  have hblocked : blocked.tree.Reaches blocked.directory := ⟨rfl, rfl⟩
  have hsuccess : (around.run ["init"]).1 = .success := by decide +kernel
  have hfailed : (blocked.run ["init"]).1 ≠ .success := by decide +kernel
  obtain ⟨hkept, hdone, -⟩ := run_init_safe hinit haround
  obtain ⟨-, -, hnothing, hagain⟩ := run_init_safe hinit hblocked
  refine ⟨hinit, ⟨haround, hsuccess, hkept _ _ rfl, (hdone hsuccess).2.2.2.2⟩, hblocked, hfailed,
    (hnothing hfailed).resolve_right fun htight => ?_, hagain _ _ hinit⟩
  exact absurd htight.1.1 (by decide)

/-- A world in which there is nothing but the working directory. -/
def World.withNothing (directory : Place) : World where
  tree := put emptyDirectory directory emptyDirectory
  directory

namespace World

variable {directory : Place}

/-- There is nothing but the working directory and the directories above it. -/
theorem sight?_withNothing {place : Place} {seen : Sight}
    (h : (withNothing directory).tree.sight? place = some seen) :
    seen = .directory ∧ place <+: directory := by
  have hempty {below : Place} (hbelow : emptyDirectory.sight? below = some seen) :
      below = [] ∧ seen = .directory := by
    cases below with
    | nil => exact ⟨rfl, (Option.some.inj hbelow).symm⟩
    | cons name below => cases hbelow
  rcases sight?_of_put h with hbefore | ⟨below, rfl, hbelow⟩ | hway
  · obtain ⟨rfl, hseen⟩ := hempty hbefore
    exact ⟨hseen, List.nil_prefix⟩
  · obtain ⟨rfl, hseen⟩ := hempty hbelow
    rw [List.append_nil]
    exact ⟨hseen, List.prefix_rfl⟩
  · exact hway

theorem at?_withNothing_ne_file (place : Place) (bytes : ByteArray) :
    (withNothing directory).tree.at? place ≠ some (.file bytes) := by
  intro hfile
  cases (sight?_withNothing (sight?_eq_file_iff.mpr hfile)).1

theorem sight?_withNothing_below (name : String) :
    (withNothing directory).tree.sight? (directory ++ [name]) = none := by
  by_contra hthere
  obtain ⟨seen, hseen⟩ := Option.ne_none_iff_exists'.mp hthere
  have hlength := (sight?_withNothing hseen).2.length_le
  rw [List.length_append, List.length_singleton] at hlength
  omega

theorem reaches_withNothing (hnames : ∀ name ∈ directory, IsPlain name) :
    (withNothing directory).tree.Reaches directory := by
  refine reaches_of_isPlain hnames ?_
  show (put emptyDirectory directory emptyDirectory).sight? directory = some .directory
  clear hnames
  induction directory with
  | nil => rfl
  | cons name directory ih =>
    rw [sight?] at ih ⊢
    rw [at?, emptyDirectory, child?_put_self]
    exact ih

/-- In a tight world with nothing in it a manifest is left by a run that fails. -/
theorem run_withNothing (hnames : ∀ name ∈ directory, IsPlain name)
    (hnull : hasNull ⟨true, directory⟩ = false) (htight : (withNothing directory).IsTight)
    {manifest : Manifest} (hmanifest : (withNothing directory).newManifest = manifest) :
    (∃ failure, ((withNothing directory).run ["init"]).1 = .failed failure) ∧
      ((withNothing directory).run ["init"]).2.tree.at? (withNothing directory).manifestPlace
        = some (.file manifest.render.toUTF8) := by
  subst hmanifest
  have hinit : Invocation.ofArguments ["init"] = .run .init "" := by decide
  have hends := ends_initProject_of_isTight (reaches_withNothing hnames) htight hnull
    (sight?_withNothing_below _) (sight?_withNothing_below _)
  exact run_of_ends (fun outcome after => (∃ failure, outcome = .failed failure) ∧
    after.tree.at? (withNothing directory).manifestPlace
      = some (.file (withNothing directory).newManifest.render.toUTF8)) hinit
    (hends.imp (fun _ _ h => h.elim) fun failure _ h => ⟨⟨failure, rfl⟩, h⟩)

end World

/-- In a directory with a path of 4083 bytes the command fails and leaves a manifest, although no
file was there before. -/
theorem run_init_leaves_manifest :
    let world := World.withNothing (List.replicate 1361 "ab")
    world.directoryPath.text.utf8ByteSize = 4083 ∧ world.tree.Reaches world.directory ∧
      (∀ place bytes, world.tree.at? place ≠ some (.file bytes)) ∧
      (∃ failure, (world.run ["init"]).1 = .failed failure) ∧
      (world.run ["init"]).2.tree.at? world.manifestPlace
        = some (.file (Manifest.ofName "ab").render.toUTF8) := by
  have hlength : (Path.text ⟨true, List.replicate 1361 "ab"⟩).utf8ByteSize = 4083 := by
    have hname : "ab".utf8ByteSize = 2 := by decide
    have hsome : List.replicate 1361 "ab" ≠ [] := by
      rw [Ne, List.replicate_eq_nil_iff]
      decide
    rw [Path.utf8ByteSize_text hsome, List.map_replicate, List.sum_replicate_nat, hname]
  have hnames : ∀ name ∈ List.replicate 1361 "ab", IsPlain name := by
    intro name hname
    obtain rfl := List.eq_of_mem_replicate hname
    exact isPlain_iff.mpr (by decide)
  have hnull : hasNull ⟨true, List.replicate 1361 "ab"⟩ = false := by
    rw [hasNull, List.any_replicate]
    decide
  have hmanifest : (World.withNothing (List.replicate 1361 "ab")).newManifest
      = Manifest.ofName "ab" := by
    rw [World.newManifest, World.withNothing, List.getLast?_replicate]
    rfl
  exact ⟨hlength, World.reaches_withNothing hnames, World.at?_withNothing_ne_file,
    World.run_withNothing hnames hnull ⟨hlength.ge, hlength.le.trans (by decide)⟩ hmanifest⟩

end Census
