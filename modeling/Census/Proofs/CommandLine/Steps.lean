import Census.CommandLine.Commands
import Census.Proofs.Endings
import Census.Proofs.Files.Growth

/-!
# Commands in a world

What commands do to a world, step by step, and to its files.

- `World.run`: a run of the program in a world.
- `Command.ends_writeText_iff` and so on: how the steps of commands end.
- `World.Writes`: a file gets its bytes while the tree grows.
- `ends_writeSkeleton`: the files of a new project write over the manifest at most.
-/

namespace Census

open FileTree

variable {world : World} {path : Path} {failure : Failure} {bytes : ByteArray}
  {fails : Failure → World → Prop}

/-! ## Steps -/

namespace Command

theorem ends_isThere_iff {answers : Bool → World → Prop} :
    Ends (liftM (Host.isThere path : StateM World Bool) : Command (StateM World) Bool) world answers
        fails ↔
      answers (world.tree.find? world.directory path).isSome world := .rfl

theorem ends_workingDirectory_iff {answers : Path → World → Prop} :
    Ends (liftM (Host.workingDirectory : StateM World Path) : Command (StateM World) Path) world
        answers fails ↔
      answers world.directoryPath world := .rfl

theorem ends_insist_iff {condition : Bool} {answers : Unit → World → Prop} :
    Ends (insist condition failure : Command (StateM World) Unit) world answers fails ↔
      if condition then answers () world else fails failure world := by
  cases condition <;> exact .rfl

theorem run_write :
    (Host.write path bytes : StateM World Bool).run world =
      match world.tree.write? world.directory path bytes with
      | some tree => (true, { world with tree })
      | none => (false, world) := by
  change (match world.tree.write? world.directory path bytes with
    | some tree => (do set { world with tree }; return true : StateM World Bool)
    | none => pure false).run world = _
  cases world.tree.write? world.directory path bytes <;> rfl

theorem ends_writeText_iff {content : String} {answers : Unit → World → Prop} :
    Ends (writeText path content failure : Command (StateM World) Unit) world answers fails ↔
      match world.tree.write? world.directory path content.toUTF8 with
      | some tree => answers () { world with tree }
      | none => fails failure world := by
  rw [writeText, ends_bind_iff, ends_liftM_iff, ends_insist_iff, run_write]
  cases world.tree.write? world.directory path content.toUTF8 <;> exact .rfl

theorem fromUTF8?_toUTF8 (content : String) : String.fromUTF8? content.toUTF8 = some content :=
  dif_pos content.isValidUTF8

theorem ends_readText_iff {answers : String → World → Prop} :
    Ends (readText path : Command (StateM World) String) world answers fails ↔
      match (world.tree.read? world.directory path).bind String.fromUTF8? with
      | some content => answers content world
      | none => fails (.unreadable path) world := by
  have hread : (Host.read? path : StateM World (Option ByteArray)).run world
      = (world.tree.read? world.directory path, world) := rfl
  rw [readText, ends_bind_iff, ends_liftM_iff, hread]
  cases world.tree.read? world.directory path with
  | none => exact .rfl
  | some bytes =>
    rw [Option.bind_some]
    dsimp only
    cases String.fromUTF8? bytes <;> exact .rfl

theorem ends_makeDirectories_iff {answers : Unit → World → Prop} :
    Ends (makeDirectories path failure : Command (StateM World) Unit) world answers fails ↔
      if (world.tree.makeDirectories world.directory path).2
      then answers () { world with tree := (world.tree.makeDirectories world.directory path).1 }
      else fails failure
        { world with tree := (world.tree.makeDirectories world.directory path).1 } := by
  rw [makeDirectories, ends_bind_iff, ends_liftM_iff, ends_insist_iff]
  exact .rfl

theorem ends_accepted_iff {α : Type} {result : Except Rejection α} {answers : α → World → Prop} :
    Ends (accepted result : Command (StateM World) α) world answers fails ↔
      match result with
      | .ok value => answers value world
      | .error rejection => fails (.rejected rejection.stage) world := by
  cases result <;> exact .rfl

end Command

open Command

/-! ## Runs of the program -/

/-- How a run of the program ends in a world, and the world after it. -/
def World.run (world : World) (arguments : List String) : Outcome × World :=
  (runArguments arguments : StateM World Outcome).run world

/-- A run of the program ends as the command it asks for does. -/
theorem World.run_of_ends {arguments : List String} {verb : Verb} {operand : String}
    (ends : Outcome → World → Prop)
    (harguments : Invocation.ofArguments arguments = .run verb operand)
    (h : Ends (runCommand verb operand) world (fun _ after => ends .success after)
      fun failure after => ends (.failed failure) after) :
    ends (world.run arguments).1 (world.run arguments).2 := by
  unfold Ends at h
  rw [World.run, runArguments, harguments, StateT.run_bind]
  rcases hrun : (runCommand verb operand : Command (StateM World) Unit).run.run world with
    ⟨_ | _, _⟩
  all_goals
    rw [hrun] at h
    exact h

/-! ## The files of a new project -/

/-- The tree grows, and the file that a path leads to gets its bytes. -/
def World.Writes (world : World) (path : Path) (bytes : ByteArray) (after : World) : Prop :=
  ∃ grown place, world.tree.GrowsTo grown ∧ grown.destination world.directory path = .ok place ∧
    grown.sight? place ≠ some .directory ∧ (put (.file bytes) place grown).GrowsTo after.tree

/-- What a new project may write over is its manifest. -/
theorem ends_writeSkeleton (directory : Path) (name : String) (world : World) :
    Ends (writeSkeleton directory name : Command (StateM World) Unit) world
      (fun _ after => world.Writes (Manifest.pathIn directory)
        (Manifest.ofName name).render.toUTF8 after)
      (fun _ after => world.tree.GrowsTo after.tree ∨ world.Writes (Manifest.pathIn directory)
        (Manifest.ofName name).render.toUTF8 after) := by
  unfold writeSkeleton
  extract_lets manifest entry rest
  -- the manifest and the program are written once the directories are there
  have hrest (grown : FileTree) (hgrows : world.tree.GrowsTo grown) :
      Ends (rest ()) { world with tree := grown }
        (fun _ after => world.Writes (Manifest.pathIn directory) manifest.render.toUTF8 after)
        (fun _ after => world.tree.GrowsTo after.tree ∨
          world.Writes (Manifest.pathIn directory) manifest.render.toUTF8 after) := by
    simp only [rest, Manifest.save, ends_bind_iff, ends_writeText_iff, ends_isThere_iff]
    split
    · next written hwrite =>
      obtain ⟨place, hplace, hover, rfl⟩ := write?_eq_some_iff.mp hwrite
      split
      · exact ⟨grown, place, hgrows, hplace, hover, .refl _⟩
      · next hentry =>
        rw [ends_writeText_iff]
        split
        · next complete hwrite =>
          exact ⟨grown, place, hgrows, hplace, hover,
            growsTo_of_write?_eq_some hwrite (by simpa using hentry)⟩
        · exact .inr ⟨grown, place, hgrows, hplace, hover, .refl _⟩
    · exact .inl hgrows
  split
  · rw [ends_bind_iff, ends_makeDirectories_iff]
    have hgrows := world.tree.makeDirectories_growsTo world.directory
    split_ifs
    · exact hrest _ (hgrows _)
    · exact .inl (hgrows _)
  · exact hrest world.tree (.refl _)

end Census
