import Census.Proofs.CommandLine.Steps
import Census.Proofs.Files.Changes

/-!
# Checks of projects and the files around them

A check of a project reads one file and, if that is an accepted program, may write another one. Up
to the last write nothing happens but that directories are made, and the last write changes the
file that the path of the report leads to.

- `World.HasProgram`, `run_analyzeFile`: accepted programs in files, and what is said about them.
- `Metrics.reportLine_eq`: the line with the counts.
- `World.WritesOnly`, `World.Refuses`, `ends_writeReport`: reports in files.
- `check_writes_report_only`: what a check answers and what it leaves.
-/

namespace Census

open Command FileTree

variable {world : World} {path : Path} {metrics : Metrics} {source : String}

/-! ## Programs in files -/

/-- The path leads to a text that all stages of processing accept, and these are its metrics. -/
def World.HasProgram (world : World) (path : Path) (metrics : Metrics) : Prop :=
  ∃ bytes source tokens tree,
    world.tree.read? world.directory path = some bytes ∧ String.fromUTF8? bytes = some source ∧
      tokenize source = .ok tokens ∧ parse tokens = .ok tree ∧ analyze tree = .ok metrics

theorem checkSource_eq_ok_iff :
    checkSource source = .ok metrics ↔ ∃ tokens tree, tokenize source = .ok tokens ∧
      parse tokens = .ok tree ∧ analyze tree = .ok metrics := by
  unfold checkSource treeOfSource Stage.mark
  cases tokenize source with
  | error problem => simp [Except.mapError, bind, Except.bind]
  | ok tokens =>
    cases hparse : parse tokens with
    | error problem => simp [Except.mapError, bind, Except.bind, hparse]
    | ok tree =>
      cases hanalyze : analyze tree <;>
        simp [Except.mapError, bind, Except.bind, hparse, hanalyze]

theorem World.hasProgram_iff :
    world.HasProgram path metrics ↔ ∃ source,
      (world.tree.read? world.directory path).bind String.fromUTF8? = some source ∧
        checkSource source = .ok metrics := by
  simp only [HasProgram, checkSource_eq_ok_iff, Option.bind_eq_some_iff]
  constructor
  · rintro ⟨bytes, source, tokens, tree, hread, htext, hstages⟩
    exact ⟨source, ⟨bytes, hread, htext⟩, tokens, tree, hstages⟩
  · rintro ⟨source, ⟨bytes, hread, htext⟩, tokens, tree, hstages⟩
    exact ⟨bytes, source, tokens, tree, hread, htext, hstages⟩

/-- An analysis of a program says its report. -/
theorem run_analyzeFile (h : world.HasProgram path metrics) :
    (analyzeFile path : Command (StateM World) Unit).run.run world
      = (.ok (), { world with said := world.said ++ metrics.reportLine }) := by
  obtain ⟨source, hread, haccepted⟩ := World.hasProgram_iff.mp h
  refine Ends.run_eq ?_
  rw [analyzeFile, ends_bind_iff, ends_readText_iff, hread]
  dsimp only
  rw [ends_bind_iff, ends_accepted_iff, haccepted]
  exact ⟨rfl, rfl⟩

/-! ## Reports -/

/-- The counts stand between braces, each behind its label, and a line feed ends the line. -/
theorem Metrics.reportLine_eq (metrics : Metrics) :
    metrics.reportLine
      = "\x7bVAR:" ++ toString metrics.declarations ++ ", WHILE:" ++ toString metrics.whileLoops
        ++ ", IF:" ++ toString metrics.conditionals ++ ", FOR:" ++ toString metrics.forLoops
        ++ ", OP:" ++ toString metrics.operators ++ "\x7d\n" := by
  have hend : "\x7d\n" = "\x7d" ++ "\n" := by decide
  rw [hend, ← String.append_assoc]
  rfl

/-- The file that a path leads to afterwards holds the bytes, and all other files are as they
were. -/
def World.WritesOnly (world : World) (path : Path) (bytes : ByteArray) (after : World) : Prop :=
  ∃ place, after.tree.destination world.directory path = .ok place ∧
    after.tree.at? place = some (.file bytes) ∧ world.tree.SameFilesBut [place] after.tree

/-- Nothing can be written where a path leads, not even when the directories above it have been
made, if they can be. -/
def World.Refuses (world : World) (path : Path) : Prop :=
  match path.parent? with
  | some above =>
    let (grown, made) := world.tree.makeDirectories world.directory above
    made = true → ∀ bytes, grown.write? world.directory path bytes = none
  | none => ∀ bytes, world.tree.write? world.directory path bytes = none

/-- A report is written into one file. Only where nothing can be written, no file changes. -/
theorem ends_writeReport (path : Path) (metrics : Metrics) (world : World) :
    Ends (Project.writeReport path metrics : Command (StateM World) Unit) world
      (fun _ after => world.WritesOnly path metrics.reportLine.toUTF8 after)
      (fun _ after => world.tree.SameFilesBut [] after.tree ∧ world.Refuses path) := by
  unfold Project.writeReport
  extract_lets rest
  -- the file is written once the directories are there
  have hrest (grown : FileTree) (hsame : world.tree.SameFilesBut [] grown)
      (hrefuses : (∀ bytes, grown.write? world.directory path bytes = none) → world.Refuses path) :
      Ends (rest ()) { world with tree := grown }
        (fun _ after => world.WritesOnly path metrics.reportLine.toUTF8 after)
        (fun _ after => world.tree.SameFilesBut [] after.tree ∧ world.Refuses path) := by
    simp only [rest, ends_writeText_iff]
    split
    · next written hwrite =>
      obtain ⟨place, hover, rfl, hplace, hat⟩ := destination_of_write? hwrite
      exact ⟨place, hplace, hat, hsame.trans (sameFilesBut_put hover)⟩
    · next hwrite => exact ⟨hsame, hrefuses (write?_eq_none_of_eq_none hwrite)⟩
  cases hparent : path.parent? with
  | none =>
    refine hrest world.tree (.refl _ _) fun hnone => ?_
    rw [World.Refuses, hparent]
    exact hnone
  | some above =>
    dsimp only
    rw [ends_bind_iff, ends_makeDirectories_iff]
    have hsame := world.tree.makeDirectories_sameFiles world.directory above
    split_ifs with hmade
    · refine hrest _ hsame fun hnone => ?_
      rw [World.Refuses, hparent]
      exact fun _ => hnone
    · refine ⟨hsame, ?_⟩
      rw [World.Refuses, hparent]
      exact fun hmade' => absurd hmade' hmade

/-! ## Checks -/

/-- **Checks of projects**. A check succeeds only if the project has an accepted program, and
answers its metrics. Then the file of the report, if there is to be one, holds the line that an
analysis of the program says: the five counts with their labels, and a line feed. All other files
are as they were. A check that fails changes no file. Without an accepted program it does nothing,
and with one it fails only if the report cannot be written. -/
theorem check_writes_report_only (project : Project) (world : World) :
    Ends (project.check : Command (StateM World) Metrics) world
      (fun metrics after =>
        let line := "\x7bVAR:" ++ toString metrics.declarations
          ++ ", WHILE:" ++ toString metrics.whileLoops
          ++ ", IF:" ++ toString metrics.conditionals ++ ", FOR:" ++ toString metrics.forLoops
          ++ ", OP:" ++ toString metrics.operators ++ "\x7d\n"
        world.HasProgram project.entryPath metrics ∧
        (analyzeFile project.entryPath : Command (StateM World) Unit).run.run world
          = (.ok (), { world with said := world.said ++ line }) ∧
        match project.manifest.report with
        | none => after = world
        | some report =>
          world.WritesOnly (project.directory.join (.ofText report)) line.toUTF8 after)
      fun _ after =>
        world.tree.SameFilesBut [] after.tree ∧
        ((∀ metrics, ¬ world.HasProgram project.entryPath metrics) → after = world) ∧
        ∀ metrics, world.HasProgram project.entryPath metrics →
          ∃ report, project.manifest.report = some report ∧
            world.Refuses (project.directory.join (.ofText report)) := by
  simp only [← Metrics.reportLine_eq]
  rw [Project.check, ends_bind_iff, ends_readText_iff]
  cases hread : (world.tree.read? world.directory project.entryPath).bind String.fromUTF8? with
  | none =>
    have hno : ∀ metrics, ¬ world.HasProgram project.entryPath metrics := by
      simp [World.hasProgram_iff, hread]
    exact ⟨.refl _ _, fun _ => rfl, fun metrics h => absurd h (hno metrics)⟩
  | some source =>
    dsimp only
    rw [ends_bind_iff, ends_accepted_iff]
    cases haccepted : checkSource source with
    | error rejection =>
      have hno : ∀ metrics, ¬ world.HasProgram project.entryPath metrics := by
        simp [World.hasProgram_iff, hread, haccepted]
      exact ⟨.refl _ _, fun _ => rfl, fun metrics h => absurd h (hno metrics)⟩
    | ok metrics =>
      dsimp only
      have hprogram := World.hasProgram_iff.mpr ⟨source, hread, haccepted⟩
      cases project.manifest.report with
      | none =>
        exact ⟨hprogram, run_analyzeFile hprogram, rfl⟩
      | some report =>
        dsimp only
        rw [ends_bind_iff]
        refine (ends_writeReport _ _ _).imp ?_ ?_
        · exact fun _ after hwrites => ⟨hprogram, run_analyzeFile hprogram, hwrites⟩
        · exact fun _ after ⟨hsame, hrefuses⟩ =>
            ⟨hsame, fun hno => absurd hprogram (hno metrics), fun _ _ => ⟨report, rfl, hrefuses⟩⟩

/-- A world with a project whose report goes into a directory that is not there yet. -/
def World.withReport : World where
  tree := .directory [("work", .directory [
    ("main.tly", .file "num a;".toUTF8),
    ("notes", .file "none".toUTF8)])]
  directory := ["work"]

/-- A check that makes a directory and writes a report into it: the line that an analysis says. -/
theorem check_writes_report_only_below :
    let world := World.withReport
    let manifest := { Manifest.ofName "first" with entry := "main.tly", report := some "out/line" }
    let project : Project := ⟨world.directoryPath, manifest⟩
    let line := "\x7bVAR:1, WHILE:0, IF:0, FOR:0, OP:0\x7d\n"
    ∃ after, (project.check : Command (StateM World) Metrics).run.run world
        = (.ok { declarations := 1 }, after) ∧
      (analyzeFile project.entryPath : Command (StateM World) Unit).run.run world
        = (.ok (), { world with said := line }) ∧
      world.WritesOnly ⟨true, ["work", "out", "line"]⟩ line.toUTF8 after := by
  intro world manifest project line
  have hline : "\x7bVAR:" ++ toString 1 ++ ", WHILE:" ++ toString 0 ++ ", IF:" ++ toString 0
      ++ ", FOR:" ++ toString 0 ++ ", OP:" ++ toString 0 ++ "\x7d\n" = line := by decide
  have hok : ((project.check : Command (StateM World) Metrics).run.run world).1
      = .ok { declarations := 1 } := by decide +kernel
  have hends := check_writes_report_only project world
  unfold Ends at hends
  rcases hrun : (project.check : Command (StateM World) Metrics).run.run world with ⟨_, after⟩
  rw [hrun] at hends hok
  obtain rfl := hok
  dsimp only at hends
  rw [hline] at hends
  exact ⟨after, rfl, hends.2.1, hends.2.2⟩

end Census
