import Census.CommandLine.Arguments
import Census.Project.Basic

/-!
# Commands

- `runCommand`: what each command does.
- `Outcome`, `runArguments`: a command line from its arguments to its end.
-/

namespace Census

open Command

variable {m : Type → Type} [Monad m] [Host m]

/-- The version of the program. -/
def programVersion : String := "0.1.0"

/-- What is said about a new project, `steps` being what to do first. -/
def welcome (name : String) (steps : String) : String :=
  s!"Created Tally project '{name}'\n\nTo get started:\n" ++ steps ++ "  tally check\n"

/-- Makes a directory with a new project in it. -/
def createProject (name : String) : Command m Unit := do
  let directory := Path.ofText name
  if ← (Host.isThere directory : m _) then
    throw (.directoryPresent name)
  makeDirectories directory (.directoryRefused name)
  writeSkeleton directory name
  say (welcome name s!"  cd {name}\n")

/-- The name of a project in a directory that has no name. -/
def defaultName : String := "tally-project"

/-- Makes the working directory a project. -/
def initProject : Command m Unit := do
  let directory ← (Host.workingDirectory : m _)
  if ← (Host.isThere (Manifest.pathIn directory) : m _) then
    throw .manifestPresent
  let name := directory.fileName?.getD defaultName
  writeSkeleton directory name
  say (welcome name "")

/-- Checks the project around the working directory. -/
def checkProject : Command m Unit := do
  let project ← Project.find
  let manifest := project.manifest
  say s!"Checking {manifest.name} v{manifest.version} ({project.directory.text})\n"
  let start ← (Host.clock : m _)
  let metrics ← project.check
  let seconds ← (Host.elapsedSince start : m _)
  say metrics.reportLine
  say s!"    Finished project checked successfully in {seconds}s\n"

/-- Says the report on a file. -/
def analyzeFile (path : Path) : Command m Unit := do
  let source ← readText path
  let metrics ← accepted (checkSource source)
  say metrics.reportLine

/-- Says the outline of a file. -/
def outlineFile (path : Path) : Command m Unit := do
  let source ← readText path
  say (← accepted (outlineSource source))

/-- Runs a command on its operand. -/
def runCommand (verb : Verb) (operand : String) : Command m Unit :=
  match verb with
  | .new => createProject operand
  | .init => initProject
  | .check => checkProject
  | .analyze => analyzeFile (.ofText operand)
  | .tree => outlineFile (.ofText operand)

/-- How a run of the program ends. -/
inductive Outcome where
  | success
  | failed (failure : Failure)
  | misused
deriving DecidableEq, Repr

/-- The exit code of a run. -/
def Outcome.exitCode : Outcome → Nat
  | success => 0
  | failed _ => 1
  | misused => 2

/-- What is said about the version, perhaps of one command. -/
def versionLine : Option Verb → String
  | none => s!"tally {programVersion}\n"
  | some verb => s!"tally-{verb.name} {programVersion}\n"

/-- How the program is used. -/
def usage : String :=
  "Usage: tally [-v] COMMAND

Commands:
"
    ++ "  new NAME      Create a new Tally project
"
    ++ "  init          Initialize a Tally project in an existing directory
"
    ++ "  check         Type check the current project and report its metrics
"
    ++ "  analyze FILE  Type check a single source file and report its metrics
"
    ++ "  tree FILE     Print the syntax tree of a source file
"

/-- Runs the program on its arguments. -/
def runArguments (arguments : List String) : m Outcome := do
  match Invocation.ofArguments arguments with
  | .misuse => return .misused
  | .help =>
    Host.say usage
    return .success
  | .version verb =>
    Host.say (versionLine verb)
    return .success
  | .run verb operand =>
    match ← (runCommand verb operand).run with
    | .ok () => return .success
    | .error failure => return .failed failure

end Census
