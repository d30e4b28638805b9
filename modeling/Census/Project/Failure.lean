import Census.Files.Host
import Census.Manifest
import Census.Report

/-!
# Failures of commands

- `Failure`, `Failure.message`: why a command stops, and how that is told.
- `Command`: what acts on a host and may stop.
-/

namespace Census

/-- Why a command stops. -/
inductive Failure where
  | unreadable (path : Path)
  | unwritable (path : Path)
  | uncreatable (path : Path)
  | badManifest
  | noManifest
  | notInProject
  | manifestPresent
  | directoryPresent (name : String)
  | directoryRefused (name : String)
  | rejected (stage : Stage)
deriving DecidableEq, Repr

/-- How a failure is told. -/
def Failure.message : Failure → String
  | unreadable path => s!"Failed to read {path.text}"
  | unwritable path => s!"Failed to write {path.text}"
  | uncreatable path => s!"Failed to create {path.text}"
  | badManifest => s!"Failed to parse {Manifest.fileName}"
  | noManifest =>
    s!"Could not find {Manifest.fileName} in current directory or any parent directory"
  | notInProject => "Not in a Tally project directory"
  | manifestPresent => s!"{Manifest.fileName} already exists in current directory"
  | directoryPresent name => s!"Directory '{name}' already exists"
  | directoryRefused name => s!"Failed to create directory '{name}'"
  | rejected stage => stage.failure

/-- Acts on a host and may stop; what was done before stays done. -/
abbrev Command (m : Type → Type) := ExceptT Failure m

namespace Command

variable {m : Type → Type} [Monad m] [Host m]

/-- Stops with a failure unless a condition holds. -/
def insist (condition : Bool) (failure : Failure) : Command m Unit :=
  unless condition do throw failure

/-- Reads a text file. -/
def readText (path : Path) : Command m String := do
  let some bytes ← (Host.read? path : m _) | throw (.unreadable path)
  let some content := String.fromUTF8? bytes | throw (.unreadable path)
  return content

/-- Writes a text file, or stops with the given failure. -/
def writeText (path : Path) (content : String) (failure : Failure) : Command m Unit := do
  insist (← (Host.write path content.toUTF8 : m _)) failure

/-- Makes a directory and those above it, or stops with the given failure. -/
def makeDirectories (path : Path) (failure : Failure) : Command m Unit := do
  insist (← (Host.makeDirectories path : m _)) failure

/-- Says something. -/
def say (text : String) : Command m Unit := (Host.say text : m _)

/-- Goes on with an accepted source text, or stops at the stage that rejected it. -/
def accepted {α : Type} (result : Except Rejection α) : Command m α :=
  match result with
  | .ok value => return value
  | .error rejection => throw (.rejected rejection.stage)

end Command

end Census
