import Census.Project.Failure

/-!
# Projects

A project is a directory with a manifest.

- `Manifest.load`, `Manifest.save`: manifests as files.
- `Manifest.findFrom`: the nearest manifest, upwards from a directory.
- `Project.load`, `Project.find`, `Project.check`: projects and their check.
- `writeSkeleton`: the files of a new project.
-/

namespace Census

open Command

variable {m : Type → Type} [Monad m] [Host m]

namespace Manifest

/-- The path of the manifest of a directory. -/
def pathIn (directory : Path) : Path := directory.join (.ofText fileName)

/-- Reads the manifest that a file holds. -/
def load (path : Path) : Command m Manifest := do
  let content ← readText path
  let some manifest := parse? content | throw .badManifest
  return manifest

/-- Writes a manifest into a file. -/
def save (manifest : Manifest) (path : Path) : Command m Unit :=
  writeText path manifest.render (.unwritable path)

/-- The manifest of the first directory of a row that has one, and that directory. -/
def findAmong : List Path → Command m (Manifest × Path)
  | [] => throw .noManifest
  | directory :: others => do
    if ← (Host.isThere (pathIn directory) : m _) then
      return (← load (pathIn directory), directory)
    else
      findAmong others

/-- The nearest manifest to a path, upwards, and its directory. -/
def findFrom (start : Path) : Command m (Manifest × Path) := findAmong start.chain

end Manifest

/-- A directory with its manifest. -/
structure Project where
  directory : Path
  manifest : Manifest
deriving DecidableEq, Repr

namespace Project

/-- The project in a directory. -/
def load (directory : Path) : Command m Project := do
  return ⟨directory, ← Manifest.load (Manifest.pathIn directory)⟩

/-- The project around the working directory. -/
def find : Command m Project := do
  let search : Command m (Manifest × Path) := do
    Manifest.findFrom (← (Host.workingDirectory : m _))
  let (manifest, directory) ← search.tryCatch fun _ => throw .notInProject
  return ⟨directory, manifest⟩

/-- The file of the project's program. -/
def entryPath (project : Project) : Path := project.directory.join (.ofText project.manifest.entry)

/-- Writes a report line into a file and makes the directories above it. -/
def writeReport (path : Path) (metrics : Metrics) : Command m Unit := do
  if let some above := path.parent? then
    makeDirectories above (.uncreatable above)
  writeText path metrics.reportLine (.unwritable path)

/-- Checks the project's program and writes the report if the manifest asks for one. -/
def check (project : Project) : Command m Metrics := do
  let source ← readText project.entryPath
  let metrics ← accepted (checkSource source)
  if let some report := project.manifest.report then
    writeReport (project.directory.join (.ofText report)) metrics
  return metrics

end Project

/-- The program that a new project starts with. -/
def startProgram : String :=
  "// Sum the positive entries of a list.\n"
    ++ "listnum values;\n"
    ++ "num total;\n"
    ++ "bool positive;\n"
    ++ "\n"
    ++ "total = 0;\n"
    ++ "foreach (num value : values) \x7b\n"
    ++ "    positive = value > 0;\n"
    ++ "    if (positive) \x7b\n"
    ++ "        total = total + value;\n"
    ++ "    \x7d\n"
    ++ "\x7d\n"

/-- Writes the files of a new project: its manifest, and its program unless there is one. -/
def writeSkeleton (directory : Path) (name : String) : Command m Unit := do
  let manifest := Manifest.ofName name
  let entry := directory.join (.ofText manifest.entry)
  if let some above := entry.parent? then
    makeDirectories above (.uncreatable above)
  manifest.save (Manifest.pathIn directory)
  unless ← (Host.isThere entry : m _) do
    writeText entry startProgram (.uncreatable entry)

end Census
