import Census.Files.Tree

/-!
# Where commands run

Commands act on files and speak through a `Host`, so that the same command runs on a real machine
and on a `World`, which is plain data.

- `Host`: what a command can do.
- `World`: a file tree, a working directory, and what has been said.
-/

namespace Census

/-- What a command can do where it runs. -/
class Host (m : Type → Type) where
  /-- The directory that relative paths start from. -/
  workingDirectory : m Path
  /-- Whether a path leads to anything. -/
  isThere : Path → m Bool
  /-- The bytes of the file a path leads to. -/
  read? : Path → m (Option ByteArray)
  /-- Gives a file its bytes; answers whether that was possible. -/
  write : Path → ByteArray → m Bool
  /-- Makes a directory and those above it; answers whether it is there then. -/
  makeDirectories : Path → m Bool
  /-- Says something. -/
  say : String → m Unit
  /-- The time on some clock, in milliseconds. -/
  clock : m Nat
  /-- How many seconds have passed since a time on that clock, in words. -/
  elapsedSince : Nat → m String

/-- A place to run commands that is plain data. -/
structure World where
  tree : FileTree := .emptyDirectory
  /-- The place of the working directory. -/
  directory : Place := []
  /-- All that has been said. -/
  said : String := ""
  /-- What every elapsed time is given as. -/
  elapsed : String := "0.00"

namespace World

/-- The path of the working directory. -/
def directoryPath (world : World) : Path := ⟨true, world.directory⟩

instance : Host (StateM World) where
  workingDirectory := return (← get).directoryPath
  isThere path := return ((← get).tree.find? (← get).directory path).isSome
  read? path := return (← get).tree.read? (← get).directory path
  write path bytes := do
    let world ← get
    match world.tree.write? world.directory path bytes with
    | some tree => do
      set { world with tree }
      return true
    | none => return false
  makeDirectories path := do
    let world ← get
    match world.tree.makeDirectories world.directory path with
    | (tree, made) => do
      set { world with tree }
      return made
  say text := modify fun world => { world with said := world.said ++ text }
  clock := return 0
  elapsedSince _ := return (← get).elapsed

end World

end Census
