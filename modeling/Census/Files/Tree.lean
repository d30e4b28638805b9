import Census.Files.Path

/-!
# File trees

A file tree says which directories and files there are. Paths are followed name by name from the
root or from a working directory.

- `FileTree`, `FileTree.at?`, `FileTree.put`: trees and what stands at a place in them.
- `Spot`, `Spot.follow`: where a path leads, name by name.
- `FileTree.locate`: where a whole path leads.
- `FileTree.read?`, `FileTree.write?`, `FileTree.makeDirectory`, `FileTree.makeDirectories`: what is
  done with files.
-/

namespace Census

/-- The names that lead from the root to a file or directory. -/
abbrev Place := List String

/-- A file with its bytes, or a directory with what stands in it under each name. -/
inductive FileTree where
  | file (bytes : ByteArray)
  | directory (entries : List (String × FileTree))

namespace FileTree

/-- A directory with nothing in it. -/
def emptyDirectory : FileTree := .directory []

/-- What stands under a name. -/
def child? : FileTree → String → Option FileTree
  | file _, _ => none
  | directory entries, name => entries.lookup name

/-- What stands at a place. -/
def at? (tree : FileTree) : Place → Option FileTree
  | [] => some tree
  | name :: place => (tree.child? name).bind fun child => child.at? place

/-- Puts `new` at a place, and directories on the way where nothing is. Files on the way stay. -/
def put (new : FileTree) : Place → FileTree → FileTree
  | [], _ => new
  | _ :: _, file bytes => file bytes
  | name :: place, directory entries =>
    let inner := (entries.lookup name).getD emptyDirectory
    directory ((name, put new place inner) :: entries.filter fun (other, _) => other != name)

end FileTree

/-- Why a path cannot be used. -/
inductive FileError where
  /-- Something on the way is not there. -/
  | missing
  /-- Anything else. -/
  | unusable
deriving DecidableEq, Repr

/-- The longest name a directory takes, in bytes. -/
def nameLimit : Nat := 255

/-- The longest path that is followed, in bytes. -/
def pathLimit : Nat := 4095

/-- Where the names followed so far lead. -/
structure Spot where
  /-- What stands there, if anything does. -/
  here : Option FileTree
  /-- The names that led there and the directories they stand in, the last ones first. -/
  above : List (String × FileTree)

namespace Spot

/-- The root of a tree. -/
def root (tree : FileTree) : Spot := ⟨some tree, []⟩

/-- The names that lead from the root to the spot. -/
def place (spot : Spot) : Place := (spot.above.map Prod.fst).reverse

/-- The directory above. The root stands above itself. -/
def up (spot : Spot) : Spot :=
  match spot.above with
  | [] => spot
  | (_, parent) :: above => ⟨some parent, above⟩

/-- Follows one name from a directory. Nothing need stand under it. -/
def follow (spot : Spot) (name : String) : Except FileError Spot :=
  match spot.here with
  | none => .error .missing
  | some (.file _) => .error .unusable
  | some (.directory entries) =>
    if name = "" || name = "." then .ok spot
    else if name = ".." then .ok spot.up
    else if name.utf8ByteSize > nameLimit then .error .unusable
    else .ok ⟨entries.lookup name, (name, .directory entries) :: spot.above⟩

end Spot

namespace FileTree

/-- Whether a path holds a null character, which no name can hold. -/
def hasNull (path : Path) : Bool := path.names.any fun name => name.toList.contains '\x00'

/-- Whether a path can be followed at all: all of it counts, slashes at its end included. -/
def isFollowable (path : Path) : Bool := !hasNull path && path.text.utf8ByteSize ≤ pathLimit

/-- Where a path leads from a working directory. All of it but the last name must be there. -/
def locate (tree : FileTree) (directory : Place) (path : Path) : Except FileError Spot :=
  if path = .empty then .error .missing
  else if !isFollowable path then .error .unusable
  else
    let names := if path.rooted then path.names else directory ++ path.names
    names.foldlM Spot.follow (.root tree)

/-- What a path leads to. -/
def find? (tree : FileTree) (directory : Place) (path : Path) : Option FileTree :=
  match tree.locate directory path with
  | .ok spot => spot.here
  | .error _ => none

/-- Whether a path leads to a directory. -/
def isDirectory (tree : FileTree) (directory : Place) (path : Path) : Bool :=
  match tree.find? directory path with
  | some (.directory _) => true
  | _ => false

/-- The bytes of the file a path leads to. -/
def read? (tree : FileTree) (directory : Place) (path : Path) : Option ByteArray :=
  match tree.find? directory path with
  | some (.file bytes) => some bytes
  | _ => none

/-- Gives the file a path leads to its bytes, whether it was there or not. -/
def write? (tree : FileTree) (directory : Place) (path : Path) (bytes : ByteArray) :
    Option FileTree :=
  match tree.locate directory path with
  | .error _ => none
  | .ok spot =>
    match spot.here with
    | some (.directory _) => none
    | _ => some (put (.file bytes) spot.place tree)

/-- A path without slashes at its end. -/
def withoutTrailing (path : Path) : Path :=
  ⟨path.rooted, (path.names.reverse.dropWhile (· == "")).reverse⟩

/-- Makes a directory where nothing is yet. Slashes may follow its name. -/
def makeDirectory (tree : FileTree) (directory : Place) (path : Path) :
    Except FileError FileTree := do
  unless isFollowable path do
    throw .unusable
  let spot ← tree.locate directory (withoutTrailing path)
  match spot.here with
  | some _ => .error .unusable
  | none => return put emptyDirectory spot.place tree

/-- Makes a directory and those above it that are missing. `chain` is its path, that path's parent,
and so on. What is made stays, also if more cannot be made; the flag tells whether the directory is
there in the end. -/
def makeChain (tree : FileTree) (directory : Place) : (chain : List Path) → FileTree × Bool
  | [] => (tree, false)
  | path :: above =>
    if path = .empty then (tree, true)
    else
      match tree.makeDirectory directory path with
      | .ok grown => (grown, true)
      | .error .unusable => (tree, tree.isDirectory directory path)
      | .error .missing =>
        match tree.makeChain directory above with
        | (grown, false) => (grown, false)
        | (grown, true) =>
          match grown.makeDirectory directory path with
          | .ok complete => (complete, true)
          | .error _ => (grown, grown.isDirectory directory path)

/-- Makes a directory and those above it that are missing. -/
def makeDirectories (tree : FileTree) (directory : Place) (path : Path) : FileTree × Bool :=
  tree.makeChain directory path.chain

end FileTree

end Census
