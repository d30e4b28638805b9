/-!
# Paths

A path is a row of names between slashes, from the root or from wherever one stands. Paths are kept
as they were written; empty names and dots in them are skipped only where a path is followed.

- `Path.ofText`, `Path.text`: paths and how they are written.
- `Path.join`: a path seen from another one.
- `Path.parent?`: the path without its last component.
- `Path.chain`: a path, its parent, and so on.
-/

namespace Census

/-- Cuts a text at every slash. -/
def splitSlashes : List Char → List (List Char)
  | [] => [[]]
  | c :: rest =>
    if c = '/' then [] :: splitSlashes rest
    else
      match splitSlashes rest with
      | [] => [[c]]
      | name :: others => (c :: name) :: others

/-- A path as written: whether it starts with a slash, and the names after that. The empty path and
the root have no names; two slashes in a row have an empty name between them. -/
structure Path where
  rooted : Bool
  names : List String
deriving DecidableEq, Repr

namespace Path

/-- The path that a text writes. -/
def ofText (text : String) : Path :=
  match text.toList with
  | [] => ⟨false, []⟩
  | ['/'] => ⟨true, []⟩
  | '/' :: rest => ⟨true, (splitSlashes rest).map String.ofList⟩
  | text => ⟨false, (splitSlashes text).map String.ofList⟩

/-- How the path is written. -/
def text (path : Path) : String :=
  (if path.rooted then "/" else "") ++ "/".intercalate path.names

/-- The empty path. -/
def empty : Path := ⟨false, []⟩

/-- The root. -/
def root : Path := ⟨true, []⟩

/-- The path `right` seen from `left`: one slash stands between them. A rooted right part stands on
its own, and an empty one leaves the slash. -/
def join (left right : Path) : Path :=
  if right.rooted || left = empty then right
  else if left = root then ⟨true, right.names⟩
  else
    let front := if left.names.getLast? = some "" then left.names.dropLast else left.names
    let back := if right.names.isEmpty then [""] else right.names
    ⟨left.rooted, front ++ back⟩

/-- Whether the last of some names, given last first, is a component of the path. Empty names are
none, and dots only at the start of a path that is not rooted. -/
def isComponent (rooted : Bool) (name : String) (earlier : List String) : Bool :=
  name != "" && (name != "." || (earlier.isEmpty && !rooted))

/-- Names, last first, from the last component on. -/
def trim (rooted : Bool) : List String → List String
  | [] => []
  | name :: earlier =>
    if isComponent rooted name earlier then name :: earlier else trim rooted earlier

/-- The path without its last component and without what is none at the end. The root and the empty
path have no parent. -/
def parent? (path : Path) : Option Path :=
  match trim path.rooted path.names.reverse with
  | [] => none
  | _ :: earlier => some ⟨path.rooted, (trim path.rooted earlier).reverse⟩

/-- The last component, if it names something. -/
def fileName? (path : Path) : Option String :=
  match trim path.rooted path.names.reverse with
  | [] => none
  | name :: _ => if name = "." || name = ".." then none else some name

theorem length_trim_le (rooted : Bool) (names : List String) :
    (trim rooted names).length ≤ names.length := by
  induction names with
  | nil => simp [trim]
  | cons name earlier ih =>
    unfold trim
    split
    · exact Nat.le_refl _
    · exact Nat.le_succ_of_le ih

/-- A parent has fewer names. -/
theorem length_names_parent? {path parent : Path} (h : path.parent? = some parent) :
    parent.names.length < path.names.length := by
  unfold parent? at h
  split at h
  · simp at h
  · next name earlier heq =>
    obtain rfl := Option.some.inj h
    have outer := length_trim_le path.rooted path.names.reverse
    have inner := length_trim_le path.rooted earlier
    simp only [heq, List.length_cons, List.length_reverse] at outer ⊢
    omega

/-- A path, its parent, and so on as long as there is one. -/
def chain (path : Path) : List Path :=
  match _h : path.parent? with
  | none => [path]
  | some parent => path :: parent.chain
termination_by path.names.length
decreasing_by exact length_names_parent? _h

end Path

end Census
