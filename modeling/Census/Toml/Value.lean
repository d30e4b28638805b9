/-!
# TOML values and tables

A document is a table; its values may hold tables in turn. A table remembers how it came to be,
which decides whether it may still grow.

- `Origin`, `Value`, `Table`: the data.
- `Table.find?`: the value under a key.
- `Table.descend`: acts on the table at the end of a path; every rule on growing a document is a
  use of it.
- `Table.addPair`, `Table.openSection`, `Table.openElement`: the three ways a document grows.
-/

namespace Census.Toml

/-- How a table came to be. -/
inductive Origin where
  /-- By a header of its own, or as an element of an array of tables. -/
  | header
  /-- By the header of a table inside it. -/
  | implied
  /-- By a dotted key. -/
  | dotted
  /-- As a value between braces, which is all there ever is of it. -/
  | inline
deriving DecidableEq, Repr

/-- A value. Fractions and dates are kept as written. -/
inductive Value where
  | text (content : String)
  | integer (value : Int)
  | fraction (literal : String)
  | truth (value : Bool)
  | date (literal : String)
  | array (items : List Value)
  | table (origin : Origin) (entries : List (String × Value))
  /-- Tables that headers in double brackets collect under one name. -/
  | tables (elements : List (List (String × Value)))
deriving Repr, Inhabited

/-- Keys with their values, in the order in which they came to be. -/
abbrev Table := List (String × Value)

namespace Table

/-- The value under a key. -/
def find? (table : Table) (key : String) : Option Value := table.lookup key

/-- Replaces what is under a key by what `change` makes of it, unless it refuses. -/
def alter (key : String) (change : Option Value → Option Value) : Table → Option Table
  | [] => (change none).map fun value => [(key, value)]
  | (name, value) :: others =>
    if name = key then (change (some value)).map fun value => (name, value) :: others
    else (alter key change others).map fun others => (name, value) :: others

/-- Adds a key that is not there yet. -/
def add (key : String) (value : Value) (table : Table) : Option Table :=
  table.alter key fun
    | none => some value
    | some _ => none

/-- Acts on the table at the end of a path. Missing tables on the way come to be with origin
`fresh`; a table there must have an origin that `passes`; of an array of tables the last element is
meant. The action learns the origin of the table it acts on, `origin` if the path is empty. -/
def descend (fresh : Origin) (passes : Origin → Bool) (act : Origin → Table → Option Table)
    (origin : Origin) : List String → Table → Option Table
  | [], table => act origin table
  | key :: path, table => table.alter key fun
    | none => (descend fresh passes act fresh path []).map (.table fresh)
    | some (.table found inner) =>
      if passes found then (descend fresh passes act found path inner).map (.table found)
      else none
    | some (.tables elements) => do
      let last ← elements.getLast?
      let grown ← descend fresh passes act .header path last
      return .tables (elements.dropLast ++ [grown])
    | some _ => none

/-- Adds a value under a dotted key: tables on the way must be implied or dotted, and the one that
takes the last part must be dotted, so that tables with a header of their own stay as they are. -/
def addPair (path : List String) (key : String) (value : Value) (table : Table) : Option Table :=
  table.descend .dotted (fun origin => origin = .dotted || origin = .implied)
    (fun origin inner => if origin = .dotted then inner.add key value else none) .dotted path

/-- Acts on the table that a header names. -/
def within (path : List String) (act : Table → Option Table) (table : Table) : Option Table :=
  table.descend .implied (· ≠ .inline) (fun _ inner => act inner) .header path

/-- Opens the table that a header names. It must be new, or so far only implied. -/
def openSection (path : List String) (key : String) : Table → Option Table :=
  within path (alter key fun
    | none => some (.table .header [])
    | some (.table .implied inner) => some (.table .header inner)
    | some _ => none)

/-- Opens a new last element of the array of tables that a header names. -/
def openElement (path : List String) (key : String) : Table → Option Table :=
  within path (alter key fun
    | none => some (.tables [[]])
    | some (.tables elements) => some (.tables (elements ++ [[]]))
    | some _ => none)

end Table

end Census.Toml
