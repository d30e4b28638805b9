import Census.Toml.Scalar

/-!
# Reading TOML documents

A document is read line by line; every line says how its table grows.

- `value`: a value that may nest a given number of levels.
- `Line`: what a line says.
- `linesOf?`: the lines of a document.
- `tableOf?`: the table they amount to.
-/

namespace Census.Toml

open Reader

/-- Values nest fewer levels than this, and keys have fewer parts. -/
def nestingLimit : Nat := 80

/-- Letters, digits, underscores and hyphens make keys without quotes. -/
def isKeyChar (c : Char) : Bool := c.isAlphanum || c == '_' || c == '-'

/-- A key without dots: bare, or a string of one line. -/
def simpleKey : Reader String := fun text =>
  match text with
  | '"' :: rest => (basicBody rest).map fun (name, rest) => (String.ofList name, rest)
  | '\'' :: rest => (literalBody rest).map fun (name, rest) => (String.ofList name, rest)
  | _ =>
    let name := text.takeWhile isKeyChar
    if name.isEmpty then none else some (String.ofList name, text.drop name.length)

/-- A key with the path that leads to its table. -/
structure Key where
  path : List String
  name : String
deriving DecidableEq, Repr

/-- Reads a key, dotted or not, and the blanks around its parts. -/
def key : Reader Key := do
  let parts ← separated (char '.') do
    blank
    let part ← simpleKey
    blank
    return part
  match parts.getLast? with
  | some name => if parts.length < nestingLimit then return ⟨parts.dropLast, name⟩ else failure
  | none => failure

/-- Reads a key and the value given to it. -/
def pair (inner : Reader Value) : Reader (Key × Value) := do
  let key ← key
  char '='
  blank
  return (key, ← inner)

/-- Reads an array whose items `inner` reads. A comma may follow the last item. -/
def array (inner : Reader Value) : Reader Value := do
  char '['
  let items ← maybe do
    let items ← separated (char ',') do
      filler
      let item ← inner
      filler
      return item
    let _ ← maybe (char ',')
    return items
  filler
  char ']'
  return .array (items.getD [])

/-- Reads a table between braces whose values `inner` reads. -/
def inlineTable (inner : Reader Value) : Reader Value := do
  char '\x7b'
  let pairs ← maybe <| separated (char ',') do
    let entry ← pair inner
    blank
    return entry
  blank
  char '\x7d'
  let entries ← StateT.lift <| (pairs.getD []).foldlM
    (fun table (key, value) => Table.addPair key.path key.name value table) []
  return .table .inline entries

/-- Reads a string, a number, a date or a truth value. -/
def plainValue : Reader Value :=
  (do return .text (String.ofList (← string))) <|> scalar

/-- Reads a value that holds others in at most `levels` levels. -/
def value : (levels : Nat) → Reader Value
  | 0 => plainValue
  | levels + 1 => plainValue <|> array (value levels) <|> inlineTable (value levels)

/-- What a line of a document says. -/
inductive Line where
  | nothing
  /-- The lines that follow belong to the table of that name. -/
  | section (key : Key)
  /-- The lines that follow belong to a new element of the array of tables of that name. -/
  | element (key : Key)
  /-- A key has a value. -/
  | pair (key : Key) (value : Value)
deriving Repr, Inhabited

/-- Reads the content of a line. -/
def lineContent : Reader Line :=
  (do word "[["; let key ← key; word "]]"; return .element key)
    <|> (do char '['; let key ← key; char ']'; return .section key)
    <|> (do let (key, value) ← pair (value (nestingLimit - 1)); return .pair key value)

/-- Reads a line and its end. -/
def line : Reader Line := do
  blank
  let content ← maybe lineContent
  lineEnd
  return content.getD .nothing

/-- Reads lines to the end of the text. -/
def lines (text : List Char) : Option (List Line) :=
  if text.isEmpty then some []
  else
    match line text with
    | none => none
    | some (first, rest) =>
      if rest.length < text.length then (lines rest).map (first :: ·) else none
termination_by text.length

/-- The lines of a document, after a byte order mark if there is one. -/
def linesOf? (document : String) : Option (List Line) :=
  match document.toList with
  | '\ufeff' :: text => lines text
  | text => lines text

/-- What the lines so far amount to, and the table to which the next ones belong. -/
structure Draft where
  root : Table := []
  path : List String := []

/-- Grows a document by what a line says. -/
def Draft.grow (draft : Draft) : Line → Option Draft
  | .nothing => some draft
  | .section key => do
    return ⟨← draft.root.openSection key.path key.name, key.path ++ [key.name]⟩
  | .element key => do
    return ⟨← draft.root.openElement key.path key.name, key.path ++ [key.name]⟩
  | .pair key value => do
    let root ← draft.root.within draft.path (Table.addPair key.path key.name value)
    return { draft with root }

/-- The table that a document writes, unless it is no document or contradicts itself. -/
def tableOf? (document : String) : Option Table := do
  let draft ← (← linesOf? document).foldlM Draft.grow {}
  return draft.root

end Census.Toml
