import Census.Toml.Text

/-!
# Writing TOML strings

A string is written in the plainest of four styles that can hold it; escapes are used only when no
style holds it as it stands.

- `Style.of`: the style for a content.
- `quoted`: the string as it stands in a document.
-/

namespace Census.Toml

/-- How a string is written. -/
inductive Style where
  | basic
  | literal
  | multiBasic
  | multiLiteral
deriving DecidableEq, Repr

/-- Characters that no style holds as they stand. A tab and a line feed are none of them. -/
def isControl (c : Char) : Bool :=
  (c.toNat < 0x20 && c != '\t' && c != '\n') || c.toNat == 0x7f

/-- The length of the longest row of `mark`s in a text that follows a row of `row` of them. -/
def longestRow (mark : Char) (row : Nat) : List Char → Nat
  | [] => row
  | c :: rest =>
    if c = mark then longestRow mark (row + 1) rest else max row (longestRow mark 0 rest)

/-- The first style that holds the content; failing that, a quoted one with escapes. -/
def Style.of (content : List Char) : Style :=
  let spansLines := content.contains '\n'
  let clean := !content.any isControl
  if clean && !spansLines && !content.contains '\\' && !content.contains '"' then .basic
  else if clean && !spansLines && !content.contains '\'' then .literal
  else if clean && !content.contains '\\' && longestRow '"' 0 content ≤ 2 then .multiBasic
  else if clean && longestRow '\'' 0 content ≤ 2 then .multiLiteral
  else if spansLines then .multiBasic
  else .basic

/-- An upper-case hexadecimal digit. -/
def hexChar (digit : Nat) : Char :=
  if digit < 10 then Char.ofNat ('0'.toNat + digit) else Char.ofNat ('A'.toNat + (digit - 10))

/-- A number in four hexadecimal digits. -/
def fourHex (code : Nat) : List Char :=
  [code / 4096 % 16, code / 256 % 16, code / 16 % 16, code % 16].map hexChar

/-- A character as it stands in a quoted string, marks and line feeds aside. -/
def escaped (c : Char) : List Char :=
  if c = '\x08' then ['\\', 'b']
  else if c = '\t' then ['\\', 't']
  else if c = '\x0c' then ['\\', 'f']
  else if c = '\r' then ['\\', 'r']
  else if c = '\\' then ['\\', '\\']
  else if isControl c then '\\' :: 'u' :: fourHex c.toNat
  else [c]

/-- The content of a quoted string of one line. -/
def basicContent : List Char → List Char
  | [] => []
  | c :: rest =>
    if c = '"' then '\\' :: '"' :: basicContent rest
    else if c = '\n' then '\\' :: 'n' :: basicContent rest
    else escaped c ++ basicContent rest

/-- The content of a quoted string of several lines, after a row of `row` marks. A mark that would
be the third of a row is escaped. -/
def multiBasicContent (row : Nat) : List Char → List Char
  | [] => []
  | c :: rest =>
    if c = '"' then
      if row < 2 then '"' :: multiBasicContent (row + 1) rest
      else '\\' :: '"' :: multiBasicContent 0 rest
    else escaped c ++ multiBasicContent 0 rest

/-- A line feed after the opening marks keeps line feeds of the content apart from them. -/
def opening (content : List Char) : List Char := if content.contains '\n' then ['\n'] else []

/-- The content of a string between the marks of a style. -/
def Style.write (content : List Char) : Style → List Char
  | basic => ['"'] ++ basicContent content ++ ['"']
  | literal => ['\''] ++ content ++ ['\'']
  | multiBasic =>
    ['"', '"', '"'] ++ opening content ++ multiBasicContent 0 content ++ ['"', '"', '"']
  | multiLiteral => ['\'', '\'', '\''] ++ opening content ++ content ++ ['\'', '\'', '\'']

/-- A string as it stands in a document. -/
def quoted (content : String) : String :=
  String.ofList ((Style.of content.toList).write content.toList)

end Census.Toml
