import Census.Toml.Text

/-!
# Reading TOML pieces

A `Reader` takes something off the front of a text, or does not fit it. A reader that does not fit
leaves the text to others.

- `Reader.char`, `Reader.one`, `Reader.word`, `Reader.skipWhile`: the steps.
- `Reader.maybe`, `Reader.many`, `Reader.separated`: how steps are repeated.
- `Reader.written`: the text that a reader took.
- `blank`, `newline`, `comment`, `filler`: what stands between values.
-/

namespace Census.Toml

/-- Takes something off the front of a text, or does not fit. -/
abbrev Reader := StateT (List Char) Option

namespace Reader

/-- Takes one character of a class. -/
def one (fits : Char → Bool) : Reader Char
  | [] => none
  | c :: rest => if fits c then some (c, rest) else none

/-- Takes the given character. -/
def char (c : Char) : Reader Unit := do
  let _ ← one (· == c)

/-- Takes exactly the given text. -/
def word (expected : String) : Reader Unit := fun text =>
  if expected.toList.isPrefixOf text then some ((), text.drop expected.length) else none

/-- Takes characters of a class as long as they come. -/
def skipWhile (fits : Char → Bool) : Reader Unit := fun text => some ((), text.dropWhile fits)

/-- Takes what the reader takes, or nothing. -/
def maybe {α : Type} (reader : Reader α) : Reader (Option α) := fun text =>
  match reader text with
  | some (value, rest) => some (some value, rest)
  | none => some (none, text)

/-- What a reader takes when it is repeated while it fits and takes something, and the text left. -/
def repeated {α : Type} (reader : Reader α) (text : List Char) : List α × List Char :=
  match reader text with
  | none => ([], text)
  | some (first, rest) =>
    if rest.length < text.length then
      let (others, rest) := repeated reader rest
      (first :: others, rest)
    else ([first], rest)
termination_by text.length

/-- Repeats a reader while it fits. -/
def many {α : Type} (reader : Reader α) : Reader (List α) := fun text =>
  some (repeated reader text)

/-- Takes one or more things with a separator between them. A separator that nothing follows is
left. -/
def separated {α : Type} (separator : Reader Unit) (reader : Reader α) : Reader (List α) := do
  let first ← reader
  let others ← many do
    separator
    reader
  return first :: others

/-- The text that a reader took. -/
def written {α : Type} (reader : Reader α) : Reader (List Char) := fun text =>
  match reader text with
  | some (_, rest) => some (text.take (text.length - rest.length), rest)
  | none => none

end Reader

open Reader

/-- Blanks on one line. -/
def blank : Reader Unit := skipWhile isBlank

/-- A line end. -/
def newline : Reader Unit := fun text => (afterNewline? text).map fun rest => ((), rest)

/-- A comment up to the end of its line. -/
def comment : Reader Unit := do
  char '#'
  skipWhile isPlain

/-- What may stand between the values of an array: blanks, line ends, comments that end their
line. -/
def filler : Reader Unit := do
  let _ ← many (char ' ' <|> char '\t' <|> newline <|> do comment; newline)

/-- The end of a line or of the document, perhaps after blanks and a comment. -/
def lineEnd : Reader Unit := do
  blank
  let _ ← maybe comment
  fun text => if text.isEmpty then some ((), []) else newline text

end Census.Toml
