/-!
# Reading TOML strings

A string stands between quotes or apostrophes, on one line or between tripled ones on several.
Quoted strings have escapes, the others are taken as they stand.

- `basicBody`, `literalBody`: what follows the opening mark of a one-line string.
- `multiBasicBody`, `multiLiteralBody`: what follows the opening marks of the other kind.
- `string`: a string of any kind.

Each reader answers the content and the text after the string.
-/

namespace Census.Toml

/-- Tabs and all characters but controls may stand in strings and comments as they are. -/
def isPlain (c : Char) : Bool := c == '\t' || (0x20 ≤ c.toNat && c.toNat != 0x7f)

/-- Spaces and tabs separate what stands on one line. -/
def isBlank (c : Char) : Bool := c == ' ' || c == '\t'

/-- The text after a line end, if one stands at the front. -/
def afterNewline? : List Char → Option (List Char)
  | '\n' :: rest => some rest
  | '\r' :: '\n' :: rest => some rest
  | _ => none

/-- The value of a hexadecimal digit. -/
def hexDigit? (c : Char) : Option Nat :=
  if c.isDigit then some (c.toNat - '0'.toNat)
  else if 'a' ≤ c ∧ c ≤ 'f' then some (c.toNat - 'a'.toNat + 10)
  else if 'A' ≤ c ∧ c ≤ 'F' then some (c.toNat - 'A'.toNat + 10)
  else none

/-- The number that digits write to a base, given each digit's value. -/
def number (base : Nat) (digits : List Nat) : Nat :=
  digits.foldl (fun value digit => base * value + digit) 0

/-- The character whose number `count` hexadecimal digits write, if it is one. -/
def scalar? (count : Nat) (text : List Char) : Option Char := do
  let digits ← (text.take count).mapM hexDigit?
  let code := number 16 digits
  if digits.length = count ∧ code.isValidChar then some (Char.ofNat code) else none

/-- The character an escape stands for and how many characters after the backslash write it. -/
def escape? : List Char → Option (Char × Nat)
  | 'b' :: _ => some ('\x08', 1)
  | 't' :: _ => some ('\t', 1)
  | 'n' :: _ => some ('\n', 1)
  | 'f' :: _ => some ('\x0c', 1)
  | 'r' :: _ => some ('\r', 1)
  | '"' :: _ => some ('"', 1)
  | '\\' :: _ => some ('\\', 1)
  | 'u' :: rest => (scalar? 4 rest).map fun c => (c, 5)
  | 'U' :: rest => (scalar? 8 rest).map fun c => (c, 9)
  | _ => none

/-- Puts a character in front of the content just read. -/
def push (c : Char) : List Char × List Char → List Char × List Char
  | (content, rest) => (c :: content, rest)

/-- Reads a quoted string of one line up to its closing mark. -/
def basicBody : List Char → Option (List Char × List Char)
  | [] => none
  | c :: rest =>
    if c = '"' then some ([], rest)
    else if c = '\\' then
      match escape? rest with
      | some (meant, extra) => (basicBody (rest.drop extra)).map (push meant)
      | none => none
    else if isPlain c then (basicBody rest).map (push c)
    else none
termination_by text => text.length
decreasing_by all_goals simp only [List.length_drop, List.length_cons]; omega

/-- Reads an apostrophized string of one line up to its closing mark. -/
def literalBody : List Char → Option (List Char × List Char)
  | [] => none
  | c :: rest =>
    if c = '\'' then some ([], rest)
    else if isPlain c then (literalBody rest).map (push c)
    else none

/-- Marks that stand directly before the three closing ones belong to the content, two at most. -/
def closing (mark : Char) (rest : List Char) : List Char × List Char :=
  let extra := (rest.take 2).takeWhile (· == mark)
  (extra, rest.drop extra.length)

/-- Skips blanks and line ends. -/
def skipLines : List Char → List Char
  | [] => []
  | c :: rest =>
    if isBlank c || c == '\n' then skipLines rest
    else if c = '\r' && rest.head? == some '\n' then skipLines rest
    else c :: rest

/-- How many characters after the backslash a backslash at the end of a line takes with it: the line
end and all blanks and line ends around it do not count. -/
def continuation? (text : List Char) : Option Nat :=
  (afterNewline? (text.dropWhile isBlank)).map fun rest => text.length - (skipLines rest).length

/-- Reads a quoted string of several lines up to its closing marks. Each line end counts as one line
feed. -/
def multiBasicBody : List Char → Option (List Char × List Char)
  | [] => none
  | '"' :: '"' :: '"' :: rest => some (closing '"' rest)
  | '\r' :: '\n' :: rest => (multiBasicBody rest).map (push '\n')
  | c :: rest =>
    if c = '\\' then
      match escape? rest with
      | some (meant, extra) => (multiBasicBody (rest.drop extra)).map (push meant)
      | none =>
        match continuation? rest with
        | some extra => multiBasicBody (rest.drop extra)
        | none => none
    else if isPlain c || c == '\n' then (multiBasicBody rest).map (push c)
    else none
termination_by text => text.length
decreasing_by all_goals simp only [List.length_drop, List.length_cons]; omega

/-- Reads an apostrophized string of several lines up to its closing marks. Each line end counts as
one line feed. -/
def multiLiteralBody : List Char → Option (List Char × List Char)
  | [] => none
  | '\'' :: '\'' :: '\'' :: rest => some (closing '\'' rest)
  | '\r' :: '\n' :: rest => (multiLiteralBody rest).map (push '\n')
  | c :: rest =>
    if isPlain c || c == '\n' then (multiLiteralBody rest).map (push c)
    else none

/-- A line end directly after the opening marks of a string of several lines does not count. -/
def afterOpening (text : List Char) : List Char := (afterNewline? text).getD text

/-- Reads a string of any kind. -/
def string : List Char → Option (List Char × List Char)
  | '"' :: '"' :: '"' :: rest => multiBasicBody (afterOpening rest)
  | '"' :: rest => basicBody rest
  | '\'' :: '\'' :: '\'' :: rest => multiLiteralBody (afterOpening rest)
  | '\'' :: rest => literalBody rest
  | _ => none

end Census.Toml
