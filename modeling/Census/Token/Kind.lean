/-!
# Kinds of tokens

- `TokenKind.spelling`: how a kind is written in a program; identifiers and integers, which have no
  fixed spelling, are named instead.
- `TokenKind.keywords`, `TokenKind.symbols`: the kinds with a fixed spelling.
- `TokenKind.scalarKeywords`, `TokenKind.listKeywords`, `TokenKind.comparisons`: groups of kinds
  that the grammar treats alike.
-/

namespace Census

/-- The kinds of tokens a program is made of. -/
inductive TokenKind where
  | numKeyword
  | boolKeyword
  | listNumKeyword
  | listBoolKeyword
  | ifKeyword
  | elseKeyword
  | whileKeyword
  | forKeyword
  | foreachKeyword
  | trueKeyword
  | falseKeyword
  | identifier
  | integer
  | plus
  | minus
  | star
  | slash
  | percent
  | assign
  | equal
  | notEqual
  | less
  | lessEqual
  | greater
  | greaterEqual
  | conjunction
  | disjunction
  | bang
  | leftParen
  | rightParen
  | leftBrace
  | rightBrace
  | colon
  | semicolon
deriving DecidableEq, Repr

namespace TokenKind

/-- How the kind is written in a program, or what it is called if it has no fixed spelling. -/
def spelling : TokenKind → String
  | numKeyword => "num"
  | boolKeyword => "bool"
  | listNumKeyword => "listnum"
  | listBoolKeyword => "listbool"
  | ifKeyword => "if"
  | elseKeyword => "else"
  | whileKeyword => "while"
  | forKeyword => "for"
  | foreachKeyword => "foreach"
  | trueKeyword => "true"
  | falseKeyword => "false"
  | identifier => "identifier"
  | integer => "integer"
  | plus => "+"
  | minus => "-"
  | star => "*"
  | slash => "/"
  | percent => "%"
  | assign => "="
  | equal => "=="
  | notEqual => "!="
  | less => "<"
  | lessEqual => "<="
  | greater => ">"
  | greaterEqual => ">="
  | conjunction => "&&"
  | disjunction => "||"
  | bang => "!"
  | leftParen => "("
  | rightParen => ")"
  | leftBrace => "\x7b"
  | rightBrace => "\x7d"
  | colon => ":"
  | semicolon => ";"

/-- The kinds spelled like words. -/
def keywords : List TokenKind :=
  [numKeyword, boolKeyword, listNumKeyword, listBoolKeyword, ifKeyword, elseKeyword, whileKeyword,
    forKeyword, foreachKeyword, trueKeyword, falseKeyword]

/-- The kinds spelled with signs, those of two characters first. -/
def symbols : List TokenKind :=
  [equal, notEqual, lessEqual, greaterEqual, conjunction, disjunction,
    plus, minus, star, slash, percent, assign, less, greater, bang,
    leftParen, rightParen, leftBrace, rightBrace, colon, semicolon]

/-- The keywords that declare a scalar. -/
def scalarKeywords : List TokenKind := [numKeyword, boolKeyword]

/-- The keywords that declare a list. -/
def listKeywords : List TokenKind := [listNumKeyword, listBoolKeyword]

/-- The comparison operators. -/
def comparisons : List TokenKind := [equal, notEqual, less, lessEqual, greater, greaterEqual]

/-- Whether the kind is a keyword that starts a declaration. -/
def isTypeKeyword (kind : TokenKind) : Bool := decide (kind ∈ scalarKeywords ++ listKeywords)

/-- Whether the kind is a comparison operator. -/
def isComparison (kind : TokenKind) : Bool := decide (kind ∈ comparisons)

end TokenKind

end Census
