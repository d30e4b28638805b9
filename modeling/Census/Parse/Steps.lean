import Census.Diagnostic
import Census.Token.Basic
import Census.Tree.Basic

/-!
# Steps of readers

A reader goes forward over a row of tokens and answers something, or refuses at a place. Readers
are made of few steps, and do not say how a parser keeps its tokens and its place among them.

- `ParseFault`: why tokens are refused.
- `ReadsTokens`: the steps that readers are made of.
- `Parser.acceptRun`, `Parser.expect`, `Parser.identifier`: more steps that consume tokens.
-/

namespace Census

/-- What had to come next. -/
inductive Expectation where
  | token (kind : TokenKind)
  | identifier
  | scalarKeyword
  | value
  | statement
deriving DecidableEq, Repr

/-- How an expectation is told. -/
def Expectation.description : Expectation → String
  | token kind => s!"'{kind.spelling}'"
  | identifier => "identifier"
  | scalarKeyword => "'num' or 'bool'"
  | value => "value"
  | statement => "statement"

/-- How many levels of statements and parentheses a program may nest. -/
def nestingLimit : Nat := 100

/-- Why tokens are refused. -/
inductive ParseFault where
  /-- Something else had to come next. -/
  | expected (what : Expectation) (found : String)
  /-- The program was over, and something follows. -/
  | unexpected (found : String)
  /-- The program nests too deeply. -/
  | nestingExceeded
deriving DecidableEq, Repr

/-- How a fault is told. -/
def ParseFault.message : ParseFault → String
  | expected what found => s!"Expected {what.description}, found '{found}'"
  | unexpected found => s!"Unexpected '{found}'"
  | nestingExceeded => s!"Nesting exceeds {nestingLimit} levels"

/-- A fault and the place of the token that shows it. -/
structure ParseError where
  fault : ParseFault
  span : Span
deriving DecidableEq, Repr

/-- How a refusal is reported. -/
def ParseError.diagnostic (error : ParseError) : Diagnostic :=
  .grammatical error.fault.message error.span

/-- What parsers can do besides one thing after another. -/
class ReadsTokens (m : Type → Type) where
  /-- The refusal that something else had to come next. -/
  refuse {α : Type} : Expectation → m α
  /-- The refusal of whatever comes next. At the end nothing is refused. -/
  finish : m Unit
  /-- The span of the next token. -/
  nextSpan : m Span
  /-- The span of the token just read. -/
  previousSpan : m Span
  /-- The kind of the next token. -/
  nextKind? : m (Option TokenKind)
  /-- Reads the next token if it is of one of the given kinds. -/
  accept? : List TokenKind → m (Option Token)
  /-- Does the same again and again, until it answers nothing. -/
  repeated {α : Type} : m (Option α) → m (List α)

namespace Parser

export ReadsTokens (refuse finish nextSpan previousSpan nextKind? accept? repeated)

variable {m : Type → Type} [Monad m] [ReadsTokens m]

/-- Reads tokens as long as they are of one of the given kinds. -/
def acceptRun (kinds : List TokenKind) : m (List Token) := repeated (accept? kinds)

/-- Reads a token of the given kind. -/
def expect (kind : TokenKind) : m Token := do
  let some token ← accept? [kind] | refuse (.token kind)
  return token

/-- Reads an identifier. -/
def identifier : m Node := do
  let some token ← accept? [.identifier] | refuse .identifier
  return ⟨.identifier token.text, [], token.span⟩

end Parser

end Census
