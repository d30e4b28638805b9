import Census.Parse.Reading

/-!
# Parsers without counting

A parser need not count its place and its depth. It may as well have the tokens that are left, the
one it has just read, and readers that are told how many levels may nest in them. That is the form
in which proofs are about readers.

- `Cursor`, `Parser`: the reading state and what acts on it.
- `Parser.links`, `Parser.statements`: the two loops of the language.
- `Parser.expression`, `Parser.statement`: readers of what nests a given number of levels.
- `Parser.links_succ`, `Parser.statements_succ`, `Parser.acceptRun_eq`: what the loops do.
-/

namespace Census

/-- A place between tokens: the one just read, if any, and those to come. -/
structure Cursor where
  previous : Option Token
  rest : List Token
deriving DecidableEq, Repr

namespace Cursor

/-- The cursor before all tokens. -/
def atStart (tokens : List Token) : Cursor := ⟨none, tokens⟩

/-- The span of the next token; past the last one, the empty span where that one ends. -/
def span (cursor : Cursor) : Span :=
  match cursor.rest, cursor.previous with
  | token :: _, _ => token.span
  | [], some token => .emptyAt token.span.stop
  | [], none => {}

/-- The span of the token just read; before the first one, that of the next. -/
def previousSpan (cursor : Cursor) : Span :=
  match cursor.previous with
  | some token => token.span
  | none => cursor.span

/-- What comes next, in words. -/
def found (cursor : Cursor) : String :=
  match cursor.rest with
  | token :: _ => token.text
  | [] => "end of input"

end Cursor

/-- Reads something at a cursor and moves it forward, or refuses. -/
abbrev Parser := StateT Cursor (Except ParseError)

namespace Parser

/-! ## Steps -/

/-- The refusal to nest any deeper. -/
def refuseNesting {α : Type} : Parser α := fun cursor =>
  .error ⟨.nestingExceeded, cursor.span⟩

/-- How many tokens are left. -/
def remaining : Parser Nat := return (← get).rest.length

/-- Does the same again and again, until it answers nothing, but no more often than `fuel`. -/
def rounds {α : Type} (round : Parser (Option α)) : (fuel : Nat) → Parser (List α)
  | 0 => return []
  | fuel + 1 => do
    let some first ← round | return []
    return first :: (← rounds round fuel)

instance : ReadsTokens Parser where
  refuse what := fun cursor => .error ⟨.expected what cursor.found, cursor.span⟩
  finish := fun cursor =>
    if cursor.rest.isEmpty then .ok ((), cursor)
    else .error ⟨.unexpected cursor.found, cursor.span⟩
  nextSpan := return (← get).span
  previousSpan := return (← get).previousSpan
  nextKind? := return (← get).rest.head?.map Token.kind
  accept? kinds := fun cursor =>
    match cursor.rest with
    | token :: rest =>
      if token.kind ∈ kinds then .ok (some token, ⟨some token, rest⟩) else .ok (none, cursor)
    | [] => .ok (none, cursor)
  -- every round of a loop reads a token
  repeated round := do rounds round (← remaining)

/-! ## Loops -/

/-- Reads pairs of an operator and an operand as long as an operator follows. No more pairs fit
than `fuel`, the number of tokens left. -/
def links (operators : List TokenKind) (operand : Parser Node) :
    (fuel : Nat) → Parser (List (String × Node)) :=
  rounds (nextLink operators operand)

/-- Reads statements until a closing brace or the end. No more of them fit than `fuel`, the number
of tokens left. -/
def statements (statement : Parser Node) : (fuel : Nat) → Parser (List Node) :=
  rounds (nextStatement statement)

theorem repeated_nextLink (operators : List TokenKind) (operand : Parser Node) :
    repeated (nextLink operators operand) = remaining >>= links operators operand := rfl

theorem repeated_nextStatement (statement : Parser Node) :
    repeated (nextStatement statement) = remaining >>= statements statement := rfl

theorem links_succ (operators : List TokenKind) (operand : Parser Node) (fuel : Nat) :
    links operators operand (fuel + 1) = do
      let some operator ← accept? operators | return []
      let content ← operand
      return (operator.text, content) :: (← links operators operand fuel) := by
  rw [links, rounds]
  generalize rounds (nextLink operators operand) fuel = again
  rw [nextLink, bind_assoc]
  refine congrArg (_ >>= ·) (funext fun token? => ?_)
  cases token? <;> simp

theorem statements_succ (statement : Parser Node) (fuel : Nat) :
    statements statement (fuel + 1) = do
      match ← nextKind? with
      | none => return []
      | some .rightBrace => return []
      | some _ =>
        let first ← statement
        return first :: (← statements statement fuel) := by
  rw [statements, rounds]
  generalize rounds (nextStatement statement) fuel = again
  rw [nextStatement, bind_assoc]
  refine congrArg (_ >>= ·) (funext fun kind? => ?_)
  split <;> simp

/-- A run is the longest one. -/
theorem acceptRun_eq (kinds : List TokenKind) (cursor : Cursor) :
    (acceptRun kinds : Parser _) cursor =
      let run := cursor.rest.takeWhile fun token => decide (token.kind ∈ kinds)
      .ok (run, ⟨run.getLast?.or cursor.previous, cursor.rest.drop run.length⟩) := by
  obtain ⟨previous, rest⟩ := cursor
  show rounds (accept? kinds) rest.length ⟨previous, rest⟩ = _
  induction rest generalizing previous with
  | nil => rfl
  | cons token rest ih =>
    show ((accept? kinds : Parser _) ⟨previous, token :: rest⟩ >>= _) = _
    by_cases h : token.kind ∈ kinds
    · have hsome : (accept? kinds : Parser _) ⟨previous, token :: rest⟩
          = .ok (some token, ⟨some token, rest⟩) := if_pos h
      rw [hsome]
      show (rounds (accept? kinds) rest.length ⟨some token, rest⟩ >>= _) = _
      rw [ih]
      simp [h, List.getLast?_cons]
      rfl
    · have hnone : (accept? kinds : Parser _) ⟨previous, token :: rest⟩
          = .ok (none, ⟨previous, token :: rest⟩) := if_neg h
      rw [hnone]
      simp [h]
      rfl

/-! ## Nesting -/

/-- Reads an expression that may nest `levels` deep in parentheses. -/
def expression : (levels : Nat) → Parser Node
  | 0 => expressionOver refuseNesting
  | levels + 1 => expressionOver (expression levels)

/-- Reads a statement that may nest `levels` deep, itself included. -/
def statement : (levels : Nat) → Parser Node
  | 0 => refuseNesting
  | levels + 1 => statementOver (statement levels) (expression levels)

/-- Reads a program to its end. -/
def program : Parser Node := programOver (statement nestingLimit)

end Parser

end Census
