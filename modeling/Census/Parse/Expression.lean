import Census.Parse.Steps

/-!
# Reading expressions

An expression is a ladder of levels, each built over the next: disjunction and conjunction,
one comparison, plus and minus, times and its kin, stacked signs, stacked negations, a value.
A value in parentheses is an expression again, one nesting level deeper.

- `Parser.chain`: operands joined by operators of one level.
- `Parser.expressionOver`: the ladder, given the reader of what stands in parentheses.
-/

namespace Census.Parser

variable {m : Type → Type} [Monad m] [ReadsTokens m]

/-- A literal that is the next token. -/
def literal (kind : NodeKind) (token : Token) : Node := ⟨kind, [], token.span⟩

/-- Reads a variable, a literal, or what `inner` reads between parentheses. -/
def value (inner : m Node) : m Node := do
  let start ← nextSpan
  let content ← do
    match ← accept? [.identifier, .integer, .trueKeyword, .falseKeyword, .leftParen] with
    | none => refuse .value
    | some token =>
      match token.kind with
      | .identifier => pure (literal (.identifier token.text) token)
      | .integer => pure (literal (.integer token.text) token)
      | .trueKeyword => pure (literal (.boolean true) token)
      | .falseKeyword => pure (literal (.boolean false) token)
      | _ => do
        let content ← inner
        let _ ← expect .rightParen
        pure content
  return ⟨.value, [content], start.merge (← previousSpan)⟩

/-- Reads stacked operators and the operand they stand before. -/
def stacked (operators : List TokenKind) (kind : List String → NodeKind) (operand : m Node) :
    m Node := do
  let start ← nextSpan
  let run ← acceptRun operators
  let content ← operand
  let span := if run.isEmpty then content.span else start.merge content.span
  return ⟨kind (run.map Token.text), [content], span⟩

/-- Reads an operator and the operand behind it, if an operator follows. -/
def nextLink (operators : List TokenKind) (operand : m Node) : m (Option (String × Node)) := do
  let some operator ← accept? operators | return none
  let content ← operand
  return some (operator.text, content)

/-- Reads one or more operands with operators between them. -/
def chain (operators : List TokenKind) (kind : List String → NodeKind) (operand : m Node) :
    m Node := do
  let first ← operand
  let others ← repeated (nextLink operators operand)
  let operands := others.map Prod.snd
  return ⟨kind (others.map Prod.fst), first :: operands,
    first.span.merge (operands.getLastD first).span⟩

/-- Reads one operand, or two with a comparison operator between them. -/
def comparison (operand : m Node) : m Node := do
  let left ← operand
  match ← accept? TokenKind.comparisons with
  | none => return ⟨.comparison none, [left], left.span⟩
  | some operator =>
    let right ← operand
    return ⟨.comparison (some operator.text), [left, right], left.span.merge right.span⟩

/-- The level of stacked negations. -/
def negation (inner : m Node) : m Node :=
  stacked [.bang] .negation (value inner)

/-- The level of stacked signs. -/
def signed (inner : m Node) : m Node :=
  stacked [.plus, .minus] .signed (negation inner)

/-- The level of times, division and remainder. -/
def product (inner : m Node) : m Node :=
  chain [.star, .slash, .percent] .product (signed inner)

/-- The level of plus and minus. -/
def sum (inner : m Node) : m Node :=
  chain [.plus, .minus] .sum (product inner)

/-- The level of conjunction and disjunction. -/
def logical (inner : m Node) : m Node :=
  chain [.conjunction, .disjunction] .logical (comparison (sum inner))

/-- Reads an expression whose parentheses hold what `inner` reads. -/
def expressionOver (inner : m Node) : m Node := do
  let content ← logical inner
  return ⟨.expression, [content], content.span⟩

end Census.Parser
