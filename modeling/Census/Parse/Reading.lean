import Census.Parse.Statement

/-!
# Parsing

The parser keeps its place in an array of tokens, and counts the statements and parentheses that it
is inside of. Each is counted out again when it is over, whether it was read or refused.

- `Bookmark`: the place and the count.
- `Reading`: what moves a bookmark, and may go on without an end.
- `Reading.rounds`, `Reading.nested`: going on as long as something comes, and going one level
  deeper.
- `Reading.statement`, `Reading.expression`: the readers, nested inside of each other.
- `parse`: the tree of a program.
-/

namespace Census

/-- A place in a row of tokens, and how many statements and parentheses are open there. -/
structure Bookmark (tokens : Array Token) where
  position : Nat
  depth : Nat
  position_le : position ≤ tokens.size
  depth_le : depth ≤ nestingLimit
deriving DecidableEq, Repr

namespace Bookmark

variable {tokens : Array Token}

/-- The bookmark in front of all tokens. -/
def atStart (tokens : Array Token) : Bookmark tokens := ⟨0, 0, Nat.zero_le _, Nat.zero_le _⟩

/-- The next token. -/
def next? (bookmark : Bookmark tokens) : Option Token := tokens[bookmark.position]?

/-- The span of the next token; past the last one, the empty span where that one ends. -/
def span (bookmark : Bookmark tokens) : Span :=
  match bookmark.next?, tokens.back? with
  | some token, _ => token.span
  | none, some last => .emptyAt last.span.stop
  | none, none => {}

/-- The span of the token just read; before the first one, that of the next. -/
def previousSpan (bookmark : Bookmark tokens) : Span :=
  if h : 0 < bookmark.position then
    have hsize := bookmark.position_le
    tokens[bookmark.position - 1].span
  else bookmark.span

/-- What comes next, in words. -/
def found (bookmark : Bookmark tokens) : String :=
  match bookmark.next? with
  | some token => token.text
  | none => "end of input"

/-- The place behind the next token. The end stays the end. -/
def advance (bookmark : Bookmark tokens) : Bookmark tokens :=
  if h : bookmark.position < tokens.size then
    { bookmark with position := bookmark.position + 1, position_le := h }
  else bookmark

/-- The same place, one level deeper. -/
def enter (bookmark : Bookmark tokens) (h : bookmark.depth < nestingLimit) : Bookmark tokens :=
  { bookmark with depth := bookmark.depth + 1, depth_le := h }

/-- The same place, one level higher. -/
def leave (bookmark : Bookmark tokens) : Bookmark tokens where
  position := bookmark.position
  depth := bookmark.depth - 1
  position_le := bookmark.position_le
  depth_le := Nat.le_trans (Nat.sub_le _ _) bookmark.depth_le

end Bookmark

/-- Moves a bookmark and answers something, or refuses; what was read before a refusal stays read.
There is no outcome at all if it goes on without an end. -/
abbrev Reading (tokens : Array Token) := ExceptT ParseError (StateT (Bookmark tokens) Option)

namespace Reading

open Census.Parser

variable {tokens : Array Token} {α : Type}

/-- Goes on without an end. -/
def endless : Reading tokens α := fun _ => none

/-- The refusal of the next token. -/
def fail (fault : Bookmark tokens → ParseFault) : Reading tokens α := do
  let bookmark ← get
  throw ⟨fault bookmark, bookmark.span⟩

/-- Rounds until one answers nothing. If there are more of them than `fuel`, they do not end. -/
def rounds (round : Reading tokens (Option α)) : (fuel : Nat) → Reading tokens (List α)
  | 0 => endless
  | fuel + 1 => do
    let some first ← round | return []
    return first :: (← rounds round fuel)

instance : ReadsTokens (Reading tokens) where
  refuse what := fail fun bookmark => .expected what bookmark.found
  finish := do
    if (← get).position < tokens.size then
      fail fun bookmark => .unexpected bookmark.found
  nextSpan := return (← get).span
  previousSpan := return (← get).previousSpan
  nextKind? := return (← get).next?.map Token.kind
  accept? kinds := do
    let some token := (← get).next? | return none
    if token.kind ∈ kinds then
      modify Bookmark.advance
      return some token
    else return none
  -- every round costs a token, so that the tokens left are more than enough
  repeated round := do rounds round (tokens.size - (← get).position + 1)

/-- Reads one level deeper, if the limit allows it. -/
def nested (inside : Reading tokens α) : Reading tokens α := do
  let bookmark ← get
  if h : bookmark.depth < nestingLimit then
    set (bookmark.enter h)
    let outcome ← ExceptT.lift inside.run
    modify Bookmark.leave
    match outcome with
    | .ok answer => return answer
    | .error error => throw error
  else fail fun _ => .nestingExceeded

/-- Reads expressions inside of each other. If there are more of them than `calls`, they do not
end. -/
def expressionBy : (calls : Nat) → Reading tokens Node
  | 0 => endless
  | calls + 1 => expressionOver (nested (expressionBy calls))

/-- Reads an expression. Below the limit on nesting no more fit inside of each other. -/
def expression : Reading tokens Node := expressionBy (nestingLimit + 1)

/-- Reads statements inside of each other. If there are more of them than `calls`, they do not
end. -/
def statementBy : (calls : Nat) → Reading tokens Node
  | 0 => endless
  | calls + 1 => statementAround (nested (statementBody (statementBy calls) expression))

/-- Reads a statement. Below the limit on nesting no more fit inside of each other. -/
def statement : Reading tokens Node := statementBy (nestingLimit + 1)

/-- Reads a program to its end. -/
def program : Reading tokens Node := programOver statement

end Reading

/-- The tree of a program, or where its tokens stop making sense. -/
def parse (tokens : List Token) : Except Diagnostic Node :=
  match Reading.program.run.run (Bookmark.atStart tokens.toArray) with
  | some (.ok tree, _) => .ok tree
  | some (.error error, _) => .error error.diagnostic
  -- parsing always comes to an end
  | none => .error (.grammatical "" {})

end Census
