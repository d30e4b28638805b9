import Census.Proofs.Parse.Following

/-!
# Progress of the parser

Wherever a routine of the parser starts, it comes to an end. By then it has not gone back, and it is
as deep as before. If it answers, it has read a token, unless it reads what may be empty.

- `Bookmark.Reaches`: one bookmark is so many tokens behind another one, and as deep.
- `Reading.Progresses`: a reading that comes to an end so many tokens further on.
- `Reading.Routine`: the routines of the parser.
- `Reading.Routine.progresses`: all of them progress.
-/

namespace Census

open Census.Parser

variable {tokens : Array Token}

/-- The second bookmark is `count` tokens or more behind the first one, and as deep. Both places are
among the tokens and below the limit on nesting. -/
structure Bookmark.Reaches (count : Nat) (bookmark after : Bookmark tokens) : Prop where
  position : bookmark.position + count ≤ after.position
  position_le : after.position ≤ tokens.size
  depth : after.depth = bookmark.depth
  depth_le : after.depth ≤ nestingLimit

namespace Reading

variable {α : Type} {cost : α → Nat} {reading : Reading tokens α} {depth levels : Nat}

/-- Wherever it starts, the reading comes to an end. If it answers, it has read as many tokens as
the answer costs, or more; if it refuses, it has not gone back. -/
def Progresses (cost : α → Nat) (reading : Reading tokens α) : Prop :=
  ∀ bookmark : Bookmark tokens, reading.Ends bookmark
    (fun answer after => bookmark.Reaches (cost answer) after)
    fun _ after => bookmark.Reaches 0 after

/-- What follows a parser that does not count, however many levels are left, progresses. -/
theorem progresses_of_follows
    (h : ∀ {depth levels}, depth + levels = nestingLimit →
      ∃ parser, Follows depth cost reading parser) : Progresses cost reading := by
  intro bookmark
  obtain ⟨parser, hfollows⟩ := h (Nat.add_sub_cancel' bookmark.depth_le)
  refine (hfollows bookmark rfl).imp ?_ ?_
  · rintro answer after ⟨-, hdepth, hread⟩
    exact ⟨hread, after.position_le, hdepth, after.depth_le⟩
  · rintro error after ⟨-, hdepth, hread⟩
    exact ⟨hread, after.position_le, hdepth, after.depth_le⟩

/-! ## Routines -/

/-- The routines of the parser, which call each other. -/
inductive Routine where
  | program
  | block
  | statement
  | statementBody
  | conditional
  | whileLoop
  | forLoop
  | foreachLoop
  | declaration
  | scalarDeclaration
  | assignment
  | condition
  | expression
  | logical
  | comparison
  | sum
  | product
  | signed
  | negation
  | value
  | identifier
deriving DecidableEq, Repr

/-- What a routine does. -/
def Routine.reader : Routine → Reading tokens Node
  | program => Reading.program
  | block => Parser.block Reading.statement
  | statement => Reading.statement
  | statementBody => Parser.statementBody Reading.statement Reading.expression
  | conditional => Parser.conditional Reading.statement Reading.expression
  | whileLoop => Parser.whileLoop Reading.statement Reading.expression
  | forLoop => Parser.forLoop Reading.statement Reading.expression
  | foreachLoop => Parser.foreachLoop Reading.statement
  | declaration => Parser.declaration
  | scalarDeclaration => Parser.scalarDeclaration
  | assignment => Parser.assignment Reading.expression
  | condition => Parser.condition Reading.expression
  | expression => Reading.expression
  | logical => Parser.logical (nested Reading.expression)
  | comparison => Parser.comparison (Parser.sum (nested Reading.expression))
  | sum => Parser.sum (nested Reading.expression)
  | product => Parser.product (nested Reading.expression)
  | signed => Parser.signed (nested Reading.expression)
  | negation => Parser.negation (nested Reading.expression)
  | value => Parser.value (nested Reading.expression)
  | identifier => Parser.identifier

/-- How many tokens an answer costs. Only a program and a block may be empty. -/
def Routine.least : Routine → Nat
  | program => 0
  | block => 0
  | _ => 1

/-- In parentheses expressions may nest one level less. -/
theorem exists_nested_expression_follows (hdepth : depth + levels = nestingLimit) :
    ∃ parser, FollowsTree depth (nested Reading.expression : Reading tokens Node) parser := by
  cases levels with
  | zero =>
    subst hdepth
    exact ⟨_, nested_refuses⟩
  | succ levels =>
    have hdeeper : depth + 1 + levels = nestingLimit := by omega
    exact ⟨_, nested_follows (by omega) (expression_follows hdeeper)⟩

theorem Routine.exists_follows (routine : Routine) (hdepth : depth + levels = nestingLimit) :
    ∃ parser, Follows depth (fun _ => routine.least) (routine.reader : Reading tokens Node)
      parser := by
  have hstatement : FollowsTree depth (Reading.statement : Reading tokens Node) _ :=
    statement_follows hdepth
  have hexpression : FollowsTree depth (Reading.expression : Reading tokens Node) _ :=
    expression_follows hdepth
  obtain ⟨_, hinner⟩ : ∃ parser, FollowsTree depth
      (nested Reading.expression : Reading tokens Node) parser :=
    exists_nested_expression_follows hdepth
  cases routine with
  | program => exact ⟨_, programOver_follows hstatement⟩
  | block => exact ⟨_, block_follows hstatement⟩
  | statement => exact ⟨_, hstatement⟩
  | statementBody => exact ⟨_, statementBody_follows hstatement hexpression⟩
  | conditional => exact ⟨_, conditional_follows hstatement hexpression⟩
  | whileLoop => exact ⟨_, whileLoop_follows hstatement hexpression⟩
  | forLoop => exact ⟨_, forLoop_follows hstatement hexpression⟩
  | foreachLoop => exact ⟨_, foreachLoop_follows hstatement⟩
  | declaration => exact ⟨_, declaration_follows⟩
  | scalarDeclaration => exact ⟨_, scalarDeclaration_follows⟩
  | assignment => exact ⟨_, assignment_follows hexpression⟩
  | condition => exact ⟨_, condition_follows hexpression⟩
  | expression => exact ⟨_, hexpression⟩
  | logical => exact ⟨_, logical_follows hinner⟩
  | comparison => exact ⟨_, comparison_follows (sum_follows hinner)⟩
  | sum => exact ⟨_, sum_follows hinner⟩
  | product => exact ⟨_, product_follows hinner⟩
  | signed => exact ⟨_, signed_follows hinner⟩
  | negation => exact ⟨_, negation_follows hinner⟩
  | value => exact ⟨_, value_follows hinner⟩
  | identifier => exact ⟨_, follows_identifier⟩

theorem Routine.progresses (routine : Routine) :
    Progresses (fun _ => routine.least) (routine.reader : Reading tokens Node) :=
  progresses_of_follows routine.exists_follows

end Reading

end Census
