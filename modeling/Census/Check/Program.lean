import Census.Check.Rules

/-!
# Checking programs

A program is walked from its root down to a limited depth, each node by the rule of its construct. A
walker counts the visits that it is inside of, and takes each back when it is over, with or without
a failure.

- `Walker`: a checker on its walk.
- `Walker.visit`: a visit that counts itself.
- `Walker.check`: checks a program in what the walker has declared and counted before.
- `Checker.check`: the same for a checker that is on no walk.
- `analyze`: checks a program on its own.
-/

namespace Census

/-- A checker and the number of visits that it is inside of. -/
structure Walker extends Checker where
  depth : Nat := 0
deriving DecidableEq, Repr

instance : Holds Walker where
  checker := Walker.toChecker
  update change walker := { walker with toChecker := change walker.toChecker }

namespace Walker

@[simp] theorem checker_mk (checker : Checker) (depth : Nat) :
    Holds.checker (⟨checker, depth⟩ : Walker) = checker := rfl

/-- Visits a node, unless the walker is too deep for that, and its parts as `inside` says. -/
def visitBy (inside : VisitOn Walker) : VisitOn Walker := fun parent node => do
  if depthLimit ≤ (← get).depth then
    Check.malformed .tooDeep node.span
  modify fun walker => { walker with depth := walker.depth + 1 }
  let outcome ← ExceptT.lift (Rule.apply inside parent node).run
  modify fun walker => { walker with depth := walker.depth - 1 }
  Check.liftExcept outcome

/-- Visits inside of each other, as many as there is fuel for. -/
def visitsBy : (fuel : Nat) → VisitOn Walker
  | 0 => fun _ node => Check.malformed .tooDeep node.span
  | fuel + 1 => visitBy (visitsBy fuel)

/-- Visits a node and all below it. No walker gets to the end of the fuel. -/
def visit : VisitOn Walker := visitsBy (depthLimit + 1)

end Walker

/-- Checks a whole program, its parts as `visit` says, and answers all that has been counted so
far. -/
def checkProgramBy {σ : Type} [Holds σ] (visit : VisitOn σ) (tree : Node) : CheckOn σ Metrics := do
  unless tree.kind = .program do
    Check.malformed (.rootNotProgram tree.kind) tree.span
  let _ ← Rule.visitChildren visit tree
  return (Holds.checker (← get)).metrics

/-- Checks a program: the metrics or the first problem, and the state in which the walk ends. -/
def Walker.check (walker : Walker) (tree : Node) : Except Diagnostic Metrics × Walker :=
  (checkProgramBy Walker.visit tree).run.run walker

/-- Checks a program: the metrics or the first problem, and what is declared and counted then. -/
def Checker.check (checker : Checker) (tree : Node) : Except Diagnostic Metrics × Checker :=
  let outcome := Walker.check ⟨checker, 0⟩ tree
  (outcome.1, outcome.2.toChecker)

/-- The metrics of a program that is checked on its own, or its first problem. -/
def analyze (tree : Node) : Except Diagnostic Metrics :=
  (Checker.check {} tree).1

end Census
