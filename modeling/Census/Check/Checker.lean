import Census.Check.Metrics
import Census.Check.SymbolTable
import Census.Tree.Basic

/-!
# The state of a check

A `Checker` holds what a walk over program trees has declared and counted. A `Check` acts on it:
it answers something or fails with a diagnostic, and what was declared and counted before a
failure stays. A walk may keep more in its state than that, so the steps of checks are for any state
that holds a checker.

- `Malformation`: the shapes no program has.
- `Check.child`, `Check.nameOf`, `Check.typeOf`: a node's part, name or type, insisted upon.
- `Check.declare`, `Check.lookupType`, `Check.count`: the steps that touch the state.
-/

namespace Census

/-- How deep below its root a tree is walked. -/
def depthLimit : Nat := 1024

/-- A shape that no program has. -/
inductive Malformation where
  | rootNotProgram (found : NodeKind)
  | missingChild (kind : NodeKind) (index : Nat)
  | notIdentifier (found : NodeKind)
  | noValue (kind : NodeKind)
  | noOperands (kind : NodeKind)
  | comparisonArity (operands : Nat) (hasOperator : Bool)
  | tooDeep
deriving DecidableEq, Repr

/-- How a malformation is told. -/
def Malformation.message : Malformation → String
  | rootNotProgram found => s!"expected Program at the root, found {found.name}"
  | missingChild kind index => s!"{kind.name} is missing child {index}"
  | notIdentifier found => s!"expected Identifier, found {found.name}"
  | noValue kind => s!"{kind.name} does not produce a value"
  | noOperands kind => s!"{kind.name} without operands"
  | comparisonArity operands hasOperator =>
    s!"comparison over {operands} operands" ++ if hasOperator then "" else " without an operator"
  | tooDeep => s!"tree nesting exceeds {depthLimit} levels"

/-- What has been declared and counted so far. -/
structure Checker where
  symbols : SymbolTable := {}
  metrics : Metrics := {}
deriving DecidableEq, Repr

/-- States that hold a checker. -/
class Holds (σ : Type) where
  checker : σ → Checker
  update : (Checker → Checker) → σ → σ

instance : Holds Checker := ⟨id, id⟩

@[simp] theorem checker_self (checker : Checker) : Holds.checker checker = checker := rfl

/-- Acts on a state that holds a checker; a failure keeps what was done before it. -/
abbrev CheckOn (σ : Type) := ExceptT Diagnostic (StateM σ)

/-- Acts on a checker. -/
abbrev Check := CheckOn Checker

namespace Check

variable {σ : Type}

/-- The failure on a tree that has a shape no program has. -/
def malformed {α : Type} (what : Malformation) (span : Span) : CheckOn σ α :=
  throw (.malformedTree what.message span)

/-- The part of a node with the given number. -/
def child (node : Node) (index : Nat) : CheckOn σ Node :=
  match node.child? index with
  | some part => return part
  | none => malformed (.missingChild node.kind index) node.span

/-- The name an identifier carries. -/
def nameOf (node : Node) : CheckOn σ String :=
  match node.identifier? with
  | some name => return name
  | none => malformed (.notIdentifier node.kind) node.span

/-- The type that `node` produced, insisting that it produced one. -/
def typeOf (produced : Option ValueType) (node : Node) : CheckOn σ ValueType :=
  match produced with
  | some type => return type
  | none => malformed (.noValue node.kind) node.span

/-- An answer or a failure that leaves the state alone. -/
def liftExcept {α : Type} : Except Diagnostic α → CheckOn σ α
  | .ok answer => return answer
  | .error diagnostic => throw diagnostic

variable [Holds σ]

/-- The type of the variable that is used at `span`. -/
def lookupType (name : String) (span : Span) : CheckOn σ ValueType := do
  liftExcept ((Holds.checker (← get)).symbols.lookupType name span)

/-- Counts something. -/
def count (step : Metrics → Metrics) : CheckOn σ Unit :=
  modify (Holds.update fun checker => { checker with metrics := step checker.metrics })

/-- Declares a variable and counts it. -/
def declare (name : String) (type : ValueType) (span : Span) : CheckOn σ Unit := do
  match (Holds.checker (← get)).symbols.declare name type span with
  | .error diagnostic => throw diagnostic
  | .ok symbols =>
    modify (Holds.update fun checker => { checker with symbols })
    count fun metrics => { metrics with declarations := metrics.declarations + 1 }

end Check

end Census
