import Census.Source.Span
import Census.ValueType

/-!
# Diagnostics

What can be wrong with a program, from its characters to its types, and how each problem is told.
A diagnostic carries the facts it reports; its wording, its code, its advice and the places it
points at are functions of those facts.

- `Diagnostic.message`, `Diagnostic.code?`, `Diagnostic.help?`, `Diagnostic.labels`: the wording.
- `Diagnostic.isSemantic`: which problems only type checking finds.
-/

namespace Census

/-- A problem that ends the processing of a program. -/
inductive Diagnostic where
  /-- Reading or writing failed. -/
  | transfer (text : String)
  /-- The characters at `span` form no token. -/
  | lexical (text : String) (span : Span)
  /-- The tokens at `span` form no program. -/
  | grammatical (text : String) (span : Span)
  /-- The tree at `span` has a shape that no program has. -/
  | malformedTree (text : String) (span : Span)
  /-- `name` was declared before, at `previous`. -/
  | duplicateDeclaration (name : String) (span previous : Span)
  /-- `name` is used and has not been declared. -/
  | undefinedIdentifier (name : String) (span : Span)
  /-- A loop runs over something that is no list. -/
  | invalidArrayType (found : ValueType) (span : Span)
  /-- A loop variable does not have the type of the list's elements. -/
  | incompatibleArrayType (array element : ValueType) (span : Span)
  /-- A condition is not `bool`. -/
  | invalidConditionType (found : ValueType) (span : Span)
  /-- A variable is assigned a value of another type. -/
  | assignmentTypeMismatch (name : String) (expected found : ValueType) (span : Span)
  /-- An operand does not have the type its operator needs. -/
  | operandTypeMismatch (expected found : ValueType) (span : Span)
  /-- An ordering comparison has operands that have no order. -/
  | invalidComparisonOperand (operator : String) (found : ValueType) (span : Span)
  /-- A prefixed operand has the type that its operator refuses. -/
  | invalidUnaryOperand (operator : String) (found : ValueType) (span : Span)
deriving DecidableEq, Repr

namespace Diagnostic

/-- A place that a diagnostic points at, with a remark. -/
structure Label where
  remark : String
  span : Span
deriving DecidableEq, Repr

/-- The one-line statement of the problem. -/
def message : Diagnostic → String
  | transfer text => s!"IO error: {text}"
  | lexical text _ => s!"Lexer error: {text}"
  | grammatical text _ => s!"Parser error: {text}"
  | malformedTree text _ => s!"Malformed syntax tree: {text}"
  | duplicateDeclaration name _ _ => s!"Invalid declaration... variable {name} already exists"
  | undefinedIdentifier name _ => s!"Invalid use of undefined Identifier {name}"
  | invalidArrayType _ _ => "Array type is required here..."
  | incompatibleArrayType array element _ =>
    s!"Array type {array.keyword} is incompatible with declared variable "
      ++ s!"of type {element.keyword}..."
  | invalidConditionType _ _ => "Invalid type in condition"
  | assignmentTypeMismatch name expected found _ =>
    s!"Invalid type in assignation of Identifier {name}... "
      ++ s!"was expecting {expected.keyword} but got {found.keyword}"
  | operandTypeMismatch _ _ _ => "Invalid type in expression"
  | invalidComparisonOperand _ _ _ => "Invalid type in expression"
  | invalidUnaryOperand _ _ _ => "Invalid type in expression"

/-- The stable name of the problem's kind. Failed transfers have none. -/
def code? : Diagnostic → Option String
  | transfer _ => none
  | lexical _ _ => some "tally::lexer"
  | grammatical _ _ => some "tally::parser"
  | malformedTree _ _ => some "tally::semantic::malformed_tree"
  | duplicateDeclaration _ _ _ => some "tally::semantic::duplicate_declaration"
  | undefinedIdentifier _ _ => some "tally::semantic::undefined_identifier"
  | invalidArrayType _ _ => some "tally::semantic::invalid_array_type"
  | incompatibleArrayType _ _ _ => some "tally::semantic::incompatible_array_type"
  | invalidConditionType _ _ => some "tally::semantic::invalid_condition_type"
  | assignmentTypeMismatch _ _ _ _ => some "tally::semantic::assignment_type_mismatch"
  | operandTypeMismatch _ _ _ => some "tally::semantic::operand_type_mismatch"
  | invalidComparisonOperand _ _ _ => some "tally::semantic::invalid_comparison_operand"
  | invalidUnaryOperand _ _ _ => some "tally::semantic::invalid_unary_operand"

/-- What the language asks for instead, where that is not plain from the message. -/
def help? : Diagnostic → Option String
  | invalidConditionType _ _ => some "conditions must be of type `bool`"
  | operandTypeMismatch _ _ _ => some "both operands of an operator must have the operator's type"
  | invalidComparisonOperand _ _ _ =>
    some "`<`, `>`, `<=` and `>=` only compare `num` operands"
  | invalidUnaryOperand _ _ _ =>
    some "`!` needs a `bool` operand, `+` and `-` need a `num` operand"
  | _ => none

/-- The places the diagnostic points at. A repeated declaration comes before the first one. -/
def labels : Diagnostic → List Label
  | transfer _ => []
  | lexical _ span => [⟨"here", span⟩]
  | grammatical _ span => [⟨"here", span⟩]
  | malformedTree _ span => [⟨"here", span⟩]
  | duplicateDeclaration _ span previous =>
    [⟨"declared again here", span⟩, ⟨"first declared here", previous⟩]
  | undefinedIdentifier _ span => [⟨"not declared", span⟩]
  | invalidArrayType _ span => [⟨"not a list", span⟩]
  | incompatibleArrayType _ _ span => [⟨"iterated here", span⟩]
  | invalidConditionType _ span => [⟨"not a `bool` expression", span⟩]
  | assignmentTypeMismatch _ _ _ span => [⟨"expression of a different type", span⟩]
  | operandTypeMismatch _ _ span => [⟨"operand of the wrong type", span⟩]
  | invalidComparisonOperand _ _ span => [⟨"non-numeric comparison", span⟩]
  | invalidUnaryOperand _ _ span => [⟨"operand of the wrong type", span⟩]

/-- Whether the problem is one that checking a tree finds. -/
def isSemantic : Diagnostic → Bool
  | transfer _ => false
  | lexical _ _ => false
  | grammatical _ _ => false
  | _ => true

end Diagnostic

end Census
