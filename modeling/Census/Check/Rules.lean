import Census.Check.Checker

/-!
# Typing rules

Each construct has a rule: which parts are visited in which order, what their types must be, what
is counted, and which type the construct produces for the one around it. The rules do not say how
parts are visited, so that a walk can limit its depth.

- `Visit`: how a part is visited.
- `Rule.apply`: the rule of a node's construct.
-/

namespace Census

/-- Visits a node inside a construct of the given kind and answers the type it produces, if any. -/
abbrev VisitOn (σ : Type) := (parent : NodeKind) → Node → CheckOn σ (Option ValueType)

/-- Visits with a checker alone as their state. -/
abbrev Visit := VisitOn Checker

namespace Rule

open Check

variable {σ : Type}

/-- Visits nodes in order and answers the last type produced. -/
def visitEach (visit : VisitOn σ) (parent : NodeKind) (nodes : List Node) :
    CheckOn σ (Option ValueType) :=
  nodes.foldlM (fun produced node => return (← visit parent node).or produced) none

/-- Visits the parts of a node in order and answers the last type produced. -/
def visitChildren (visit : VisitOn σ) (node : Node) : CheckOn σ (Option ValueType) :=
  visitEach visit node.kind node.children

/-- Visits a node and insists that it produces a type. -/
def visitTyped (visit : VisitOn σ) (parent : NodeKind) (node : Node) : CheckOn σ ValueType := do
  typeOf (← visit parent node) node

variable [Holds σ]

/-- A declaration visits its identifier, then takes its name. -/
def declaration (visit : VisitOn σ) (node : Node) (type : ValueType) : CheckOn σ Unit := do
  let target ← child node 0
  let _ ← visit node.kind target
  declare (← nameOf target) type target.span

/-- An assignment needs a value of the variable's type. Variable and value are visited first. -/
def assignment (visit : VisitOn σ) (node : Node) : CheckOn σ Unit := do
  let target ← child node 0
  let content ← child node 1
  let produced ← visitChildren visit node
  let name ← nameOf target
  let expected ← lookupType name target.span
  let found ← typeOf produced content
  unless found = expected do
    throw (.assignmentTypeMismatch name expected found content.span)

/-- A construct under a condition visits its other parts first, in order, and the condition last;
the condition must be `bool`. -/
def conditional (visit : VisitOn σ) (node : Node) (index : Nat) : CheckOn σ Unit := do
  let test ← child node index
  let _ ← visitEach visit node.kind (node.children.eraseIdx index)
  let found ← visitTyped visit node.kind test
  unless found = .bool do
    throw (.invalidConditionType found test.span)

/-- A loop over a list needs a list whose elements have the type of the loop variable. The
variable is declared and the list checked before the body is visited. -/
def foreachLoop (visit : VisitOn σ) (node : Node) : CheckOn σ Unit := do
  let entry ← child node 0
  let array ← child node 1
  let body ← child node 2
  let element ← visitTyped visit node.kind entry
  let _ ← visit node.kind array
  let found ← lookupType (← nameOf array) array.span
  unless found.isList do
    throw (.invalidArrayType found array.span)
  unless element.listOf? = some found do
    throw (.incompatibleArrayType found element array.span)
  let _ ← visit node.kind body

/-- Whether a comparison operator only asks if its operands are the same. -/
def isEquality (operator : String) : Bool := operator == "==" || operator == "!="

/-- A comparison of two operands needs operands of one type, which must be `num` unless the
operator is an equality, and produces `bool`. A lone operand passes its type on. -/
def comparison (visit : VisitOn σ) (node : Node) (operator : Option String) :
    CheckOn σ ValueType := do
  let types ← node.children.mapM (visitTyped visit node.kind)
  match node.children, types, operator with
  | _, [type], _ => return type
  | [_, second], [left, right], some operator =>
    unless left = right do
      throw (.operandTypeMismatch left right second.span)
    unless isEquality operator || left = .num do
      throw (.invalidComparisonOperand operator left node.span)
    count fun metrics => { metrics with operators := metrics.operators + 1 }
    return .bool
  | _, _, _ => malformed (.comparisonArity types.length operator.isSome) node.span

/-- Visits an operand and insists on its type. -/
def operand (visit : VisitOn σ) (parent : NodeKind) (expected : ValueType) (node : Node) :
    CheckOn σ Unit := do
  let found ← visitTyped visit parent node
  unless found = expected do
    throw (.operandTypeMismatch expected found node.span)

/-- Two or more joined operands all need the operators' type, which they produce. A lone operand
passes its type on. -/
def chain (visit : VisitOn σ) (node : Node) (type : ValueType) :
    CheckOn σ (Option ValueType) := do
  match node.children with
  | [] => malformed (.noOperands node.kind) node.span
  | [_] => visitChildren visit node
  | _ =>
    node.children.forM (operand visit node.kind type)
    count fun metrics =>
      { metrics with operators := metrics.operators + (node.children.length - 1) }
    return some type

/-- An operand under stacked operators must not have the `refused` type. Its type is passed on. -/
def stacked (visit : VisitOn σ) (node : Node) (operators : List String) (refused : ValueType) :
    CheckOn σ (Option ValueType) := do
  let produced ← visitChildren visit node
  if let operator :: _ := operators then
    let found ← typeOf produced node
    if found = refused then
      throw (.invalidUnaryOperand operator found node.span)
  count fun metrics => { metrics with operators := metrics.operators + operators.length }
  return produced

/-- A literal produces its type. -/
def literal (visit : VisitOn σ) (node : Node) (type : ValueType) :
    CheckOn σ (Option ValueType) := do
  return (← visitChildren visit node).or (some type)

/-- An identifier must be declared, unless the construct around it is its declaration. Only as a
value it produces its type. -/
def identifier (parent : NodeKind) (node : Node) (name : String) :
    CheckOn σ (Option ValueType) := do
  if parent.isDeclaration then
    return none
  let type ← lookupType name node.span
  return if parent = .value then some type else none

/-- The rule of a node inside a construct of the given kind. -/
def apply (visit : VisitOn σ) : VisitOn σ := fun parent node =>
  match node.kind with
  | .program => visitChildren visit node
  | .declaration => visitChildren visit node
  | .block => visitChildren visit node
  | .statement => visitChildren visit node
  | .expression => visitChildren visit node
  | .value => visitChildren visit node
  | .scalarDeclaration keyword => do
    declaration visit node (.ofScalarKeyword keyword)
    return some (.ofScalarKeyword keyword)
  | .listDeclaration keyword => do
    declaration visit node (.ofListKeyword keyword)
    return none
  | .assignment => do
    assignment visit node
    return none
  | .foreachLoop => do
    count fun metrics => { metrics with forLoops := metrics.forLoops + 1 }
    foreachLoop visit node
    return none
  | .forLoop => do
    count fun metrics => { metrics with forLoops := metrics.forLoops + 1 }
    conditional visit node 1
    return none
  | .conditional => do
    count fun metrics => { metrics with conditionals := metrics.conditionals + 1 }
    conditional visit node 0
    return none
  | .whileLoop => do
    count fun metrics => { metrics with whileLoops := metrics.whileLoops + 1 }
    conditional visit node 0
    return none
  | .comparison operator => do
    return some (← comparison visit node operator)
  | .sum _ => chain visit node .num
  | .product _ => chain visit node .num
  | .logical _ => chain visit node .bool
  | .negation operators => stacked visit node operators .num
  | .signed operators => stacked visit node operators .bool
  | .boolean _ => literal visit node .bool
  | .integer _ => literal visit node .num
  | .identifier name => identifier parent node name

end Rule

end Census
