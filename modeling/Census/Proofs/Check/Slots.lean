import Census.Check.Program

/-!
# Checks with a slot

The rules as they are told of a walk that has one slot for a type. Literals, declarations of scalars
and variables that are used as values write the slot, and a construct reads it right after it has
visited a part. No visit answers anything. Joined operands are counted one by one, before each of
them is visited, and in the end one is taken back. The walk goes down to the leaves, however deep
they are.

- `Slotted`: a checker with a slot.
- `Slotted.apply`: the rule of a node's construct.
- `Node.visitSlotted`: a visit to a node and to all below it.
- `Slotted.check`: checks a program.
-/

namespace Census

/-- A checker with a slot for the type that was found last. -/
structure Slotted extends Checker where
  slot : ValueType
deriving DecidableEq, Repr

instance : Holds Slotted where
  checker := Slotted.toChecker
  update change slotted := { slotted with toChecker := change slotted.toChecker }

/-- Acts on a checker with a slot. -/
abbrev SlotCheck := CheckOn Slotted

namespace Slotted

open Check

@[simp] theorem checker_mk (checker : Checker) (slot : ValueType) :
    Holds.checker (⟨checker, slot⟩ : Slotted) = checker := rfl

/-- Writes the slot. -/
def publish (type : ValueType) : SlotCheck Unit := modify fun s => { s with slot := type }

/-- Reads the slot. -/
def published : SlotCheck ValueType := return (← get).slot

/-- A part of a construct and the visit to it. -/
structure Part where
  node : Node
  visit : SlotCheck Unit

/-- The part of a node with the given number. -/
def part (node : Node) (parts : List Part) (index : Nat) : SlotCheck Part :=
  match parts[index]? with
  | some part => return part
  | none => malformed (.missingChild node.kind index) node.span

/-- Visits all parts in order. -/
def visitAll (parts : List Part) : SlotCheck Unit := parts.forM Part.visit

/-- Visits a part and reads the slot. -/
def visitTyped (part : Part) : SlotCheck ValueType := do
  part.visit
  published

/-- A declaration takes the name of its identifier. -/
def declaration (node : Node) (parts : List Part) (type : ValueType) : SlotCheck Unit := do
  let target ← part node parts 0
  target.visit
  declare (← nameOf target.node) type target.node.span

/-- An assignment needs a value of the variable's type. -/
def assignment (node : Node) (parts : List Part) : SlotCheck Unit := do
  let target ← part node parts 0
  let content ← part node parts 1
  visitAll parts
  let name ← nameOf target.node
  let expected ← lookupType name target.node.span
  let found ← published
  unless found = expected do
    throw (.assignmentTypeMismatch name expected found content.node.span)

/-- The condition of a construct is visited behind all other parts and must be `bool`. -/
def conditional (node : Node) (parts : List Part) (index : Nat) : SlotCheck Unit := do
  let test ← part node parts index
  visitAll (parts.eraseIdx index)
  let found ← visitTyped test
  unless found = .bool do
    throw (.invalidConditionType found test.node.span)

/-- A loop over a list needs a list whose elements have the type of the loop variable. -/
def foreachLoop (node : Node) (parts : List Part) : SlotCheck Unit := do
  let entry ← part node parts 0
  let array ← part node parts 1
  let body ← part node parts 2
  let element ← visitTyped entry
  array.visit
  let found ← lookupType (← nameOf array.node) array.node.span
  unless found.isList do
    throw (.invalidArrayType found array.node.span)
  unless element.listOf? = some found do
    throw (.incompatibleArrayType found element array.node.span)
  body.visit

/-- A comparison of two operands needs operands of one type, which must be `num` unless the
operator is an equality, and leaves `bool` in the slot. A lone operand leaves its type there. -/
def comparison (node : Node) (parts : List Part) (operator : Option String) : SlotCheck Unit := do
  let types ← parts.mapM visitTyped
  match parts, types, operator with
  | [_, second], [left, right], some operator =>
    unless left = right do
      throw (.operandTypeMismatch left right second.node.span)
    unless Rule.isEquality operator || left = .num do
      throw (.invalidComparisonOperand operator left node.span)
    publish .bool
    count fun metrics => { metrics with operators := metrics.operators + 1 }
  | _, _, _ => return

/-- Counts an operand, visits it and insists on its type. -/
def operand (expected : ValueType) (part : Part) : SlotCheck Unit := do
  count fun metrics => { metrics with operators := metrics.operators + 1 }
  let found ← visitTyped part
  unless found = expected do
    throw (.operandTypeMismatch expected found part.node.span)

/-- A lone operand leaves its type in the slot. Of several operands, all but one are counted. -/
def chain (parts : List Part) (type : ValueType) : SlotCheck Unit := do
  match parts with
  | [part] => part.visit
  | _ =>
    parts.forM (operand type)
    count fun metrics => { metrics with operators := metrics.operators - 1 }

/-- An operand under stacked operators must not have the `refused` type. -/
def stacked (node : Node) (parts : List Part) (operators : List String) (refused : ValueType) :
    SlotCheck Unit := do
  visitAll parts
  if let operator :: _ := operators then
    let found ← published
    if found = refused then
      throw (.invalidUnaryOperand operator found node.span)
  count fun metrics => { metrics with operators := metrics.operators + operators.length }

/-- A literal writes the slot. -/
def literal (parts : List Part) (type : ValueType) : SlotCheck Unit := do
  publish type
  visitAll parts

/-- An identifier must be declared, unless the construct around it is its declaration. Only as a
value it writes the slot. -/
def identifier (parent : NodeKind) (node : Node) (name : String) : SlotCheck Unit := do
  unless parent.isDeclaration do
    let type ← lookupType name node.span
    if parent = .value then
      publish type

/-- The rule of a node inside a construct of the given kind. -/
def apply (parent : NodeKind) (node : Node) (parts : List Part) : SlotCheck Unit :=
  match node.kind with
  | .program => visitAll parts
  | .declaration => visitAll parts
  | .block => visitAll parts
  | .statement => visitAll parts
  | .expression => visitAll parts
  | .value => visitAll parts
  | .scalarDeclaration keyword => do
    declaration node parts (.ofScalarKeyword keyword)
    publish (.ofScalarKeyword keyword)
  | .listDeclaration keyword => declaration node parts (.ofListKeyword keyword)
  | .assignment => assignment node parts
  | .foreachLoop => do
    count fun metrics => { metrics with forLoops := metrics.forLoops + 1 }
    foreachLoop node parts
  | .forLoop => do
    count fun metrics => { metrics with forLoops := metrics.forLoops + 1 }
    conditional node parts 1
  | .conditional => do
    count fun metrics => { metrics with conditionals := metrics.conditionals + 1 }
    conditional node parts 0
  | .whileLoop => do
    count fun metrics => { metrics with whileLoops := metrics.whileLoops + 1 }
    conditional node parts 0
  | .comparison operator => comparison node parts operator
  | .sum _ => chain parts .num
  | .product _ => chain parts .num
  | .logical _ => chain parts .bool
  | .negation operators => stacked node parts operators .num
  | .signed operators => stacked node parts operators .bool
  | .boolean _ => literal parts .bool
  | .integer _ => literal parts .num
  | .identifier name => identifier parent node name

end Slotted

namespace Node

mutual

/-- Visits a node inside a construct of the given kind, and all below it. -/
def visitSlotted (parent : NodeKind) : Node → SlotCheck Unit
  | ⟨kind, children, span⟩ =>
    Slotted.apply parent ⟨kind, children, span⟩ (slottedParts kind children)

/-- The parts of a construct with their visits. -/
def slottedParts (parent : NodeKind) : List Node → List Slotted.Part
  | [] => []
  | node :: others => ⟨node, node.visitSlotted parent⟩ :: slottedParts parent others

end

/-- A node with the visit to it as a part of a construct of the given kind. -/
def slottedPart (parent : NodeKind) (node : Node) : Slotted.Part := ⟨node, node.visitSlotted parent⟩

theorem slottedParts_eq_map (parent : NodeKind) (nodes : List Node) :
    slottedParts parent nodes = nodes.map (slottedPart parent) := by
  induction nodes with
  | nil => rfl
  | cons node others ih => rw [slottedParts, ih, List.map_cons, slottedPart]

theorem visitSlotted_eq (parent : NodeKind) (node : Node) :
    node.visitSlotted parent
      = Slotted.apply parent node (node.children.map (slottedPart node.kind)) := by
  obtain ⟨kind, children, span⟩ := node
  rw [visitSlotted, slottedParts_eq_map]

end Node

namespace Slotted

/-- Visits all of a whole program and answers what is counted then. -/
def program (tree : Node) : SlotCheck Metrics := do
  unless tree.kind = .program do
    Check.malformed (.rootNotProgram tree.kind) tree.span
  visitAll (tree.children.map (Node.slottedPart tree.kind))
  return (← get).metrics

/-- Checks a program: the metrics or the first problem, and the state in which the walk ends. -/
def check (s : Slotted) (tree : Node) : Except Diagnostic Metrics × Slotted :=
  (program tree).run.run s

end Slotted

end Census
