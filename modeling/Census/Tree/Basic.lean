import Census.Source.Span

/-!
# Program trees

A program is a tree of `Node`s. The kind of a node names the construct and carries the words it
was written with; the children stand in the order in which they are written. Constructs with one
part keep their node, so which child is which depends on the kind alone.

- `NodeKind`, `Node`: the tree.
- `Node.preorder`: every node with its depth, parents before children.
- `Node.sameAs`: equality of whole trees, spans included.
-/

namespace Census

/-- The constructs of the language. -/
inductive NodeKind where
  /-- The root: one block. -/
  | program
  /-- A declaration statement: one of the two declarations below. -/
  | declaration
  /-- `num x` or `bool x`. -/
  | scalarDeclaration (keyword : String)
  /-- `listnum x` or `listbool x`. -/
  | listDeclaration (keyword : String)
  /-- Any number of statements. -/
  | block
  /-- One statement. -/
  | statement
  /-- A loop over a list: declaration, list, body. -/
  | foreachLoop
  /-- A counted loop: first assignment, condition, step, body. -/
  | forLoop
  /-- A conditional: condition, branch, and perhaps another branch. -/
  | conditional
  /-- A loop under a condition: condition, body. -/
  | whileLoop
  /-- An assignment: variable, value. -/
  | assignment
  /-- An expression. -/
  | expression
  /-- One operand, or two operands joined by a comparison operator. -/
  | comparison (operator : Option String)
  /-- Operands joined by plus and minus. -/
  | sum (operators : List String)
  /-- Operands joined by times, division and remainder. -/
  | product (operators : List String)
  /-- Operands joined by conjunction and disjunction. -/
  | logical (operators : List String)
  /-- An operand under stacked negations. -/
  | negation (operators : List String)
  /-- An operand under stacked signs. -/
  | signed (operators : List String)
  /-- A value: variable, literal, or expression in parentheses. -/
  | value
  /-- A truth value. -/
  | boolean (truth : Bool)
  /-- A whole number, as written. -/
  | integer (digits : String)
  /-- A variable, in a declaration or in use. -/
  | identifier (name : String)
deriving DecidableEq, Repr, Inhabited

namespace NodeKind

/-- The name of the construct. -/
def name : NodeKind → String
  | program => "Program"
  | declaration => "Declaration"
  | scalarDeclaration _ => "NormalDeclaration"
  | listDeclaration _ => "ListDeclaration"
  | block => "Block"
  | statement => "Stmt"
  | foreachLoop => "ForEachStmt"
  | forLoop => "ForStmt"
  | conditional => "IfStmt"
  | whileLoop => "WhileStmt"
  | assignment => "AssignStmt"
  | expression => "Expr"
  | comparison _ => "CompExpr"
  | sum _ => "AddExpr"
  | product _ => "MulExpr"
  | logical _ => "BoolExpr"
  | negation _ => "NotExpr"
  | signed _ => "UnaExpr"
  | value => "GenValue"
  | boolean _ => "BoolValue"
  | integer _ => "IntValue"
  | identifier _ => "Identifier"

/-- Whether the construct introduces a name. -/
def isDeclaration : NodeKind → Bool
  | scalarDeclaration _ => true
  | listDeclaration _ => true
  | _ => false

end NodeKind

/-- A construct of a program with its parts and its place. -/
structure Node where
  kind : NodeKind
  children : List Node := []
  span : Span := {}
deriving Repr, Inhabited

namespace Node

/-- The part with the given number, counted from zero. -/
def child? (node : Node) (index : Nat) : Option Node := node.children[index]?

/-- The name, if the node is an identifier. -/
def identifier? (node : Node) : Option String :=
  match node.kind with
  | .identifier name => some name
  | _ => none

/-- The node reached from a root by the given child numbers. -/
def descendant? (node : Node) : List Nat → Option Node
  | [] => some node
  | index :: path => (node.child? index).bind fun child => child.descendant? path

mutual

/-- Every node of a tree with its depth, parents before children, and then `rest`. -/
def preorderOnto (depth : Nat) (rest : List (Nat × Node)) : Node → List (Nat × Node)
  | ⟨kind, children, span⟩ =>
    (depth, ⟨kind, children, span⟩) :: preorderAllOnto (depth + 1) rest children

/-- Every node of several trees that stand side by side, and then `rest`. -/
def preorderAllOnto (depth : Nat) (rest : List (Nat × Node)) : List Node → List (Nat × Node)
  | [] => rest
  | node :: others => node.preorderOnto depth (preorderAllOnto depth rest others)

end

/-- Every node of a tree with its depth, parents before children. The root has depth `depth`. -/
def preorder (depth : Nat) (node : Node) : List (Nat × Node) := node.preorderOnto depth []

mutual

/-- Whether two trees agree in kinds, shape and spans. -/
def sameAs : Node → Node → Bool
  | ⟨kind, children, span⟩, ⟨kind', children', span'⟩ =>
    kind == kind' && span == span' && allSameAs children children'

/-- Whether two rows of trees agree tree by tree. -/
def allSameAs : List Node → List Node → Bool
  | [], [] => true
  | node :: others, node' :: others' => node.sameAs node' && allSameAs others others'
  | _, _ => false

end

end Node

end Census
