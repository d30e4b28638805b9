import Census.Tree.Basic

/-!
# Tree outlines

The outline of a tree has a line for each node, parents before children, indented by two spaces
for each level.

- `NodeKind.label`: what a line says.
- `Node.outline`: the whole text.
-/

namespace Census

namespace NodeKind

/-- The words of a row of operators with `separator` between them, if there are any. -/
def joinedOperators? (separator : String) : List String → Option String
  | [] => none
  | operators => some (separator.intercalate operators)

/-- The words a construct was written with, if it keeps any. Operators that join operands are set
apart by spaces, stacked operators are not. -/
def detail? : NodeKind → Option String
  | scalarDeclaration keyword => some keyword
  | listDeclaration keyword => some keyword
  | comparison operator => operator
  | sum operators => joinedOperators? " " operators
  | product operators => joinedOperators? " " operators
  | logical operators => joinedOperators? " " operators
  | negation operators => joinedOperators? "" operators
  | signed operators => joinedOperators? "" operators
  | boolean truth => some (if truth then "true" else "false")
  | integer digits => some digits
  | identifier name => some name
  | _ => none

/-- The construct and its words. -/
def label (kind : NodeKind) : String :=
  match kind.detail? with
  | some detail => s!"{kind.name}({detail})"
  | none => kind.name

end NodeKind

/-- One line of an outline. -/
def Node.outlineLine (depth : Nat) (node : Node) : String :=
  String.ofList (List.replicate (2 * depth) ' ') ++ node.kind.label ++ "\n"

/-- The tree, one node a line. -/
def Node.outline (tree : Node) : String :=
  String.join ((tree.preorder 0).map fun (depth, node) => node.outlineLine depth)

end Census
