import Census.Proofs.Grammar.Derivation
import Census.Proofs.Token.Spelling
import Census.Proofs.Tree.Nodes

/-!
# Printing trees

A tree is printed from left to right, the braces, parentheses, separators and keywords that it does
not keep put back.

- `NodeKind.layout`: the right-hand side of a node, read off its kind and its parts.
- `Node.print`: the kinds and texts of the tokens of a tree.
- `Node.IsDerivation`: every node of a program is an instance of a production.
- `Derives.print`, `Node.derives_of_print`: a derivation prints its tokens, and is one from
  whatever tokens it prints.
-/

namespace Census

/-! ## Layouts -/

namespace Item

/-- The constructs among the items. -/
def parts (items : List Item) : List Category :=
  items.filterMap fun
    | .part category => some category
    | _ => none

/-- The text of a word is a spelling of its kind. -/
def Spelled : Item → Prop
  | .word kind text => kind.Spells text
  | _ => True

/-- An operator as it is written. -/
def operator (text : String) : Item := .word (.ofSpelling text) text

/-- Operands with operators between them. -/
def joined (operators : List String) : List Category → List Item
  | [] => []
  | first :: others => .part first ::
      (operators.zip others).flatMap fun (text, operand) => [operator text, .part operand]

/-- An expression in the parentheses of a condition. -/
def condition (test : Category) : List Item :=
  [.mark .leftParen, .part test, .mark .rightParen]

/-- The items with every construct replaced by what is printed for it. -/
def write : List Item → List (List (TokenKind × String)) → List (TokenKind × String)
  | [], _ => []
  | .mark kind :: items, printed => (kind, kind.spelling) :: write items printed
  | .word kind text :: items, printed => (kind, text) :: write items printed
  | .part _ :: items, first :: printed => first ++ write items printed
  | .part _ :: items, [] => write items []

end Item

namespace NodeKind

open Item

/-- What a statement with the given parts is written like. -/
def statementLayout : List Category → List Item
  | [.block] => [.mark .leftBrace, .part .block, .mark .rightBrace]
  | [.declaration] => [.part .declaration, .mark .semicolon]
  | [.assignment] => [.part .assignment, .mark .semicolon]
  | parts => parts.map .part

/-- What a conditional with the given parts is written like. -/
def conditionalLayout : List Category → List Item
  | [test, branch] => .mark .ifKeyword :: condition test ++ [.part branch]
  | [test, branch, other] =>
    .mark .ifKeyword :: condition test ++ [.part branch, .mark .elseKeyword, .part other]
  | parts => parts.map .part

/-- What a loop under a condition with the given parts is written like. -/
def whileLayout : List Category → List Item
  | [test, body] => .mark .whileKeyword :: condition test ++ [.part body]
  | parts => parts.map .part

/-- What a counted loop with the given parts is written like. -/
def forLayout : List Category → List Item
  | [first, test, step, body] =>
    [.mark .forKeyword, .mark .leftParen, .part first, .mark .semicolon, .part test,
      .mark .semicolon, .part step, .mark .rightParen, .part body]
  | parts => parts.map .part

/-- What a loop over a list with the given parts is written like. -/
def foreachLayout : List Category → List Item
  | [element, array, body] =>
    [.mark .foreachKeyword, .mark .leftParen, .part element, .mark .colon, .part array,
      .mark .rightParen, .part body]
  | parts => parts.map .part

/-- What an assignment with the given parts is written like. -/
def assignmentLayout : List Category → List Item
  | [target, content] => [.part target, .mark .assign, .part content]
  | parts => parts.map .part

/-- What a value with the given parts is written like. -/
def valueLayout : List Category → List Item
  | [.expression] => [.mark .leftParen, .part .expression, .mark .rightParen]
  | parts => parts.map .part

/-- What a node of the kind with the given parts is written like. -/
def layout (kind : NodeKind) (parts : List Category) : List Item :=
  match kind with
  | statement => statementLayout parts
  | conditional => conditionalLayout parts
  | whileLoop => whileLayout parts
  | forLoop => forLayout parts
  | foreachLoop => foreachLayout parts
  | assignment => assignmentLayout parts
  | value => valueLayout parts
  | scalarDeclaration keyword => operator keyword :: parts.map .part
  | listDeclaration keyword => operator keyword :: parts.map .part
  | comparison operator => joined operator.toList parts
  | sum operators => joined operators parts
  | product operators => joined operators parts
  | logical operators => joined operators parts
  | negation operators => operators.map operator ++ parts.map .part
  | signed operators => operators.map operator ++ parts.map .part
  | boolean truth => [.mark (if truth then .trueKeyword else .falseKeyword)]
  | integer digits => [.word .integer digits]
  | identifier name => [.word .identifier name]
  | _ => parts.map .part

end NodeKind

namespace Node

/-- The construct a node is an instance of. -/
def category (node : Node) : Category := node.kind.category

mutual

/-- The kinds and texts of the tokens of a tree, from left to right. -/
def print : Node → List (TokenKind × String)
  | ⟨kind, children, _⟩ => Item.write (kind.layout (children.map category)) (printEach children)

/-- The kinds and texts of the tokens of each tree in a row. -/
def printEach : List Node → List (List (TokenKind × String))
  | [] => []
  | node :: others => node.print :: printEach others

end

@[simp] theorem printEach_eq_map (trees : List Node) : printEach trees = trees.map print := by
  induction trees with
  | nil => rfl
  | cons tree others ih => rw [printEach, ih, List.map_cons]

theorem print_eq (tree : Node) :
    tree.print
      = Item.write (tree.kind.layout (tree.children.map category)) (tree.children.map print) := by
  obtain ⟨kind, children, span⟩ := tree
  rw [print, printEach_eq_map]

/-- The node has exactly the parts and the words that a production prescribes. -/
def Produced (node : Node) : Prop :=
  ∃ items, Production node.kind items ∧ Item.parts items = node.children.map category ∧
    ∀ item ∈ items, item.Spelled

/-- A derivation tree of a program. -/
structure IsDerivation (tree : Node) : Prop where
  root : tree.kind = .program
  produced : ∀ node ∈ tree.nodes, node.Produced

end Node

/-! ## Right-hand sides are layouts -/

/-- A word with a fixed spelling is known by its text. -/
theorem Item.operator_eq {kind : TokenKind} {kinds : List TokenKind} {text : String}
    (h : kind ∈ kinds) (hkinds : ∀ kind ∈ kinds, kind ∈ TokenKind.fixed)
    (hspelled : (Item.word kind text).Spelled) : Item.operator text = .word kind text := by
  rw [Item.operator, TokenKind.ofSpelling_eq (hkinds kind h) hspelled]

namespace Operators

variable {operators : Operators} {kinds : List TokenKind} {operand : Category}

theorem parts_stacked : Item.parts (operators.stacked ++ [.part operand]) = [operand] := by
  simp [Item.parts, stacked, List.filterMap_map]

theorem parts_links :
    Item.parts (.part operand :: operators.links operand)
      = operand :: operators.map fun _ => operand := by
  induction operators with
  | nil => rfl
  | cons operator others ih => simpa [links, Item.parts] using ih

theorem stackedLayout_eq (h : operators.Among kinds)
    (hkinds : ∀ kind ∈ kinds, kind ∈ TokenKind.fixed)
    (hspelled : ∀ item ∈ operators.stacked ++ [.part operand], item.Spelled) :
    operators.texts.map Item.operator
        ++ (Item.parts (operators.stacked ++ [.part operand])).map .part
      = operators.stacked ++ [.part operand] := by
  rw [parts_stacked, texts, List.map_map]
  refine congrArg (· ++ _) (List.map_congr_left fun operator hmem => ?_)
  exact Item.operator_eq (h operator hmem) hkinds
    (hspelled _ (List.mem_append_left _ (List.mem_map.mpr ⟨operator, hmem, rfl⟩)))

theorem joined_eq (h : operators.Among kinds)
    (hkinds : ∀ kind ∈ kinds, kind ∈ TokenKind.fixed)
    (hspelled : ∀ item ∈ Item.part operand :: operators.links operand, item.Spelled) :
    Item.joined operators.texts (Item.parts (.part operand :: operators.links operand))
      = .part operand :: operators.links operand := by
  have hzip : operators.texts.zip (operators.map fun _ => operand)
      = operators.map fun operator => (operator.2, operand) := by
    rw [texts, List.zip_map']
  rw [parts_links, Item.joined, hzip, List.flatMap_map, links, List.flatMap_def, List.flatMap_def]
  refine congrArg (fun pairs => _ :: List.flatten pairs)
    (List.map_congr_left fun operator hmem => ?_)
  exact congrArg (· :: _) (Item.operator_eq (h operator hmem) hkinds (hspelled _
    (List.mem_cons_of_mem _ (List.mem_flatMap.mpr ⟨operator, hmem, List.mem_cons_self⟩))))

end Operators

/-- A node is laid out like the right-hand side it is an instance of. -/
theorem Production.layout_eq {kind : NodeKind} {items : List Item} (h : Production kind items)
    (hspelled : ∀ item ∈ items, item.Spelled) : kind.layout (Item.parts items) = items := by
  cases h with
  | block count => simp [NodeKind.layout, Item.parts]
  | simple h =>
    simp only [List.mem_cons, List.not_mem_nil, or_false] at h
    rcases h with rfl | rfl <;> rfl
  | compound h =>
    simp only [List.mem_cons, List.not_mem_nil, or_false] at h
    rcases h with rfl | rfl | rfl | rfl <;> rfl
  | plain h =>
    simp only [List.mem_cons, List.not_mem_nil, or_false] at h
    rcases h with rfl | rfl | rfl <;> rfl
  | scalarDeclaration h =>
    exact congrArg (· :: _) (Item.operator_eq h (by decide) (hspelled _ (by simp)))
  | listDeclaration h =>
    exact congrArg (· :: _) (Item.operator_eq h (by decide) (hspelled _ (by simp)))
  | comparison h =>
    exact congrArg (_ :: · :: _) (Item.operator_eq h (by decide) (hspelled _ (by simp)))
  | logical h => exact Operators.joined_eq h (by decide) hspelled
  | sum h => exact Operators.joined_eq h (by decide) hspelled
  | product h => exact Operators.joined_eq h (by decide) hspelled
  | signed h => exact Operators.stackedLayout_eq h (by decide) hspelled
  | negation h => exact Operators.stackedLayout_eq h (by decide) hspelled
  | _ => rfl

/-- Marks have fixed spellings. -/
theorem Production.mark_mem_fixed {kind : NodeKind} {items : List Item}
    (h : Production kind items) {mark : TokenKind} (hmark : .mark mark ∈ items) :
    mark ∈ TokenKind.fixed := by
  have hfixed : mark ≠ .identifier → mark ≠ .integer → mark ∈ TokenKind.fixed := by
    cases mark <;> decide
  -- no production marks a token whose text is free
  apply hfixed <;> rintro rfl <;> cases h <;>
    simp [Operators.links, Operators.stacked] at hmark
  all_goals split at hmark <;> cases hmark

/-! ## Derivations print their tokens -/

namespace Fills

variable {items : List Item} {trees : List Node} {tokens : List Token}

theorem parts_eq (h : Fills items trees tokens) : Item.parts items = trees.map Node.category := by
  induction h with
  | nil => rfl
  | mark _ _ ih => exact ih
  | word _ _ _ ih => exact ih
  | part hcategory _ _ _ _ ih => exact List.cons_eq_cons.mpr ⟨hcategory.symm, ih⟩

theorem spelled (h : Fills items trees tokens) (hspelled : ∀ token ∈ tokens, token.Spelled) :
    ∀ item ∈ items, item.Spelled := by
  induction h with
  | nil => simp
  | mark _ _ ih => simpa [Item.Spelled] using ih (List.forall_mem_cons.mp hspelled).2
  | word hkind htext _ ih =>
    obtain ⟨hfirst, hothers⟩ := List.forall_mem_cons.mp hspelled
    subst hkind htext
    exact List.forall_mem_cons.mpr ⟨hfirst, ih hothers⟩
  | part _ _ _ _ _ ih => simpa [Item.Spelled] using ih (List.forall_mem_append.mp hspelled).2

/-- The node under a right-hand side is an instance of it. -/
theorem produced {tree : Node} (production : Production tree.kind items)
    (h : Fills items tree.children tokens) (hspelled : ∀ token ∈ tokens, token.Spelled) :
    tree.Produced :=
  ⟨items, production, h.parts_eq, h.spelled hspelled⟩

/-- Printing the trees gives back the tokens. -/
theorem write_print (h : Fills items trees tokens) (hspelled : ∀ token ∈ tokens, token.Spelled)
    (hmarks : ∀ mark, .mark mark ∈ items → mark ∈ TokenKind.fixed) :
    Item.write items (trees.map Node.print) = tokens.map Token.content := by
  induction h with
  | nil => rfl
  | @mark kind token _ _ _ hkind _ ih =>
    obtain ⟨hfirst, hothers⟩ := List.forall_mem_cons.mp hspelled
    have hcontent : token.content = (kind, kind.spelling) := by
      rw [Token.content, hkind, ← (TokenKind.spells_iff (hmarks kind List.mem_cons_self)).mp]
      exact hkind ▸ hfirst
    rw [Item.write, List.map_cons, hcontent,
      ih hothers fun mark hmem => hmarks mark (List.mem_cons_of_mem _ hmem)]
  | word hkind htext _ ih =>
    subst hkind htext
    rw [Item.write, List.map_cons, ih (List.forall_mem_cons.mp hspelled).2
      fun mark hmem => hmarks mark (List.mem_cons_of_mem _ hmem)]
    rfl
  | @part _ tree _ _ _ _ _ _ production below _ ihBelow ih =>
    obtain ⟨hfront, hback⟩ := List.forall_mem_append.mp hspelled
    -- a node prints what its own right-hand side says
    have hlayout : tree.kind.layout (tree.children.map Node.category) = _ :=
      below.parts_eq ▸ production.layout_eq (below.spelled hfront)
    rw [List.map_cons, Item.write, tree.print_eq, hlayout, List.map_append,
      ihBelow hfront fun _ => production.mark_mem_fixed,
      ih hback fun mark hmem => hmarks mark (List.mem_cons_of_mem _ hmem)]

/-- Every node below a right-hand side is an instance of a production. -/
theorem forall_produced (h : Fills items trees tokens)
    (hspelled : ∀ token ∈ tokens, token.Spelled) :
    ∀ tree ∈ trees, ∀ node ∈ tree.nodes, node.Produced := by
  induction h with
  | nil => simp
  | mark _ _ ih => exact ih (List.forall_mem_cons.mp hspelled).2
  | word _ _ _ ih => exact ih (List.forall_mem_cons.mp hspelled).2
  | @part _ tree _ _ _ _ _ _ production below _ ihBelow ih =>
    obtain ⟨hfront, hback⟩ := List.forall_mem_append.mp hspelled
    refine List.forall_mem_cons.mpr ⟨fun node hnode => ?_, ih hback⟩
    obtain ⟨kind, children, span⟩ := tree
    rw [Node.nodes_mk, List.mem_cons, List.mem_flatMap] at hnode
    rcases hnode with rfl | ⟨child, hchild, hnode⟩
    · exact produced production below hfront
    · exact ihBelow hfront child hchild node hnode

/-- Trees that print the tokens of a right-hand side fill it. -/
theorem of_write_print
    (hparts : Item.parts items = trees.map Node.category)
    (htrees : ∀ tree ∈ trees, ∀ tokens : List Token, tokens.map Token.content = tree.print →
      Derives tree.category tree tokens)
    (hprint : tokens.map Token.content = Item.write items (trees.map Node.print)) :
    Fills items trees tokens := by
  -- on the right-hand side, which says at each item what stands next
  induction items generalizing trees tokens with
  | nil =>
    obtain rfl : trees = [] := by simpa [Item.parts] using hparts.symm
    obtain rfl : tokens = [] := by simpa [Item.write] using hprint
    exact .nil
  | cons item items ih =>
    cases item with
    | mark kind =>
      obtain ⟨token, rest, rfl, hcontent, hrest⟩ := List.map_eq_cons_iff.mp hprint
      obtain ⟨hkind, -⟩ := Prod.mk.inj hcontent
      exact .mark hkind (ih hparts htrees hrest)
    | word kind text =>
      obtain ⟨token, rest, rfl, hcontent, hrest⟩ := List.map_eq_cons_iff.mp hprint
      obtain ⟨hkind, htext⟩ := Prod.mk.inj hcontent
      exact .word hkind htext (ih hparts htrees hrest)
    | part category =>
      obtain ⟨tree, others, rfl, hcategory, hothers⟩ := List.map_eq_cons_iff.mp hparts.symm
      obtain ⟨htree, hbehind⟩ := List.forall_mem_cons.mp htrees
      rw [List.map_cons, Item.write] at hprint
      -- the tokens are cut where the print of the first tree ends
      obtain ⟨front, back, rfl, hfront, hback⟩ := List.map_eq_append_iff.mp hprint
      exact .tree (hcategory ▸ htree front hfront) (ih hothers.symm hbehind hback)

end Fills

variable {category : Category} {tree : Node} {tokens : List Token}

/-- A derivation prints the tokens it is one from. -/
theorem Derives.print (h : Derives category tree tokens)
    (hspelled : ∀ token ∈ tokens, token.Spelled) : tree.print = tokens.map Token.content := by
  simpa [Item.write] using (Fills.lastTree h).write_print hspelled (by simp)

theorem Derives.isDerivation (h : Derives .program tree tokens)
    (hspelled : ∀ token ∈ tokens, token.Spelled) : tree.IsDerivation where
  root := by
    obtain ⟨hcategory, -⟩ := h
    revert hcategory
    cases tree.kind <;> simp [NodeKind.category]
  produced := (Fills.lastTree h).forall_produced hspelled tree List.mem_cons_self

/-- A tree of instances of productions is a derivation from whatever tokens it prints. -/
theorem Node.derives_of_print (hproduced : ∀ node ∈ tree.nodes, node.Produced)
    (hprint : tokens.map Token.content = tree.print) : Derives tree.category tree tokens := by
  induction tree using Node.induction generalizing tokens with
  | step kind children span ih =>
    simp only [nodes_mk, List.forall_mem_cons, List.mem_flatMap] at hproduced
    obtain ⟨⟨items, production, hparts, hspelled⟩, hbelow⟩ := hproduced
    refine ⟨rfl, items, production, Fills.of_write_print hparts ?_ ?_⟩
    · intro child hchild front hfront
      exact ih child hchild (fun node hnode => hbelow node ⟨child, hchild, hnode⟩) hfront
    · rw [hprint, print_eq, ← hparts, production.layout_eq hspelled]

end Census
