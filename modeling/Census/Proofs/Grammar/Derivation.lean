import Census.Proofs.Tree.Nodes
import Census.Token.Basic

/-!
# The grammar and its derivation trees

The grammar says what each construct is written like. It knows nothing of how deep a program
nests, nor to which conditional an `else` belongs.

- `Item`, `Production`: the right-hand sides, one production for each line of the grammar.
- `Fills`: trees and tokens that stand, in order, for the items of a right-hand side.
- `Derives`: a tree is a derivation of a construct, and the tokens are its leaves.

The texts of tokens are unconstrained here: a plus sign may be written `foo`. A tree keeps the
text of some tokens (`Item.word`) and forgets that of the others (`Item.mark`).
-/

namespace Census

/-- The constructs of the language, whatever words they carry. -/
inductive Category where
  | program
  | declaration
  | scalarDeclaration
  | listDeclaration
  | block
  | statement
  | foreachLoop
  | forLoop
  | conditional
  | whileLoop
  | assignment
  | expression
  | comparison
  | sum
  | product
  | logical
  | negation
  | signed
  | value
  | boolean
  | integer
  | identifier
deriving DecidableEq, Repr

/-- The construct a node is an instance of. -/
def NodeKind.category : NodeKind → Category
  | program => .program
  | declaration => .declaration
  | scalarDeclaration _ => .scalarDeclaration
  | listDeclaration _ => .listDeclaration
  | block => .block
  | statement => .statement
  | foreachLoop => .foreachLoop
  | forLoop => .forLoop
  | conditional => .conditional
  | whileLoop => .whileLoop
  | assignment => .assignment
  | expression => .expression
  | comparison _ => .comparison
  | sum _ => .sum
  | product _ => .product
  | logical _ => .logical
  | negation _ => .negation
  | signed _ => .signed
  | value => .value
  | boolean _ => .boolean
  | integer _ => .integer
  | identifier _ => .identifier

/-- What may stand in a right-hand side. -/
inductive Item where
  /-- A token of which the tree keeps nothing. -/
  | mark (kind : TokenKind)
  /-- A token whose text the tree keeps. -/
  | word (kind : TokenKind) (text : String)
  /-- A construct, which is a child of the node. -/
  | part (category : Category)
deriving DecidableEq, Repr

/-- Operators in a row, each given by its kind and its text. -/
abbrev Operators := List (TokenKind × String)

namespace Operators

/-- The operators as they are written. -/
def texts (operators : Operators) : List String := operators.map Prod.snd

/-- The operators are of the given kinds. -/
def Among (operators : Operators) (kinds : List TokenKind) : Prop :=
  ∀ operator ∈ operators, operator.1 ∈ kinds

/-- Operators that stand before an operand. -/
def stacked (operators : Operators) : List Item :=
  operators.map fun operator => .word operator.1 operator.2

/-- Operators that each have an operand behind them. -/
def links (operators : Operators) (operand : Category) : List Item :=
  operators.flatMap fun operator => [.word operator.1 operator.2, .part operand]

end Operators

/-- What a node of the given kind is written like. -/
inductive Production : NodeKind → List Item → Prop where
  | program : Production .program [.part .block]
  | block (count : Nat) : Production .block (List.replicate count (.part .statement))
  /-- Declarations and assignments are closed by a semicolon. -/
  | simple {category : Category} (h : category ∈ [.declaration, .assignment]) :
      Production .statement [.part category, .mark .semicolon]
  | compound {category : Category}
      (h : category ∈ [.conditional, .whileLoop, .forLoop, .foreachLoop]) :
      Production .statement [.part category]
  | braces : Production .statement [.mark .leftBrace, .part .block, .mark .rightBrace]
  | declaration {category : Category} (h : category ∈ [.scalarDeclaration, .listDeclaration]) :
      Production .declaration [.part category]
  | scalarDeclaration {kind : TokenKind} {keyword : String} (h : kind ∈ TokenKind.scalarKeywords) :
      Production (.scalarDeclaration keyword) [.word kind keyword, .part .identifier]
  | listDeclaration {kind : TokenKind} {keyword : String} (h : kind ∈ TokenKind.listKeywords) :
      Production (.listDeclaration keyword) [.word kind keyword, .part .identifier]
  | assignment : Production .assignment [.part .identifier, .mark .assign, .part .expression]
  | conditional : Production .conditional
      [.mark .ifKeyword, .mark .leftParen, .part .expression, .mark .rightParen, .part .statement]
  | alternative : Production .conditional
      [.mark .ifKeyword, .mark .leftParen, .part .expression, .mark .rightParen, .part .statement,
        .mark .elseKeyword, .part .statement]
  | whileLoop : Production .whileLoop
      [.mark .whileKeyword, .mark .leftParen, .part .expression, .mark .rightParen,
        .part .statement]
  | forLoop : Production .forLoop
      [.mark .forKeyword, .mark .leftParen, .part .assignment, .mark .semicolon,
        .part .expression, .mark .semicolon, .part .assignment, .mark .rightParen,
        .part .statement]
  | foreachLoop : Production .foreachLoop
      [.mark .foreachKeyword, .mark .leftParen, .part .scalarDeclaration, .mark .colon,
        .part .identifier, .mark .rightParen, .part .statement]
  | expression : Production .expression [.part .logical]
  | logical {operators : Operators} (h : operators.Among [.conjunction, .disjunction]) :
      Production (.logical operators.texts) (.part .comparison :: operators.links .comparison)
  /-- A comparison carries an operator exactly when it has two operands. -/
  | operand : Production (.comparison none) [.part .sum]
  | comparison {kind : TokenKind} {operator : String} (h : kind ∈ TokenKind.comparisons) :
      Production (.comparison (some operator)) [.part .sum, .word kind operator, .part .sum]
  | sum {operators : Operators} (h : operators.Among [.plus, .minus]) :
      Production (.sum operators.texts) (.part .product :: operators.links .product)
  | product {operators : Operators} (h : operators.Among [.star, .slash, .percent]) :
      Production (.product operators.texts) (.part .signed :: operators.links .signed)
  | signed {operators : Operators} (h : operators.Among [.plus, .minus]) :
      Production (.signed operators.texts) (operators.stacked ++ [.part .negation])
  | negation {operators : Operators} (h : operators.Among [.bang]) :
      Production (.negation operators.texts) (operators.stacked ++ [.part .value])
  | plain {category : Category} (h : category ∈ [.identifier, .integer, .boolean]) :
      Production .value [.part category]
  | parentheses : Production .value [.mark .leftParen, .part .expression, .mark .rightParen]
  | boolean (truth : Bool) :
      Production (.boolean truth) [.mark (if truth then .trueKeyword else .falseKeyword)]
  | integer (digits : String) : Production (.integer digits) [.word .integer digits]
  | identifier (name : String) : Production (.identifier name) [.word .identifier name]

/-- Trees and tokens that stand, in order, for the items of a right-hand side. Every tree is an
instance of a production in its turn. -/
inductive Fills : List Item → List Node → List Token → Prop where
  | nil : Fills [] [] []
  | mark {kind : TokenKind} {token : Token} {items : List Item} {trees : List Node}
      {tokens : List Token} (hkind : token.kind = kind) (rest : Fills items trees tokens) :
      Fills (.mark kind :: items) trees (token :: tokens)
  | word {kind : TokenKind} {text : String} {token : Token} {items : List Item}
      {trees : List Node} {tokens : List Token} (hkind : token.kind = kind)
      (htext : token.text = text) (rest : Fills items trees tokens) :
      Fills (.word kind text :: items) trees (token :: tokens)
  | part {category : Category} {tree : Node} {inside items : List Item} {trees : List Node}
      {front back : List Token} (hcategory : tree.kind.category = category)
      (production : Production tree.kind inside) (below : Fills inside tree.children front)
      (rest : Fills items trees back) :
      Fills (.part category :: items) (tree :: trees) (front ++ back)

/-- The tree is a derivation of a construct of the category, and the tokens are its leaves from
left to right. -/
def Derives (category : Category) (tree : Node) (tokens : List Token) : Prop :=
  tree.kind.category = category ∧
    ∃ items, Production tree.kind items ∧ Fills items tree.children tokens

namespace Fills

variable {items : List Item} {trees : List Node} {tokens : List Token}

theorem tree {category : Category} {tree : Node} {front : List Token}
    (h : Derives category tree front) (rest : Fills items trees tokens) :
    Fills (.part category :: items) (tree :: trees) (front ++ tokens) := by
  obtain ⟨hcategory, inside, production, below⟩ := h
  exact .part hcategory production below rest

theorem lastTree {category : Category} {tree : Node} (h : Derives category tree tokens) :
    Fills [.part category] [tree] tokens := by
  simpa using Fills.nil.tree h

theorem append {items' : List Item} {trees' : List Node} {tokens' : List Token}
    (h : Fills items trees tokens) (h' : Fills items' trees' tokens') :
    Fills (items ++ items') (trees ++ trees') (tokens ++ tokens') := by
  induction h with
  | nil => exact h'
  | mark hkind _ ih => exact .mark hkind ih
  | word hkind htext _ ih => exact .word hkind htext ih
  | part hcategory production below _ _ ih =>
    rw [List.append_assoc]
    exact .part hcategory production below ih

/-- Every node below a right-hand side is a derivation in its turn. -/
theorem exists_derives (h : Fills items trees tokens) :
    ∀ tree ∈ trees, ∀ node ∈ tree.nodes, ∃ inside, Derives node.kind.category node inside := by
  induction h with
  | nil => nofun
  | mark _ _ ih => exact ih
  | word _ _ _ ih => exact ih
  | @part _ tree _ _ _ _ _ _ production below _ ihBelow ih =>
    refine List.forall_mem_cons.mpr ⟨fun node hnode => ?_, ih⟩
    rcases Node.mem_nodes_iff.mp hnode with rfl | ⟨child, hchild, hnode⟩
    · exact ⟨_, rfl, _, production, below⟩
    · exact ihBelow child hchild node hnode

end Fills

/-! ## What fills a given item -/

section Inversion

variable {items : List Item} {trees : List Node} {tokens : List Token}

theorem fills_nil_iff : Fills [] trees tokens ↔ trees = [] ∧ tokens = [] := by
  constructor
  · rintro ⟨⟩
    exact ⟨rfl, rfl⟩
  · rintro ⟨rfl, rfl⟩
    exact .nil

theorem fills_mark_iff {kind : TokenKind} :
    Fills (.mark kind :: items) trees tokens ↔
      ∃ token rest, tokens = token :: rest ∧ token.kind = kind ∧ Fills items trees rest := by
  constructor
  · rintro (_ | ⟨hkind, hrest⟩)
    exact ⟨_, _, rfl, hkind, hrest⟩
  · rintro ⟨token, rest, rfl, hkind, hrest⟩
    exact .mark hkind hrest

theorem fills_word_iff {kind : TokenKind} {text : String} :
    Fills (.word kind text :: items) trees tokens ↔
      ∃ token rest, tokens = token :: rest ∧ token.kind = kind ∧ token.text = text ∧
        Fills items trees rest := by
  constructor
  · rintro (_ | _ | ⟨hkind, htext, hrest⟩)
    exact ⟨_, _, rfl, hkind, htext, hrest⟩
  · rintro ⟨token, rest, rfl, hkind, htext, hrest⟩
    exact .word hkind htext hrest

theorem fills_part_iff {category : Category} :
    Fills (.part category :: items) trees tokens ↔
      ∃ tree others front back, trees = tree :: others ∧ tokens = front ++ back ∧
        Derives category tree front ∧ Fills items others back := by
  constructor
  · rintro (_ | _ | _ | ⟨hcategory, production, below, hrest⟩)
    exact ⟨_, _, _, _, rfl, rfl, ⟨hcategory, _, production, below⟩, hrest⟩
  · rintro ⟨tree, others, front, back, rfl, rfl, h, hrest⟩
    exact .tree h hrest

end Inversion

end Census
