import Census.Proofs.Parse.Readers
import Census.Proofs.Token.Order
import Census.Proofs.Tree.Nodes

/-!
# Where the nodes of a tree stand

Every node that a reader makes reaches from the first of its tokens to the last one, and its parts
stand on tokens of their own among these, in order. Tokens that come from a text are in order, so
the spans of a tree are then known from its tokens.

- `Covers`: a span reaches over tokens.
- `Stand`, `Placed`: trees and their parts stand in order.
- `Parser.Places`: a reader that places its trees. There is a lemma for each reader, which only
  asks that the readers inside it place theirs.
- `parse_placed`: the trees of whole programs.
- `Stand.wordSpans_sublist`: the names and numbers of a tree stand where their tokens do.
-/

namespace Census

open Token

/-! ## Spans over tokens -/

/-- The span reaches from the first of the tokens to the last one, if they are in order. -/
structure Covers (span : Span) (tokens : List Token) : Prop where
  nonempty : tokens ≠ []
  eq_mk : InOrder tokens → ∀ first ∈ tokens.head?, ∀ last ∈ tokens.getLast?,
    span = ⟨first.span.start, last.span.stop⟩

namespace Covers

variable {span span' : Span} {tokens front back : List Token} {token : Token}

/-- A token's span reaches over the token. -/
theorem one (token : Token) : Covers token.span [token] := by
  refine ⟨by simp, fun _ first hfirst last hlast => ?_⟩
  obtain rfl := Option.some.inj hfirst
  obtain rfl := Option.some.inj hlast
  rfl

/-- The hull of two spans, one at the front and one at the back. -/
theorem merge (h : Covers span front) (h' : Covers span' back) (hfront : front <+: tokens)
    (hback : back <:+ tokens) : Covers (span.merge span') tokens := by
  refine ⟨fun hnil => h.nonempty (List.prefix_nil.mp (hnil ▸ hfront)),
    fun horder first hfirst last hlast => ?_⟩
  obtain ⟨inner, hinner⟩ : ∃ inner, front.getLast? = some inner :=
    ⟨_, List.getLast?_eq_some_getLast h.nonempty⟩
  obtain ⟨inner', hinner'⟩ : ∃ inner', back.head? = some inner' :=
    ⟨_, List.head?_eq_some_head h'.nonempty⟩
  have hfirst' : front.head? = some first := by
    obtain ⟨token, others, rfl⟩ := List.exists_cons_of_ne_nil h.nonempty
    obtain ⟨rest, rfl⟩ := hfront
    exact hfirst
  have hlast' : back.getLast? = some last := by
    obtain ⟨token, hback'⟩ : ∃ token, back.getLast? = some token :=
      ⟨_, List.getLast?_eq_some_getLast h'.nonempty⟩
    obtain ⟨rest, rfl⟩ := hback
    rw [Option.mem_def, List.getLast?_append, hback'] at hlast
    rw [hback']
    exact hlast
  have hmem : inner ∈ tokens := hfront.subset (List.mem_of_getLast? hinner)
  have hmem' : inner' ∈ tokens := hback.subset (List.mem_of_head? hinner')
  rw [h.eq_mk (horder.sublist hfront.sublist) first hfirst' inner hinner,
    h'.eq_mk (horder.sublist hback.sublist) inner' hinner' last hlast']
  simp only [Span.merge, Span.mk.injEq]
  refine ⟨if_pos (horder.start_le hfirst hmem'), ?_⟩
  rcases horder.eq_or_stop_lt hlast hmem with rfl | hlt
  · exact if_pos (Nat.le_refl _)
  · exact if_neg (Nat.not_le_of_lt hlt)

end Covers

namespace Cursor.Advances

variable {cursor cursor' : Cursor} {tokens : List Token} {token : Token}

/-- The span at a cursor is that of the first token it moves over. -/
theorem span_eq (h : cursor.Advances (token :: tokens) cursor') : cursor.span = token.span := by
  rw [Cursor.span, h.rest]
  rfl

/-- The span behind a cursor is that of the last token it has moved over. -/
theorem previousSpan_eq (h : cursor.Advances tokens cursor')
    (hlast : tokens.getLast? = some token) : cursor'.previousSpan = token.span := by
  rw [Cursor.previousSpan, h.previous, hlast]
  rfl

/-- From the next token before a cursor moves to the token just read after it. -/
theorem covers (h : cursor.Advances tokens cursor') (hsome : tokens ≠ []) :
    Covers (cursor.span.merge cursor'.previousSpan) tokens := by
  obtain ⟨first, others, rfl⟩ := List.exists_cons_of_ne_nil hsome
  obtain ⟨last, hlast⟩ : ∃ last, (first :: others).getLast? = some last :=
    ⟨_, List.getLast?_eq_some_getLast hsome⟩
  rw [h.span_eq, h.previousSpan_eq hlast]
  obtain ⟨init, hinit⟩ := List.getLast?_eq_some_iff.mp hlast
  exact (Covers.one first).merge (.one last) (List.prefix_append [first] others)
    ⟨init, hinit.symm⟩

end Cursor.Advances

/-! ## Trees over tokens -/

/-- The word that a leaf carries: the name of an identifier, the digits of a number. -/
def Node.word? (node : Node) : Option String :=
  match node.kind with
  | .identifier name => some name
  | .integer digits => some digits
  | _ => none

/-- The trees stand on the tokens in order, each on tokens of its own, and so do their parts. -/
inductive Stand : List Node → List Token → Prop where
  | nil (tokens : List Token) : Stand [] tokens
  /-- A token that belongs to none of the trees. -/
  | skip {trees : List Node} {tokens : List Token} (token : Token) (rest : Stand trees tokens) :
      Stand trees (token :: tokens)
  | tree {tree : Node} {trees : List Node} {inside tokens : List Token}
      (hspan : Covers tree.span inside)
      (hword : ∀ word ∈ tree.word?, tree.children = [] ∧ inside.map Token.text = [word])
      (below : Stand tree.children inside) (rest : Stand trees tokens) :
      Stand (tree :: trees) (inside ++ tokens)
  /-- An empty block has no tokens. It stands where the next token starts. -/
  | block {tree : Node} {trees : List Node} {next : Token} {tokens : List Token}
      (hkind : tree.kind = .block) (hchildren : tree.children = [])
      (hspan : tree.span = .emptyAt next.span.start)
      (rest : Stand trees (next :: tokens)) : Stand (tree :: trees) (next :: tokens)

/-- The tree covers the tokens, and its parts stand on them in order. -/
structure Placed (tree : Node) (tokens : List Token) : Prop where
  covers : Covers tree.span tokens
  word : ∀ word ∈ tree.word?, tree.children = [] ∧ tokens.map Token.text = [word]
  below : Stand tree.children tokens

section Stand

variable {tree : Node} {trees : List Node} {inside tokens : List Token}

/-- Tokens in front of all trees belong to none of them. -/
theorem Stand.skipAll (front : List Token) (h : Stand trees tokens) :
    Stand trees (front ++ tokens) := by
  induction front with
  | nil => exact h
  | cons token front ih => exact .skip token ih

/-- A placed tree stands in front of the trees behind it. -/
theorem Placed.cons (h : Placed tree inside) (hrest : Stand trees tokens) :
    Stand (tree :: trees) (inside ++ tokens) :=
  .tree h.covers h.word h.below hrest

theorem Placed.last (h : Placed tree inside) : Stand [tree] inside := by
  simpa using h.cons (.nil [])

/-- A construct that is no word is placed if its parts are. -/
theorem Placed.of_stand {kind : NodeKind} {span : Span} (h : Stand trees tokens)
    (hword : Node.word? ⟨kind, trees, span⟩ = none) (hspan : Covers span tokens) :
    Placed ⟨kind, trees, span⟩ tokens :=
  ⟨hspan, by simp [hword], h⟩

/-- A row of trees behind a first one, and where the last of them ends. -/
structure Row (trees : List Node) (tokens : List Token) : Prop where
  stand : Stand trees tokens
  nil : trees = [] → tokens = []
  last : ∀ last ∈ trees.getLast?, ∃ back, back <:+ tokens ∧ Covers last.span back

namespace Row

theorem empty : Row [] [] := ⟨.nil [], fun _ => rfl, nofun⟩

/-- A tree in front of a row makes a row, with tokens in between that belong to neither. -/
theorem cons (gap : List Token) (h : Placed tree inside) (hrest : Row trees tokens) :
    Row (tree :: trees) (gap ++ (inside ++ tokens)) := by
  refine ⟨(h.cons hrest.stand).skipAll gap, nofun, fun last hlast => ?_⟩
  cases trees with
  | nil =>
    obtain rfl := Option.some.inj hlast
    obtain rfl := hrest.nil rfl
    exact ⟨inside, by simp, h.covers⟩
  | cons next others =>
    obtain ⟨back, hback, hcovers⟩ := hrest.last last hlast
    exact ⟨back, hback.trans ((List.suffix_append inside tokens).trans (List.suffix_append gap _)),
      hcovers⟩

/-- From a first tree to the last one of a row. -/
theorem covers (hrest : Row trees tokens) (h : Placed tree inside) :
    Covers (tree.span.merge (trees.getLastD tree).span) (inside ++ tokens) := by
  cases hlast : trees.getLast? with
  | none =>
    obtain rfl := List.getLast?_eq_none_iff.mp hlast
    obtain rfl := hrest.nil rfl
    simpa using h.covers
  | some last =>
    obtain ⟨back, hback, hcovers⟩ := hrest.last last hlast
    rw [List.getLastD_eq_getLast?, hlast]
    exact h.covers.merge hcovers (List.prefix_append _ _) (hback.trans (List.suffix_append _ _))

end Row

end Stand

namespace Parser

/-- The reader places its trees on the tokens that it moves over. -/
def Places (parser : Parser Node) : Prop :=
  ∀ ⦃cursor tree cursor'⦄, Runs parser cursor tree cursor' →
    ∃ tokens, cursor.Advances tokens cursor' ∧ Placed tree tokens

variable {inner operand statement expression : Parser Node}

theorem refuseNesting_places : Places refuseNesting := by
  intro cursor tree cursor' h
  exact absurd h not_runs_refuseNesting

/-! ## Expressions -/

/-- An identifier stands on its token and has its text. -/
theorem identifier_places : Places identifier := by
  intro cursor tree cursor' h
  obtain ⟨token, -, hone, rfl⟩ := runs_identifier.mp h
  exact ⟨[token], hone, .one token, by simp [Node.word?], .nil _⟩

/-- A leaf stands on one token and carries its text as its word, if any. -/
theorem placed_leaf {token : Token} {kind : NodeKind} (h : token.leaf? = some kind) :
    Placed (literal kind token) [token] := by
  refine ⟨.one token, ?_, .nil _⟩
  unfold Token.leaf? at h
  split at h <;> cases h <;> simp [literal, Node.word?]

/-- Parentheses belong to the value around the expression, which itself stands between them. -/
theorem value_places (hinner : Places inner) : Places (value inner) := by
  intro cursor tree cursor' h
  obtain ⟨token, between, hone, h⟩ := runs_value.mp h
  rcases h with ⟨kind, hleaf, rfl, rfl⟩ | ⟨-, content, inside, close, hcontent, -, hlast, rfl⟩
  · exact ⟨[token], hone, .of_stand (placed_leaf hleaf).last rfl (hone.covers (by simp))⟩
  · obtain ⟨tokens, hmoved, hplaced⟩ := hinner hcontent
    have hall := hone.cons (hmoved.trans hlast)
    exact ⟨_, hall, .of_stand (.skip token (hplaced.cons (.nil _))) rfl (hall.covers (by simp))⟩

/-- Stacked operators are tokens of the node, in front of the operand. -/
theorem stacked_places {kinds : List TokenKind} {kind : List String → NodeKind}
    (hkind : ∀ texts children span, Node.word? ⟨kind texts, children, span⟩ = none)
    (hoperand : Places operand) : Places (stacked kinds kind operand) := by
  intro cursor tree cursor' h
  obtain ⟨run, between, content, hrun, -, -, hcontent, rfl⟩ := runs_stacked.mp h
  obtain ⟨tokens, hmoved, hplaced⟩ := hoperand hcontent
  refine ⟨run ++ tokens, hrun.trans hmoved, .of_stand (hplaced.last.skipAll run) (hkind _ _ _) ?_⟩
  cases run with
  | nil => exact hplaced.covers
  | cons token others =>
    rw [hrun.span_eq]
    exact (Covers.one token).merge hplaced.covers (List.prefix_append [token] _)
      (List.suffix_append _ _)

/-- By induction on the fuel. Operators are the gaps between the operands. -/
theorem links_places {kinds : List TokenKind} (hoperand : Places operand) (fuel : Nat)
    {cursor cursor' : Cursor} {pairs : List (String × Node)}
    (h : Runs (links kinds operand fuel) cursor pairs cursor') :
    ∃ tokens, cursor.Advances tokens cursor' ∧ Row (pairs.map Prod.snd) tokens := by
  induction fuel generalizing cursor pairs with
  | zero =>
    obtain ⟨rfl, rfl⟩ := runs_links_zero.mp h
    exact ⟨[], .refl _, .empty⟩
  | succ fuel ih =>
    rcases runs_links_succ.mp h with ⟨-, rfl, rfl⟩ |
      ⟨operator, between, content, between', others, -, hone, hcontent, hothers, rfl⟩
    · exact ⟨[], .refl _, .empty⟩
    · obtain ⟨tokens, hmoved, hplaced⟩ := hoperand hcontent
      obtain ⟨tokens', hmoved', hrow⟩ := ih hothers
      exact ⟨_, hone.trans (hmoved.trans hmoved'), hrow.cons [operator] hplaced⟩

/-- The first operand starts the chain, and the last one ends it. -/
theorem chain_places {kinds : List TokenKind} {kind : List String → NodeKind}
    (hkind : ∀ texts children span, Node.word? ⟨kind texts, children, span⟩ = none)
    (hoperand : Places operand) : Places (chain kinds kind operand) := by
  intro cursor tree cursor' h
  obtain ⟨first, between, others, hfirst, hothers, rfl⟩ := runs_chain.mp h
  obtain ⟨tokens, hmoved, hplaced⟩ := hoperand hfirst
  obtain ⟨tokens', hmoved', hrow⟩ := links_places hoperand _ hothers
  exact ⟨_, hmoved.trans hmoved',
    .of_stand (hplaced.cons hrow.stand) (hkind _ _ _) (hrow.covers hplaced)⟩

/-- The operator is the gap between two operands. -/
theorem comparison_places (hoperand : Places operand) : Places (comparison operand) := by
  intro cursor tree cursor' h
  obtain ⟨left, between, hleft, h⟩ := runs_comparison.mp h
  obtain ⟨tokens, hmoved, hplaced⟩ := hoperand hleft
  rcases h with ⟨-, rfl, rfl⟩ | ⟨operator, between', right, -, hone, hright, rfl⟩
  · exact ⟨tokens, hmoved, .of_stand hplaced.last rfl hplaced.covers⟩
  · obtain ⟨tokens', hmoved', hplaced'⟩ := hoperand hright
    have hrow : Row [right] ([operator] ++ (tokens' ++ [])) := Row.empty.cons [operator] hplaced'
    rw [List.append_nil] at hrow
    exact ⟨_, hmoved.trans (hone.trans hmoved'),
      .of_stand (hplaced.cons hrow.stand) rfl (hrow.covers hplaced)⟩

/-- The ladder of levels. -/
theorem expressionOver_places (hinner : Places inner) : Places (expressionOver inner) := by
  have hnegation : Places (negation inner) :=
    stacked_places (fun _ _ _ => rfl) (value_places hinner)
  have hsigned : Places (signed inner) := stacked_places (fun _ _ _ => rfl) hnegation
  have hproduct : Places (product inner) := chain_places (fun _ _ _ => rfl) hsigned
  have hsum : Places (sum inner) := chain_places (fun _ _ _ => rfl) hproduct
  have hlogical : Places (logical inner) :=
    chain_places (fun _ _ _ => rfl) (comparison_places hsum)
  intro cursor tree cursor' h
  obtain ⟨content, hcontent, rfl⟩ := runs_expressionOver.mp h
  obtain ⟨tokens, hmoved, hplaced⟩ := hlogical hcontent
  exact ⟨tokens, hmoved, .of_stand hplaced.last rfl hplaced.covers⟩

theorem expression_places (levels : Nat) : Places (Parser.expression levels) := by
  induction levels with
  | zero => exact expressionOver_places refuseNesting_places
  | succ levels ih => exact expressionOver_places ih

/-! ## Declarations and assignments -/

/-- The keyword is a token of the declaration, in front of its identifier. -/
theorem declared_places {kind : String → NodeKind} {keyword : Token}
    {cursor between cursor' : Cursor} {tree : Node}
    (hkind : ∀ text children span, Node.word? ⟨kind text, children, span⟩ = none)
    (hone : cursor.Advances [keyword] between)
    (h : Runs (declared kind keyword) between tree cursor') :
    ∃ tokens, cursor.Advances tokens cursor' ∧ Placed tree tokens := by
  obtain ⟨target, htarget, rfl⟩ := runs_declared.mp h
  obtain ⟨tokens, hmoved, hplaced⟩ := identifier_places htarget
  exact ⟨keyword :: tokens, hone.cons hmoved, .of_stand (hplaced.last.skip keyword) (hkind _ _ _)
    ((Covers.one keyword).merge hplaced.covers (List.prefix_append [keyword] _)
      (List.suffix_append [keyword] _))⟩

theorem scalarDeclaration_places : Places scalarDeclaration := by
  intro cursor tree cursor' h
  obtain ⟨keyword, between, -, hone, h⟩ := runs_scalarDeclaration.mp h
  exact declared_places (fun _ _ _ => rfl) hone h

theorem declaration_places : Places declaration := by
  intro cursor tree cursor' h
  obtain ⟨content, hcontent, rfl⟩ := runs_declaration.mp h
  obtain ⟨tokens, hmoved, hplaced⟩ :
      ∃ tokens, cursor.Advances tokens cursor' ∧ Placed content tokens := by
    rcases hcontent with ⟨-, h⟩ | ⟨keyword, between, -, hone, h⟩
    · exact scalarDeclaration_places h
    · exact declared_places (fun _ _ _ => rfl) hone h
  exact ⟨tokens, hmoved, .of_stand hplaced.last rfl hplaced.covers⟩

/-- Between target and expression the sign of assignment belongs to neither. -/
theorem assignment_places (hexpression : Places expression) : Places (assignment expression) := by
  intro cursor tree cursor' h
  obtain ⟨target, named, sign, signed, content, htarget, -, hone, hcontent, rfl⟩ :=
    runs_assignment.mp h
  obtain ⟨tokens, hmoved, hplaced⟩ := identifier_places htarget
  obtain ⟨tokens', hmoved', hplaced'⟩ := hexpression hcontent
  exact ⟨tokens ++ sign :: tokens', hmoved.trans (hone.cons hmoved'),
    .of_stand (hplaced.cons (hplaced'.last.skip sign)) rfl (hplaced.covers.merge hplaced'.covers
      (List.prefix_append _ _)
      ((List.suffix_cons sign _).trans (List.suffix_append tokens _)))⟩

/-! ## Statements -/

/-- By induction on the fuel. Statements leave no gaps, so the row starts with the first statement.
-/
theorem statements_places (hstatement : Places statement) (fuel : Nat) {cursor cursor' : Cursor}
    {trees : List Node} (h : Runs (statements statement fuel) cursor trees cursor') :
    ∃ tokens, cursor.Advances tokens cursor' ∧ Row trees tokens ∧
      ∀ first ∈ trees.head?, ∃ front, front <+: tokens ∧ Covers first.span front := by
  -- as for links
  induction fuel generalizing cursor trees with
  | zero =>
    obtain ⟨rfl, rfl⟩ := runs_statements_zero.mp h
    exact ⟨[], .refl _, .empty, nofun⟩
  | succ fuel ih =>
    rcases runs_statements_succ.mp h with ⟨-, rfl, rfl⟩ |
      ⟨-, first, between, others, hfirst, hothers, rfl⟩
    · exact ⟨[], .refl _, .empty, nofun⟩
    · obtain ⟨tokens, hmoved, hplaced⟩ := hstatement hfirst
      obtain ⟨tokens', hmoved', hrow, -⟩ := ih hothers
      refine ⟨tokens ++ tokens', hmoved.trans hmoved', hrow.cons [] hplaced, fun tree htree => ?_⟩
      obtain rfl := Option.some.inj htree
      exact ⟨tokens, List.prefix_append _ _, hplaced.covers⟩

/-- A block stands on its tokens, or it has none and stands in front of the next one. -/
theorem block_places (hstatement : Places statement) {cursor cursor' : Cursor} {tree : Node}
    (h : Runs (block statement) cursor tree cursor') :
    ∃ tokens, cursor.Advances tokens cursor' ∧
      (Placed tree tokens ∨ tokens = [] ∧ tree = ⟨.block, [], .emptyAt cursor.span.start⟩) := by
  obtain ⟨parts, hparts, rfl⟩ := runs_block.mp h
  obtain ⟨tokens, hmoved, hrow, hfront⟩ := statements_places hstatement _ hparts
  refine ⟨tokens, hmoved, ?_⟩
  cases parts with
  | nil => exact .inr ⟨hrow.nil rfl, rfl⟩
  | cons first others =>
    obtain ⟨last, hlast⟩ : ∃ last, (first :: others).getLast? = some last :=
      ⟨_, List.getLast?_eq_some_getLast (by simp)⟩
    obtain ⟨front, hprefix, hfirst⟩ := hfront first rfl
    obtain ⟨back, hsuffix, hcovers⟩ := hrow.last last hlast
    refine .inl (.of_stand hrow.stand rfl ?_)
    rw [hlast]
    exact hfirst.merge hcovers hprefix hsuffix

/-- Parentheses around a condition belong to the construct, not to the expression. -/
theorem condition_places (hexpression : Places expression) {cursor cursor' : Cursor}
    {tree : Node} (h : Runs (condition expression) cursor tree cursor') :
    ∃ left tokens right, cursor.Advances (left :: (tokens ++ [right])) cursor' ∧
      Placed tree tokens := by
  obtain ⟨left, opened, inside, right, -, hfirst, hcontent, -, hlast⟩ := runs_condition.mp h
  obtain ⟨tokens, hmoved, hplaced⟩ := hexpression hcontent
  exact ⟨left, tokens, right, hfirst.cons (hmoved.trans hlast), hplaced⟩

/-- With or without `else`, a conditional ends where its last branch does. -/
theorem conditional_places (hstatement : Places statement) (hexpression : Places expression) :
    Places (conditional statement expression) := by
  intro cursor tree cursor' h
  obtain ⟨start, started, test, tested, branch, branched, -, hone, htest, hbranch, h⟩ :=
    runs_conditional.mp h
  obtain ⟨left, tokens, right, hmoved, hplaced⟩ := condition_places hexpression htest
  obtain ⟨tokens', hmoved', hplaced'⟩ := hstatement hbranch
  have hspan : cursor.span = start.span := hone.span_eq
  rcases h with ⟨-, rfl, rfl⟩ | ⟨other, between, otherwise, -, hone', hotherwise, rfl⟩
  · have hall : cursor.Advances (start :: left :: (tokens ++ right :: tokens')) cursor' := by
      simpa using hone.cons (hmoved.trans hmoved')
    refine ⟨_, hall, .of_stand (.skip start (.skip left ?_)) rfl (hspan ▸ hall.covers (by simp))⟩
    exact hplaced.cons (hplaced'.last.skip right)
  · obtain ⟨tokens'', hmoved'', hplaced''⟩ := hstatement hotherwise
    have hall : cursor.Advances
        (start :: left :: (tokens ++ right :: (tokens' ++ other :: tokens''))) cursor' := by
      simpa using hone.cons (hmoved.trans (hmoved'.trans (hone'.cons hmoved'')))
    refine ⟨_, hall, .of_stand (.skip start (.skip left ?_)) rfl (hspan ▸ hall.covers (by simp))⟩
    exact hplaced.cons ((hplaced'.cons (hplaced''.last.skip other)).skip right)

/-- A loop reaches from its keyword to the end of its body. -/
theorem covers_loop {start : Token} {span : Span} {head body : List Token} (h : Covers span body) :
    Covers (start.span.merge span) (start :: (head ++ body)) :=
  (Covers.one start).merge h (List.prefix_append [start] _)
    (List.suffix_append (start :: head) body)

/-- A loop starts with its keyword and ends with its body. -/
theorem whileLoop_places (hstatement : Places statement) (hexpression : Places expression) :
    Places (whileLoop statement expression) := by
  intro cursor tree cursor' h
  obtain ⟨start, started, test, tested, body, -, hone, htest, hbody, rfl⟩ := runs_whileLoop.mp h
  obtain ⟨left, tokens, right, hmoved, hplaced⟩ := condition_places hexpression htest
  obtain ⟨tokens', hmoved', hplaced'⟩ := hstatement hbody
  refine ⟨_, hone.cons (hmoved.trans hmoved'), .of_stand (.skip start ?_) rfl
    (covers_loop hplaced'.covers)⟩
  rw [List.cons_append, List.append_assoc]
  exact .skip left (hplaced.cons (hplaced'.last.skip right))

/-- The four parts of a counted loop stand between its keyword, parentheses and semicolons. -/
theorem forLoop_places (hstatement : Places statement) (hexpression : Places expression) :
    Places (forLoop statement expression) := by
  intro cursor tree cursor' h
  obtain ⟨start, c₁, left, c₂, first, c₃, mark, c₄, test, c₅, mark', c₆, step, c₇, right, c₈, body,
    -, hone, -, htwo, hfirst, -, hthree, htest, -, hfour, hstep, -, hfive, hbody, rfl⟩ :=
    runs_forLoop.mp h
  obtain ⟨tokens₁, hmoved₁, hplaced₁⟩ := assignment_places hexpression hfirst
  obtain ⟨tokens₂, hmoved₂, hplaced₂⟩ := hexpression htest
  obtain ⟨tokens₃, hmoved₃, hplaced₃⟩ := assignment_places hexpression hstep
  obtain ⟨tokens₄, hmoved₄, hplaced₄⟩ := hstatement hbody
  have hall : cursor.Advances (start :: ((left ::
      (tokens₁ ++ mark :: (tokens₂ ++ mark' :: (tokens₃ ++ [right])))) ++ tokens₄)) cursor' := by
    simpa using hone.cons (htwo.cons (hmoved₁.trans (hthree.cons (hmoved₂.trans (hfour.cons
      (hmoved₃.trans (hfive.cons hmoved₄)))))))
  refine ⟨_, hall, .of_stand (.skip start ?_) rfl (covers_loop hplaced₄.covers)⟩
  simp only [List.cons_append, List.append_assoc, List.nil_append]
  exact .skip left (hplaced₁.cons (.skip mark (hplaced₂.cons (.skip mark'
    (hplaced₃.cons (.skip right hplaced₄.last))))))

theorem foreachLoop_places (hstatement : Places statement) : Places (foreachLoop statement) := by
  intro cursor tree cursor' h
  obtain ⟨start, c₁, left, c₂, element, c₃, colon, c₄, array, c₅, right, c₆, body,
    -, hone, -, htwo, helement, -, hthree, harray, -, hfour, hbody, rfl⟩ := runs_foreachLoop.mp h
  obtain ⟨tokens₁, hmoved₁, hplaced₁⟩ := scalarDeclaration_places helement
  obtain ⟨tokens₂, hmoved₂, hplaced₂⟩ := identifier_places harray
  obtain ⟨tokens₃, hmoved₃, hplaced₃⟩ := hstatement hbody
  have hall : cursor.Advances (start :: ((left ::
      (tokens₁ ++ colon :: (tokens₂ ++ [right]))) ++ tokens₃)) cursor' := by
    simpa using hone.cons (htwo.cons (hmoved₁.trans (hthree.cons (hmoved₂.trans
      (hfour.cons hmoved₃)))))
  refine ⟨_, hall, .of_stand (.skip start ?_) rfl (covers_loop hplaced₃.covers)⟩
  simp only [List.cons_append, List.append_assoc, List.nil_append]
  exact .skip left (hplaced₁.cons (.skip colon (hplaced₂.cons (.skip right hplaced₃.last))))

/-- The construct in a statement stands among the tokens of the statement. -/
def PlacesInside (parser : Parser Node) : Prop :=
  ∀ ⦃cursor tree cursor'⦄, Runs parser cursor tree cursor' →
    ∃ tokens, cursor.Advances tokens cursor' ∧ tokens ≠ [] ∧ Stand [tree] tokens

section Inside

variable {reader : Parser Node}

/-- Compound constructs stand on their own. -/
theorem Places.inside (hreader : Places reader) : PlacesInside reader := by
  intro cursor tree cursor' h
  obtain ⟨tokens, hmoved, hplaced⟩ := hreader h
  exact ⟨tokens, hmoved, hplaced.covers.nonempty, hplaced.last⟩

/-- Simple constructs have a semicolon behind them. -/
theorem Places.closed (hreader : Places reader) {close : TokenKind} :
    PlacesInside (closed close reader) := by
  intro cursor tree cursor' h
  obtain ⟨between, last, hcontent, -, hone⟩ := runs_closed.mp h
  obtain ⟨tokens, hmoved, hplaced⟩ := hreader hcontent
  exact ⟨tokens ++ [last], hmoved.trans hone, by simp, hplaced.cons (.nil _)⟩

/-- Blocks have braces around them. -/
theorem placesInside_braces (hstatement : Places statement) : PlacesInside (do
    let _ ← expect .leftBrace
    Parser.closed .rightBrace (block statement)) := by
  intro cursor tree cursor' h
  obtain ⟨first, between, hfirst, h⟩ := runs_bind.mp h
  obtain ⟨-, hone⟩ := runs_expect.mp hfirst
  obtain ⟨inside, last, hcontent, -, hone'⟩ := runs_closed.mp h
  obtain ⟨tokens, hmoved, hblock⟩ := block_places hstatement hcontent
  refine ⟨first :: (tokens ++ [last]), hone.cons (hmoved.trans hone'), by simp, .skip first ?_⟩
  rcases hblock with hplaced | ⟨rfl, rfl⟩
  · exact hplaced.cons (.nil [last])
  · exact .block rfl rfl (by rw [(hmoved.trans hone').span_eq]) (.nil [last])

end Inside

/-- Which construct it is was decided by the next token. -/
theorem construct_places (hstatement : Places statement) (hexpression : Places expression)
    (kind? : Option TokenKind) : PlacesInside (construct statement expression kind?) := by
  -- one case for each first token a statement can have
  unfold construct
  split
  · exact (conditional_places hstatement hexpression).inside
  · exact (whileLoop_places hstatement hexpression).inside
  · exact (forLoop_places hstatement hexpression).inside
  · exact (foreachLoop_places hstatement).inside
  · exact placesInside_braces hstatement
  · exact declaration_places.closed
  · exact declaration_places.closed
  · exact declaration_places.closed
  · exact declaration_places.closed
  · exact (assignment_places hexpression).closed
  · intro cursor tree cursor' h
    exact absurd h not_runs_refuse

theorem statementOver_places (hstatement : Places statement) (hexpression : Places expression) :
    Places (statementOver statement expression) := by
  intro cursor tree cursor' h
  obtain ⟨content, hcontent, rfl⟩ := runs_statementOver.mp h
  obtain ⟨tokens, hmoved, hsome, hstand⟩ := construct_places hstatement hexpression _ hcontent
  exact ⟨tokens, hmoved, .of_stand hstand rfl (hmoved.covers hsome)⟩

/-- By induction on the levels that statements are nested in. -/
theorem statement_places (levels : Nat) : Places (Parser.statement levels) := by
  induction levels with
  | zero => exact refuseNesting_places
  | succ levels ih => exact statementOver_places ih (expression_places levels)

end Parser

/-- A program with tokens stands on all of them. -/
theorem parse_placed {tokens : List Token} {tree : Node} (hsome : tokens ≠ [])
    (h : parse tokens = .ok tree) : Placed tree tokens := by
  obtain ⟨cursor', hrun⟩ := parse_eq_ok_iff.mp h
  obtain ⟨content, hcontent, hend, rfl⟩ := Parser.runs_program.mp hrun
  obtain ⟨read, hmoved, hblock⟩ := Parser.block_places (Parser.statement_places _) hcontent
  have hall : tokens = read := by simpa [Cursor.atStart, hend] using hmoved.rest
  subst hall
  have hplaced := hblock.resolve_right fun hempty => hsome hempty.1
  exact .of_stand hplaced.last rfl hplaced.covers

/-! ## Words -/

/-- Where a name or a number stands. -/
def Node.wordSpan? (node : Node) : Option Span :=
  node.word?.map fun _ => node.span

/-- Where the names and numbers of a tree stand, in the order of its nodes. -/
def Node.wordSpans (tree : Node) : List Span :=
  tree.nodes.filterMap wordSpan?

/-- The words of a tree are that of its root and then those of its parts. -/
theorem Node.wordSpans_eq (tree : Node) :
    tree.wordSpans = tree.wordSpan?.toList ++ tree.children.flatMap wordSpans := by
  obtain ⟨kind, children, span⟩ := tree
  rw [wordSpans, nodes_mk, List.filterMap_cons, List.filterMap_flatMap]
  cases wordSpan? ⟨kind, children, span⟩ <;> rfl

/-- A name or a number is the text of the token that it stands on. -/
theorem Stand.exists_token {trees : List Node} {tokens : List Token} (h : Stand trees tokens)
    (horder : InOrder tokens) {word : String} :
    ∀ tree ∈ trees, ∀ node ∈ tree.nodes, node.word? = some word →
      ∃ token ∈ tokens, token.text = word ∧ token.span = node.span := by
  induction h with
  | nil tokens => simp
  | skip token _ ih =>
    intro tree htree node hnode hword
    obtain ⟨found, hfound, hstands⟩ := ih horder.tail tree htree node hnode hword
    exact ⟨found, List.mem_cons_of_mem _ hfound, hstands⟩
  | @tree tree trees inside tokens hspan hword _ _ ihBelow ih =>
    refine List.forall_mem_cons.mpr
      ⟨fun node hnode hsome => ?_, fun other hother node hnode hsome => ?_⟩
    · rcases Node.mem_nodes_iff.mp hnode with rfl | ⟨child, hchild, hbelow⟩
      · obtain ⟨-, htexts⟩ := hword word hsome
        obtain ⟨token, rfl, htext⟩ := List.map_eq_singleton_iff.mp htexts
        have heq := hspan.eq_mk horder.left token rfl token rfl
        exact ⟨token, by simp, htext, heq.symm⟩
      · obtain ⟨token, htoken, hstands⟩ := ihBelow horder.left child hchild node hbelow hsome
        exact ⟨token, List.mem_append_left _ htoken, hstands⟩
    · obtain ⟨token, htoken, hstands⟩ := ih horder.right other hother node hnode hsome
      exact ⟨token, List.mem_append_right _ htoken, hstands⟩
  | block hkind hchildren _ _ ih =>
    refine List.forall_mem_cons.mpr ⟨fun node hnode hsome => ?_, ih horder⟩
    rcases Node.mem_nodes_iff.mp hnode with rfl | ⟨child, hchild, -⟩
    · rw [Node.word?, hkind] at hsome
      cases hsome
    · rw [hchildren] at hchild
      cases hchild

/-- Names and numbers stand where their tokens do. -/
theorem Stand.wordSpans_sublist {trees : List Node} {tokens : List Token} (h : Stand trees tokens)
    (horder : InOrder tokens) :
    (trees.flatMap Node.wordSpans).Sublist (tokens.map Token.span) := by
  induction h with
  | nil tokens => exact List.nil_sublist _
  | skip token _ ih => exact (ih horder.tail).cons _
  | @tree tree trees inside tokens hspan hword _ _ ihBelow ih =>
    rw [List.flatMap_cons, List.map_append, Node.wordSpans_eq]
    refine List.Sublist.append ?_ (ih horder.right)
    cases hsome : tree.word? with
    | none => simpa [Node.wordSpan?, hsome] using ihBelow horder.left
    | some word =>
      -- a word has one token and no parts
      obtain ⟨hchildren, htexts⟩ := hword word hsome
      obtain ⟨token, rfl, -⟩ := List.map_eq_singleton_iff.mp htexts
      have heq := hspan.eq_mk horder.left token rfl token rfl
      simp [Node.wordSpan?, hsome, hchildren, heq]
  | @block tree trees next tokens hkind hchildren _ _ ih =>
    have hself : tree.wordSpans = [] := by
      rw [Node.wordSpans_eq, hchildren, Node.wordSpan?, Node.word?, hkind]
      rfl
    rw [List.flatMap_cons, hself]
    exact ih horder

end Census
