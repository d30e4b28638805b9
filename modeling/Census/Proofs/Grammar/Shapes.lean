import Census.Proofs.Grammar.Derivation

/-!
# Shapes of derivations

For each construct, what its derivations look like: the parts of the tree, and where the tokens of
the parts stand among those of the tree.

- `Derives.value` and its kin: the shapes.
- `Derives.value_head`, `Derives.statement_head` and their kin: the tokens with which constructs
  start.
-/

namespace Census

/-! ## Rows of parts -/

/-- Stacked operators are the first tokens. -/
theorem fills_stacked_append_iff {operators : Operators} {items : List Item} {trees : List Node}
    {tokens : List Token} :
    Fills (operators.stacked ++ items) trees tokens ↔
      ∃ run back, tokens = run ++ back ∧ operators = run.map Token.content ∧
        Fills items trees back := by
  induction operators generalizing tokens with
  | nil =>
    constructor
    · intro h
      exact ⟨[], tokens, rfl, rfl, h⟩
    · rintro ⟨run, back, rfl, hrun, h⟩
      obtain rfl := List.map_eq_nil_iff.mp hrun.symm
      exact h
  | cons operator others ih =>
    rw [Operators.stacked, List.map_cons, List.cons_append, fills_word_iff, ← Operators.stacked]
    constructor
    · rintro ⟨token, rest, rfl, hkind, htext, hrest⟩
      obtain ⟨run, back, rfl, rfl, h⟩ := ih.mp hrest
      exact ⟨token :: run, back, rfl, by simp [Token.content, hkind, htext], h⟩
    · rintro ⟨run, back, rfl, hrun, h⟩
      obtain ⟨token, run, rfl, rfl, rfl⟩ := List.map_eq_cons_iff.mp hrun.symm
      exact ⟨token, run ++ back, rfl, rfl, rfl, ih.mpr ⟨run, back, rfl, rfl, h⟩⟩

/-- The first of several linked operands. -/
theorem fills_links_cons_iff {operator : TokenKind × String} {operators : Operators}
    {operand : Category} {trees : List Node} {tokens : List Token} :
    Fills (Operators.links (operator :: operators) operand) trees tokens ↔
      ∃ token tree others front back, trees = tree :: others ∧
        tokens = token :: (front ++ back) ∧ token.content = operator ∧
        Derives operand tree front ∧ Fills (Operators.links operators operand) others back := by
  show Fills (.word _ _ :: .part _ :: Operators.links operators operand) trees tokens ↔ _
  rw [fills_word_iff]
  constructor
  · rintro ⟨token, rest, rfl, hkind, htext, hrest⟩
    obtain ⟨tree, others, front, back, rfl, rfl, htree, hothers⟩ := fills_part_iff.mp hrest
    exact ⟨token, tree, others, front, back, rfl, rfl, Prod.ext hkind htext, htree, hothers⟩
  · rintro ⟨token, tree, others, front, back, rfl, rfl, rfl, htree, hothers⟩
    exact ⟨token, front ++ back, rfl, rfl, rfl, .tree htree hothers⟩

/-- The operands behind operators. -/
theorem Fills.derives_of_links {operators : Operators} {operand : Category} {trees : List Node}
    {tokens : List Token} (h : Fills (operators.links operand) trees tokens) :
    ∀ tree ∈ trees, ∃ inside, Derives operand tree inside := by
  induction operators generalizing trees tokens with
  | nil => simp [(fills_nil_iff.mp h).1]
  | cons operator others ih =>
    obtain ⟨token, tree, others, front, back, rfl, -, -, htree, hothers⟩ :=
      fills_links_cons_iff.mp h
    exact List.forall_mem_cons.mpr ⟨⟨front, htree⟩, ih hothers⟩

/-- All operands of a chain. -/
theorem Derives.operands {operators : Operators} {operand : Category} {first : Node}
    {others : List Node} {front back : List Token} (hfirst : Derives operand first front)
    (hothers : Fills (operators.links operand) others back) :
    ∀ tree ∈ first :: others, ∃ inside, Derives operand tree inside :=
  List.forall_mem_cons.mpr ⟨⟨front, hfirst⟩, hothers.derives_of_links⟩

/-- The parts of a row of constructs of one kind. -/
theorem Fills.derives_of_replicate {count : Nat} {category : Category} {trees : List Node}
    {tokens : List Token} (h : Fills (List.replicate count (.part category)) trees tokens) :
    ∀ tree ∈ trees, ∃ inside, Derives category tree inside := by
  induction count generalizing trees tokens with
  | zero => simp [(fills_nil_iff.mp h).1]
  | succ count ih =>
    obtain ⟨tree, others, front, back, rfl, rfl, htree, hothers⟩ := fills_part_iff.mp h
    exact List.forall_mem_cons.mpr ⟨⟨front, htree⟩, ih hothers⟩

section Whole

variable {trees : List Node} {tokens : List Token} {operand : Category}

/-- A construct that is all there is. -/
theorem fills_lastTree_iff :
    Fills [.part operand] trees tokens ↔ ∃ tree, trees = [tree] ∧ Derives operand tree tokens := by
  constructor
  · intro h
    obtain ⟨tree, _, front, _, rfl, rfl, htree, hnil⟩ := fills_part_iff.mp h
    obtain ⟨rfl, rfl⟩ := fills_nil_iff.mp hnil
    exact ⟨tree, rfl, by rwa [List.append_nil]⟩
  · rintro ⟨tree, rfl, htree⟩
    exact .lastTree htree

/-- A word that is all there is. -/
theorem Fills.shape_word {kind : TokenKind} {text : String}
    (h : Fills [.word kind text] trees tokens) :
    ∃ token, token.kind = kind ∧ token.text = text ∧ trees = [] ∧ tokens = [token] := by
  obtain ⟨token, _, rfl, hkind, htext, hnil⟩ := fills_word_iff.mp h
  obtain ⟨rfl, rfl⟩ := fills_nil_iff.mp hnil
  exact ⟨token, hkind, htext, rfl, rfl⟩

/-- A word in front of a construct. -/
theorem Fills.shape_wordTree {kind : TokenKind} {text : String}
    (h : Fills [.word kind text, .part operand] trees tokens) :
    ∃ token tree inside, token.kind = kind ∧ token.text = text ∧ trees = [tree] ∧
      tokens = token :: inside ∧ Derives operand tree inside := by
  obtain ⟨token, inside, rfl, hkind, htext, hrest⟩ := fills_word_iff.mp h
  obtain ⟨tree, rfl, htree⟩ := fills_lastTree_iff.mp hrest
  exact ⟨token, tree, inside, hkind, htext, rfl, rfl, htree⟩

/-- Stacked operators in front of a construct. -/
theorem Fills.shape_stackedTree {operators : Operators} {kinds : List TokenKind}
    (h : Fills (operators.stacked ++ [.part operand]) trees tokens)
    (hamong : operators.Among kinds) :
    ∃ run tree inside, (∀ token ∈ run, token.kind ∈ kinds) ∧
      operators.texts = run.map Token.text ∧ trees = [tree] ∧ tokens = run ++ inside ∧
      Derives operand tree inside := by
  obtain ⟨run, inside, rfl, rfl, hrest⟩ := fills_stacked_append_iff.mp h
  obtain ⟨tree, rfl, htree⟩ := fills_lastTree_iff.mp hrest
  refine ⟨run, tree, inside, ?_, ?_, rfl, rfl, htree⟩
  · simpa [Operators.Among, Token.content] using hamong
  · simp [Operators.texts, Token.content]

end Whole

namespace Derives

variable {tree : Node} {tokens : List Token}

/-! ## Expressions -/

/-- An identifier is one token and has its text as its name. -/
theorem identifier (h : Derives .identifier tree tokens) :
    ∃ token span, token.kind = .identifier ∧ tokens = [token] ∧
      tree = ⟨.identifier token.text, [], span⟩ := by
  obtain ⟨kind, children, span⟩ := tree
  obtain ⟨hcategory, items, production, hfills⟩ := h
  cases production <;> simp only [NodeKind.category, reduceCtorEq] at hcategory
  obtain ⟨token, hkind, rfl, rfl, rfl⟩ := hfills.shape_word
  exact ⟨token, span, hkind, rfl, rfl⟩

theorem integer (h : Derives .integer tree tokens) :
    ∃ token span, token.kind = .integer ∧ tokens = [token] ∧
      tree = ⟨.integer token.text, [], span⟩ := by
  obtain ⟨kind, children, span⟩ := tree
  obtain ⟨hcategory, items, production, hfills⟩ := h
  cases production <;> simp only [NodeKind.category, reduceCtorEq] at hcategory
  obtain ⟨token, hkind, rfl, rfl, rfl⟩ := hfills.shape_word
  exact ⟨token, span, hkind, rfl, rfl⟩

/-- Which keyword it is tells which truth value it is. -/
theorem boolean (h : Derives .boolean tree tokens) :
    ∃ truth token span, token.kind = (if truth then .trueKeyword else .falseKeyword) ∧
      tokens = [token] ∧ tree = ⟨.boolean truth, [], span⟩ := by
  obtain ⟨kind, children, span⟩ := tree
  obtain ⟨hcategory, items, production, hfills⟩ := h
  cases production <;> simp only [NodeKind.category, reduceCtorEq] at hcategory
  simp only [fills_mark_iff, fills_nil_iff] at hfills
  obtain ⟨token, _, rfl, hkind, rfl, rfl⟩ := hfills
  exact ⟨_, token, span, hkind, rfl, rfl⟩

/-- A value is one of three leaves, or an expression between parentheses. -/
theorem value (h : Derives .value tree tokens) :
    ∃ content span, tree = ⟨.value, [content], span⟩ ∧
      ((∃ category ∈ [Category.identifier, .integer, .boolean], Derives category content tokens) ∨
        ∃ left inside right, left.kind = .leftParen ∧ right.kind = .rightParen ∧
          tokens = left :: (inside ++ [right]) ∧ Derives .expression content inside) := by
  obtain ⟨kind, children, span⟩ := tree
  obtain ⟨hcategory, items, production, hfills⟩ := h
  cases production <;> simp only [NodeKind.category, reduceCtorEq] at hcategory
  · next category hmem =>
    obtain ⟨content, rfl, hcontent⟩ := fills_lastTree_iff.mp hfills
    exact ⟨content, span, rfl, .inl ⟨category, hmem, hcontent⟩⟩
  · simp only [fills_mark_iff, fills_part_iff, fills_nil_iff] at hfills
    obtain ⟨left, _, rfl, hleft, content, _, inside, _, rfl, rfl, hcontent, right, _, rfl, hright,
      rfl, rfl⟩ := hfills
    exact ⟨content, span, rfl, .inr ⟨left, inside, right, hleft, hright, rfl, hcontent⟩⟩

/-- Any number of operators stand before a value. -/
theorem negation (h : Derives .negation tree tokens) :
    ∃ run content span inside, (∀ token ∈ run, token.kind ∈ [TokenKind.bang]) ∧
      tree = ⟨.negation (run.map Token.text), [content], span⟩ ∧ tokens = run ++ inside ∧
      Derives .value content inside := by
  obtain ⟨kind, children, span⟩ := tree
  obtain ⟨hcategory, items, production, hfills⟩ := h
  cases production <;> simp only [NodeKind.category, reduceCtorEq] at hcategory
  next operators hamong =>
  obtain ⟨run, content, inside, hrun, htexts, rfl, rfl, hcontent⟩ := hfills.shape_stackedTree hamong
  exact ⟨run, content, span, inside, hrun, by rw [htexts], rfl, hcontent⟩

/-- Any number of signs stand before a negation. -/
theorem signed (h : Derives .signed tree tokens) :
    ∃ run content span inside, (∀ token ∈ run, token.kind ∈ [TokenKind.plus, .minus]) ∧
      tree = ⟨.signed (run.map Token.text), [content], span⟩ ∧ tokens = run ++ inside ∧
      Derives .negation content inside := by
  obtain ⟨kind, children, span⟩ := tree
  obtain ⟨hcategory, items, production, hfills⟩ := h
  cases production <;> simp only [NodeKind.category, reduceCtorEq] at hcategory
  next operators hamong =>
  obtain ⟨run, content, inside, hrun, htexts, rfl, rfl, hcontent⟩ := hfills.shape_stackedTree hamong
  exact ⟨run, content, span, inside, hrun, by rw [htexts], rfl, hcontent⟩

/-- A first operand, then operators with an operand behind each; `links` is how the rest is written.
-/
theorem product (h : Derives .product tree tokens) :
    ∃ (operators : Operators) (first : Node) (others : List Node) (span : Span)
      (front back : List Token), operators.Among [.star, .slash, .percent] ∧
      tree = ⟨.product operators.texts, first :: others, span⟩ ∧ tokens = front ++ back ∧
      Derives .signed first front ∧ Fills (operators.links .signed) others back := by
  obtain ⟨kind, children, span⟩ := tree
  obtain ⟨hcategory, items, production, hfills⟩ := h
  cases production <;> simp only [NodeKind.category, reduceCtorEq] at hcategory
  next operators hamong =>
  obtain ⟨first, others, front, back, rfl, rfl, hfirst, hothers⟩ := fills_part_iff.mp hfills
  exact ⟨operators, first, others, span, front, back, hamong, rfl, rfl, hfirst, hothers⟩

theorem sum (h : Derives .sum tree tokens) :
    ∃ (operators : Operators) (first : Node) (others : List Node) (span : Span)
      (front back : List Token), operators.Among [.plus, .minus] ∧
      tree = ⟨.sum operators.texts, first :: others, span⟩ ∧ tokens = front ++ back ∧
      Derives .product first front ∧ Fills (operators.links .product) others back := by
  obtain ⟨kind, children, span⟩ := tree
  obtain ⟨hcategory, items, production, hfills⟩ := h
  cases production <;> simp only [NodeKind.category, reduceCtorEq] at hcategory
  next operators hamong =>
  obtain ⟨first, others, front, back, rfl, rfl, hfirst, hothers⟩ := fills_part_iff.mp hfills
  exact ⟨operators, first, others, span, front, back, hamong, rfl, rfl, hfirst, hothers⟩

theorem logical (h : Derives .logical tree tokens) :
    ∃ (operators : Operators) (first : Node) (others : List Node) (span : Span)
      (front back : List Token), operators.Among [.conjunction, .disjunction] ∧
      tree = ⟨.logical operators.texts, first :: others, span⟩ ∧ tokens = front ++ back ∧
      Derives .comparison first front ∧ Fills (operators.links .comparison) others back := by
  obtain ⟨kind, children, span⟩ := tree
  obtain ⟨hcategory, items, production, hfills⟩ := h
  cases production <;> simp only [NodeKind.category, reduceCtorEq] at hcategory
  next operators hamong =>
  obtain ⟨first, others, front, back, rfl, rfl, hfirst, hothers⟩ := fills_part_iff.mp hfills
  exact ⟨operators, first, others, span, front, back, hamong, rfl, rfl, hfirst, hothers⟩

/-- Comparisons do not chain: there is one operand, or there are two. -/
theorem comparison (h : Derives .comparison tree tokens) :
    (∃ left span, tree = ⟨.comparison none, [left], span⟩ ∧ Derives .sum left tokens) ∨
      ∃ left right span operator front back, operator.kind ∈ TokenKind.comparisons ∧
        tree = ⟨.comparison (some operator.text), [left, right], span⟩ ∧
        tokens = front ++ operator :: back ∧ Derives .sum left front ∧
        Derives .sum right back := by
  obtain ⟨kind, children, span⟩ := tree
  obtain ⟨hcategory, items, production, hfills⟩ := h
  cases production <;> simp only [NodeKind.category, reduceCtorEq] at hcategory
  · obtain ⟨left, rfl, hleft⟩ := fills_lastTree_iff.mp hfills
    exact .inl ⟨left, span, rfl, hleft⟩
  · next hkind =>
    simp only [fills_part_iff, fills_word_iff, fills_nil_iff] at hfills
    obtain ⟨left, _, front, _, rfl, rfl, hleft, operator, _, rfl, rfl, rfl, right, _, back, _, rfl,
      rfl, hright, rfl, rfl⟩ := hfills
    exact .inr ⟨left, right, span, operator, front, back, hkind, rfl, by simp, hleft, hright⟩

theorem expression (h : Derives .expression tree tokens) :
    ∃ content span, tree = ⟨.expression, [content], span⟩ ∧ Derives .logical content tokens := by
  obtain ⟨kind, children, span⟩ := tree
  obtain ⟨hcategory, items, production, hfills⟩ := h
  cases production <;> simp only [NodeKind.category, reduceCtorEq] at hcategory
  obtain ⟨content, rfl, hcontent⟩ := fills_lastTree_iff.mp hfills
  exact ⟨content, span, rfl, hcontent⟩

/-! ## Declarations and assignments -/

/-- A keyword for a scalar type and an identifier. -/
theorem scalarDeclaration (h : Derives .scalarDeclaration tree tokens) :
    ∃ keyword target span inside, keyword.kind ∈ TokenKind.scalarKeywords ∧
      tree = ⟨.scalarDeclaration keyword.text, [target], span⟩ ∧ tokens = keyword :: inside ∧
      Derives .identifier target inside := by
  obtain ⟨kind, children, span⟩ := tree
  obtain ⟨hcategory, items, production, hfills⟩ := h
  cases production <;> simp only [NodeKind.category, reduceCtorEq] at hcategory
  next hkind =>
  obtain ⟨keyword, target, inside, rfl, rfl, rfl, rfl, htarget⟩ := hfills.shape_wordTree
  exact ⟨keyword, target, span, inside, hkind, rfl, rfl, htarget⟩

theorem listDeclaration (h : Derives .listDeclaration tree tokens) :
    ∃ keyword target span inside, keyword.kind ∈ TokenKind.listKeywords ∧
      tree = ⟨.listDeclaration keyword.text, [target], span⟩ ∧ tokens = keyword :: inside ∧
      Derives .identifier target inside := by
  obtain ⟨kind, children, span⟩ := tree
  obtain ⟨hcategory, items, production, hfills⟩ := h
  cases production <;> simp only [NodeKind.category, reduceCtorEq] at hcategory
  next hkind =>
  obtain ⟨keyword, target, inside, rfl, rfl, rfl, rfl, htarget⟩ := hfills.shape_wordTree
  exact ⟨keyword, target, span, inside, hkind, rfl, rfl, htarget⟩

/-- A declaration is of a scalar or of a list, and has no tokens of its own. -/
theorem declaration (h : Derives .declaration tree tokens) :
    ∃ content span, tree = ⟨.declaration, [content], span⟩ ∧
      (Derives .scalarDeclaration content tokens ∨ Derives .listDeclaration content tokens) := by
  obtain ⟨kind, children, span⟩ := tree
  obtain ⟨hcategory, items, production, hfills⟩ := h
  cases production <;> simp only [NodeKind.category, reduceCtorEq] at hcategory
  next category hmem =>
  obtain ⟨content, rfl, hcontent⟩ := fills_lastTree_iff.mp hfills
  refine ⟨content, span, rfl, ?_⟩
  simp only [List.mem_cons, List.not_mem_nil, or_false] at hmem
  rcases hmem with rfl | rfl
  · exact .inl hcontent
  · exact .inr hcontent

/-- A variable and what it is assigned, with the sign in between. -/
theorem assignment (h : Derives .assignment tree tokens) :
    ∃ target content span front sign back, sign.kind = .assign ∧
      tree = ⟨.assignment, [target, content], span⟩ ∧ tokens = front ++ sign :: back ∧
      Derives .identifier target front ∧ Derives .expression content back := by
  obtain ⟨kind, children, span⟩ := tree
  obtain ⟨hcategory, items, production, hfills⟩ := h
  cases production <;> simp only [NodeKind.category, reduceCtorEq] at hcategory
  simp only [fills_part_iff, fills_mark_iff, fills_nil_iff] at hfills
  obtain ⟨target, _, front, _, rfl, rfl, htarget, sign, _, rfl, hsign, content, _, back, _, rfl,
    rfl, hcontent, rfl, rfl⟩ := hfills
  exact ⟨target, content, span, front, sign, back, hsign, rfl, by simp, htarget, hcontent⟩

/-! ## Statements -/

/-- A block is any number of statements, without braces. -/
theorem block (h : Derives .block tree tokens) :
    ∃ trees span, tree = ⟨.block, trees, span⟩ ∧
      ∃ count, Fills (List.replicate count (.part .statement)) trees tokens := by
  obtain ⟨kind, children, span⟩ := tree
  obtain ⟨hcategory, items, production, hfills⟩ := h
  cases production <;> simp only [NodeKind.category, reduceCtorEq] at hcategory
  exact ⟨children, span, rfl, _, hfills⟩

/-- A program is a block with nothing around it. -/
theorem program (h : Derives .program tree tokens) :
    ∃ content span, tree = ⟨.program, [content], span⟩ ∧ Derives .block content tokens := by
  obtain ⟨kind, children, span⟩ := tree
  obtain ⟨hcategory, items, production, hfills⟩ := h
  cases production <;> simp only [NodeKind.category, reduceCtorEq] at hcategory
  obtain ⟨content, rfl, hcontent⟩ := fills_lastTree_iff.mp hfills
  exact ⟨content, span, rfl, hcontent⟩

/-- A condition in parentheses, a branch, and perhaps `else` with another one. -/
theorem conditional (h : Derives .conditional tree tokens) :
    ∃ start left test front right branch middle span back,
      start.kind = .ifKeyword ∧ left.kind = .leftParen ∧ right.kind = .rightParen ∧
      tokens = start :: left :: (front ++ right :: (middle ++ back)) ∧
      Derives .expression test front ∧ Derives .statement branch middle ∧
      ((tree = ⟨.conditional, [test, branch], span⟩ ∧ back = []) ∨
        ∃ middle' other otherwise, other.kind = .elseKeyword ∧ back = other :: middle' ∧
          Derives .statement otherwise middle' ∧
          tree = ⟨.conditional, [test, branch, otherwise], span⟩) := by
  obtain ⟨kind, children, span⟩ := tree
  obtain ⟨hcategory, items, production, hfills⟩ := h
  cases production <;> simp only [NodeKind.category, reduceCtorEq] at hcategory
  · simp only [fills_part_iff, fills_mark_iff, fills_nil_iff] at hfills
    obtain ⟨start, _, rfl, hstart, left, _, rfl, hleft, test, _, front, _, rfl, rfl, htest, right,
      _, rfl, hright, branch, _, middle, _, rfl, rfl, hbranch, rfl, rfl⟩ := hfills
    exact ⟨start, left, test, front, right, branch, middle, span, [], hstart, hleft, hright, rfl,
      htest, hbranch, .inl ⟨rfl, rfl⟩⟩
  · simp only [fills_part_iff, fills_mark_iff, fills_nil_iff] at hfills
    obtain ⟨start, _, rfl, hstart, left, _, rfl, hleft, test, _, front, _, rfl, rfl, htest, right,
      _, rfl, hright, branch, _, middle, _, rfl, rfl, hbranch, other, _, rfl, hother, otherwise, _,
      middle', _, rfl, rfl, hotherwise, rfl, rfl⟩ := hfills
    exact ⟨start, left, test, front, right, branch, middle, span, _, hstart, hleft, hright, rfl,
      htest, hbranch, .inr ⟨middle', other, otherwise, hother, by simp, hotherwise, rfl⟩⟩

theorem whileLoop (h : Derives .whileLoop tree tokens) :
    ∃ start left test front right body back span,
      start.kind = .whileKeyword ∧ left.kind = .leftParen ∧ right.kind = .rightParen ∧
      tokens = start :: left :: (front ++ right :: back) ∧
      Derives .expression test front ∧ Derives .statement body back ∧
      tree = ⟨.whileLoop, [test, body], span⟩ := by
  obtain ⟨kind, children, span⟩ := tree
  obtain ⟨hcategory, items, production, hfills⟩ := h
  cases production <;> simp only [NodeKind.category, reduceCtorEq] at hcategory
  simp only [fills_part_iff, fills_mark_iff, fills_nil_iff] at hfills
  obtain ⟨start, _, rfl, hstart, left, _, rfl, hleft, test, _, front, _, rfl, rfl, htest, right, _,
    rfl, hright, body, _, back, _, rfl, rfl, hbody, rfl, rfl⟩ := hfills
  exact ⟨start, left, test, front, right, body, back, span, hstart, hleft, hright, by simp, htest,
    hbody, rfl⟩

/-- An assignment, a condition and an assignment between semicolons, then the body. -/
theorem forLoop (h : Derives .forLoop tree tokens) :
    ∃ start left first front mark test middle mark' step middle' right body back span,
      start.kind = .forKeyword ∧ left.kind = .leftParen ∧ mark.kind = .semicolon ∧
      mark'.kind = .semicolon ∧ right.kind = .rightParen ∧
      tokens = start :: left ::
        (front ++ mark :: (middle ++ mark' :: (middle' ++ right :: back))) ∧
      Derives .assignment first front ∧ Derives .expression test middle ∧
      Derives .assignment step middle' ∧ Derives .statement body back ∧
      tree = ⟨.forLoop, [first, test, step, body], span⟩ := by
  obtain ⟨kind, children, span⟩ := tree
  obtain ⟨hcategory, items, production, hfills⟩ := h
  cases production <;> simp only [NodeKind.category, reduceCtorEq] at hcategory
  simp only [fills_part_iff, fills_mark_iff, fills_nil_iff] at hfills
  obtain ⟨start, _, rfl, hstart, left, _, rfl, hleft, first, _, front, _, rfl, rfl, hfirst, mark,
    _, rfl, hmark, test, _, middle, _, rfl, rfl, htest, mark', _, rfl, hmark', step, _, middle', _,
    rfl, rfl, hstep, right, _, rfl, hright, body, _, back, _, rfl, rfl, hbody, rfl, rfl⟩ := hfills
  exact ⟨start, left, first, front, mark, test, middle, mark', step, middle', right, body, back,
    span, hstart, hleft, hmark, hmark', hright, by simp, hfirst, htest, hstep, hbody, rfl⟩

/-- A declaration and the name of a list with a colon in between, then the body. -/
theorem foreachLoop (h : Derives .foreachLoop tree tokens) :
    ∃ start left element front colon array middle right body back span,
      start.kind = .foreachKeyword ∧ left.kind = .leftParen ∧ colon.kind = .colon ∧
      right.kind = .rightParen ∧
      tokens = start :: left :: (front ++ colon :: (middle ++ right :: back)) ∧
      Derives .scalarDeclaration element front ∧ Derives .identifier array middle ∧
      Derives .statement body back ∧ tree = ⟨.foreachLoop, [element, array, body], span⟩ := by
  obtain ⟨kind, children, span⟩ := tree
  obtain ⟨hcategory, items, production, hfills⟩ := h
  cases production <;> simp only [NodeKind.category, reduceCtorEq] at hcategory
  simp only [fills_part_iff, fills_mark_iff, fills_nil_iff] at hfills
  obtain ⟨start, _, rfl, hstart, left, _, rfl, hleft, element, _, front, _, rfl, rfl, helement,
    colon, _, rfl, hcolon, array, _, middle, _, rfl, rfl, harray, right, _, rfl, hright, body, _,
    back, _, rfl, rfl, hbody, rfl, rfl⟩ := hfills
  exact ⟨start, left, element, front, colon, array, middle, right, body, back, span, hstart, hleft,
    hcolon, hright, by simp, helement, harray, hbody, rfl⟩

/-- Declarations and assignments have a semicolon behind them, blocks have braces around them, and
the other constructs have nothing. -/
theorem statement (h : Derives .statement tree tokens) :
    ∃ content span, tree = ⟨.statement, [content], span⟩ ∧
      ((∃ category ∈ [Category.declaration, .assignment], ∃ front last, last.kind = .semicolon ∧
          tokens = front ++ [last] ∧ Derives category content front) ∨
        (∃ category ∈ [Category.conditional, .whileLoop, .forLoop, .foreachLoop],
          Derives category content tokens) ∨
        ∃ left inside right, left.kind = .leftBrace ∧ right.kind = .rightBrace ∧
          tokens = left :: (inside ++ [right]) ∧ Derives .block content inside) := by
  obtain ⟨kind, children, span⟩ := tree
  obtain ⟨hcategory, items, production, hfills⟩ := h
  cases production <;> simp only [NodeKind.category, reduceCtorEq] at hcategory
  · next category hmem =>
    simp only [fills_part_iff, fills_mark_iff, fills_nil_iff] at hfills
    obtain ⟨content, _, front, _, rfl, rfl, hcontent, last, _, rfl, hlast, rfl, rfl⟩ := hfills
    exact ⟨content, span, rfl, .inl ⟨category, hmem, front, last, hlast, rfl, hcontent⟩⟩
  · next category hmem =>
    obtain ⟨content, rfl, hcontent⟩ := fills_lastTree_iff.mp hfills
    exact ⟨content, span, rfl, .inr (.inl ⟨category, hmem, hcontent⟩)⟩
  · simp only [fills_part_iff, fills_mark_iff, fills_nil_iff] at hfills
    obtain ⟨left, _, rfl, hleft, content, _, inside, _, rfl, rfl, hcontent, right, _, rfl, hright,
      rfl, rfl⟩ := hfills
    exact ⟨content, span, rfl, .inr (.inr ⟨left, inside, right, hleft, hright, rfl, hcontent⟩)⟩

/-! ## First tokens -/

/-- With these tokens a value may start. -/
theorem value_head (h : Derives .value tree tokens) :
    ∃ token others, tokens = token :: others ∧
      token.kind ∈ [TokenKind.identifier, .integer, .trueKeyword, .falseKeyword, .leftParen] := by
  obtain ⟨content, -, -, ⟨category, hmem, hcontent⟩ | ⟨left, inside, right, hleft, -, rfl, -⟩⟩ :=
    h.value
  · simp only [List.mem_cons, List.not_mem_nil, or_false] at hmem
    rcases hmem with rfl | rfl | rfl
    · obtain ⟨token, -, hkind, rfl, -⟩ := hcontent.identifier
      exact ⟨token, [], rfl, by simp [hkind]⟩
    · obtain ⟨token, -, hkind, rfl, -⟩ := hcontent.integer
      exact ⟨token, [], rfl, by simp [hkind]⟩
    · obtain ⟨truth, token, -, hkind, rfl, -⟩ := hcontent.boolean
      exact ⟨token, [], rfl, by cases truth <;> simp [hkind]⟩
  · exact ⟨left, inside ++ [right], rfl, by simp [hleft]⟩

/-- A negation starts with an operator or with a value. -/
theorem negation_head (h : Derives .negation tree tokens) :
    ∃ token others, tokens = token :: others ∧
      token.kind ∈
        [TokenKind.bang, .identifier, .integer, .trueKeyword, .falseKeyword, .leftParen] := by
  obtain ⟨run, content, -, inside, hrun, -, rfl, hcontent⟩ := h.negation
  cases run with
  | nil =>
    obtain ⟨token, others, rfl, hkind⟩ := hcontent.value_head
    exact ⟨token, others, rfl, List.mem_cons_of_mem _ hkind⟩
  | cons token run =>
    have hkind := hrun token List.mem_cons_self
    exact ⟨token, run ++ inside, rfl, by simp_all⟩

theorem declaration_head (h : Derives .declaration tree tokens) :
    ∃ token others, tokens = token :: others ∧
      token.kind ∈ TokenKind.scalarKeywords ++ TokenKind.listKeywords := by
  obtain ⟨content, -, -, hcontent | hcontent⟩ := h.declaration
  · obtain ⟨keyword, -, -, inside, hkind, -, rfl, -⟩ := hcontent.scalarDeclaration
    exact ⟨keyword, inside, rfl, List.mem_append_left _ hkind⟩
  · obtain ⟨keyword, -, -, inside, hkind, -, rfl, -⟩ := hcontent.listDeclaration
    exact ⟨keyword, inside, rfl, List.mem_append_right _ hkind⟩

/-- An assignment starts with the name of a variable. -/
theorem assignment_head (h : Derives .assignment tree tokens) :
    ∃ token others, tokens = token :: others ∧ token.kind = .identifier := by
  obtain ⟨target, -, -, front, sign, back, -, -, rfl, htarget, -⟩ := h.assignment
  obtain ⟨token, -, hkind, rfl, -⟩ := htarget.identifier
  exact ⟨token, sign :: back, rfl, hkind⟩

/-- No statement starts with a closing brace or an `else`. -/
theorem statement_head (h : Derives .statement tree tokens) :
    ∃ token others, tokens = token :: others ∧ token.kind ≠ .rightBrace ∧
      token.kind ≠ .elseKeyword := by
  obtain ⟨content, -, -, ⟨category, hmem, front, last, -, rfl, hcontent⟩ |
    ⟨category, hmem, hcontent⟩ | ⟨left, inside, right, hleft, -, rfl, -⟩⟩ := h.statement
  · simp only [List.mem_cons, List.not_mem_nil, or_false] at hmem
    rcases hmem with rfl | rfl
    · obtain ⟨token, others, rfl, hkind⟩ := hcontent.declaration_head
      refine ⟨token, others ++ [last], rfl, ?_⟩
      exact (by decide : ∀ kind ∈ TokenKind.scalarKeywords ++ TokenKind.listKeywords,
        kind ≠ .rightBrace ∧ kind ≠ .elseKeyword) _ hkind
    · obtain ⟨token, others, rfl, hkind⟩ := hcontent.assignment_head
      exact ⟨token, others ++ [last], rfl, by simp [hkind]⟩
  · simp only [List.mem_cons, List.not_mem_nil, or_false] at hmem
    rcases hmem with rfl | rfl | rfl | rfl
    · obtain ⟨start, -, -, -, -, -, -, -, -, hkind, -, -, rfl, -⟩ := hcontent.conditional
      exact ⟨start, _, rfl, by simp [hkind]⟩
    · obtain ⟨start, -, -, -, -, -, -, -, hkind, -, -, rfl, -⟩ := hcontent.whileLoop
      exact ⟨start, _, rfl, by simp [hkind]⟩
    · obtain ⟨start, -, -, -, -, -, -, -, -, -, -, -, -, -, hkind, -, -, -, -, rfl, -⟩ :=
        hcontent.forLoop
      exact ⟨start, _, rfl, by simp [hkind]⟩
    · obtain ⟨start, -, -, -, -, -, -, -, -, -, -, hkind, -, -, -, rfl, -⟩ := hcontent.foreachLoop
      exact ⟨start, _, rfl, by simp [hkind]⟩
  · exact ⟨left, inside ++ [right], rfl, by simp [hleft]⟩

end Derives

end Census
