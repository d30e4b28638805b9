import Census.Proofs.Grammar.Nesting
import Census.Proofs.Grammar.Print
import Census.Proofs.Parse.Readers

/-!
# Soundness of the parser

Whatever a reader answers is a derivation from the tokens it moved over. The invariant says the
rest of it: how deep the tree nests below the limit, that every `else` is with its nearest
conditional, and that the reader stopped before no `else` that it could have taken.

- `Parser.Reading`: the invariant of one answer.
- `Parser.Sound`: all answers of a reader keep it. There is a lemma for each reader, which only
  asks that the readers inside it are sound.
- `parse_ok`: the trees of whole programs.
-/

namespace Census

namespace Parser

/-- What holds of a tree that was read from `tokens` when `rest` is left. -/
structure Reading (category : Category) (levels : Nat) (tree : Node)
    (tokens rest : List Token) : Prop where
  derives : Derives category tree tokens
  nearestElse : tree.NearestElse
  nesting : tree.nesting < levels
  /-- A conditional that could take an `else` is not followed by one. -/
  closed : tree.endsOpen = true → ∀ token ∈ rest.head?, token.kind ≠ .elseKeyword

/-- What a construct asks of its parts. -/
theorem Reading.part {category : Category} {levels : Nat} {tree : Node} {tokens rest : List Token}
    (h : Reading category levels tree tokens rest) : tree.NearestElse ∧ tree.nesting < levels :=
  ⟨h.nearestElse, h.nesting⟩

/-- A construct that is neither a statement nor a value nor a conditional is read rightly if its
parts are. -/
theorem Reading.of_parts {kind : NodeKind} {items : List Item} {children : List Node} {span : Span}
    {tokens rest : List Token} {levels : Nat}
    (hkind : kind.category ∉ [.statement, .value, .conditional])
    (production : Production kind items) (hfills : Fills items children tokens)
    (hparts : ∀ child ∈ children, child.NearestElse ∧ child.nesting < levels + 1)
    (hclosed : Node.endsOpen ⟨kind, children, span⟩ = true →
      ∀ token ∈ rest.head?, token.kind ≠ .elseKeyword) :
    Reading kind.category (levels + 1) ⟨kind, children, span⟩ tokens rest where
  derives := ⟨rfl, items, production, hfills⟩
  nearestElse := by
    rw [Node.nearestElse_iff_children (by rintro rfl; exact hkind (by decide))]
    exact fun child hchild => (hparts child hchild).1
  nesting := by
    rw [Nat.lt_succ_iff, Node.nesting_le_iff (by rintro rfl; exact hkind (by decide))
      (by rintro rfl; exact hkind (by decide))]
    exact fun child hchild => Nat.le_of_lt_succ (hparts child hchild).2
  closed := hclosed

/-- The same for constructs that end in no statement. -/
theorem Reading.of_plain_parts {kind : NodeKind} {items : List Item} {children : List Node}
    {span : Span} {tokens rest : List Token} {levels : Nat}
    (hkind : kind.category ∉
      [.value, .statement, .conditional, .whileLoop, .forLoop, .foreachLoop])
    (production : Production kind items) (hfills : Fills items children tokens)
    (hparts : ∀ child ∈ children, child.NearestElse ∧ child.nesting < levels + 1) :
    Reading kind.category (levels + 1) ⟨kind, children, span⟩ tokens rest := by
  refine .of_parts (by simp_all) production hfills hparts fun hopen => ?_
  exact absurd (Node.category_of_endsOpen hopen) (by simp_all)

/-- Whatever the parser answers is a derivation of a construct of the category from the tokens it
read, and nests less than `levels` levels deep. -/
def Sound (parser : Parser Node) (category : Category) (levels : Nat) : Prop :=
  ∀ {cursor tree cursor'}, Runs parser cursor tree cursor' →
    ∃ tokens, cursor.Advances tokens cursor' ∧
      Reading category levels tree tokens cursor'.rest

variable {levels : Nat} {inner operand statement expression : Parser Node}

/-- Where no level is left nothing is answered, so nothing has to be shown. -/
theorem refuseNesting_sound (category : Category) (levels : Nat) :
    Sound refuseNesting category levels := by
  intro cursor tree cursor' h
  exact absurd h not_runs_refuseNesting

/-! ## Expressions -/

/-- An identifier is derived from its token at any level. -/
theorem identifier_sound (levels : Nat) : Sound identifier .identifier (levels + 1) := by
  intro cursor tree cursor' h
  obtain ⟨token, hkind, hone, rfl⟩ := runs_identifier.mp h
  refine ⟨[token], hone, ?_⟩
  exact .of_plain_parts (by simp [NodeKind.category]) (.identifier _) (.word hkind rfl .nil)
    (by simp)

/-- A token that is a value on its own is a derivation of its leaf. -/
theorem derives_leaf {token : Token} {kind : NodeKind} (h : token.leaf? = some kind) :
    kind.category ∈ [.identifier, .integer, .boolean] ∧
      Derives kind.category (literal kind token) [token] := by
  unfold Token.leaf? at h
  split at h <;> cases h
  · next hkind => exact ⟨by simp [NodeKind.category], rfl, _, .identifier _, .word hkind rfl .nil⟩
  · next hkind => exact ⟨by simp [NodeKind.category], rfl, _, .integer _, .word hkind rfl .nil⟩
  · next hkind => exact ⟨by decide, rfl, _, .boolean true, .mark hkind .nil⟩
  · next hkind => exact ⟨by decide, rfl, _, .boolean false, .mark hkind .nil⟩

/-- Only parentheses take a level, so the expression between them has one less. -/
theorem value_sound (hinner : Sound inner .expression levels) :
    Sound (value inner) .value (levels + 1) := by
  intro cursor tree cursor' h
  obtain ⟨token, between, hone, h⟩ := runs_value.mp h
  rcases h with ⟨kind, hleaf, rfl, rfl⟩ |
    ⟨hkind, content, inside, close, hcontent, hclose, hlast, rfl⟩
  · obtain ⟨hcategory, hderives⟩ := derives_leaf hleaf
    -- a leaf neither nests nor branches
    have hs : kind ≠ .statement := by rintro rfl; exact absurd hcategory (by decide)
    have he : kind ≠ .expression := by rintro rfl; exact absurd hcategory (by decide)
    have hc : kind ≠ .conditional := by rintro rfl; exact absurd hcategory (by decide)
    refine ⟨[token], hone, ⟨rfl, _, .plain hcategory, .lastTree hderives⟩, ?_, ?_, nofun⟩
    · simp [Node.nearestElse_mk_iff, literal, hc]
    · rw [literal, Node.nesting_literal hs he]
      exact Nat.succ_pos levels
  · obtain ⟨tokens, hmoved, hreading⟩ := hinner hcontent
    refine ⟨token :: (tokens ++ [close]), hone.cons (hmoved.trans hlast), ?_, ?_, ?_, nofun⟩
    · exact ⟨rfl, _, .parentheses,
        .mark hkind (.tree hreading.derives (.mark hclose .nil))⟩
    · simpa [Node.nearestElse_mk_iff] using hreading.nearestElse
    · rw [Node.nesting_parentheses hreading.derives.1]
      exact Nat.succ_lt_succ hreading.nesting

/-- Tokens fill a row of words with their own kinds and texts. -/
theorem fills_stacked (run : List Token) :
    Fills (Operators.stacked (run.map Token.content)) [] run := by
  induction run with
  | nil => exact .nil
  | cons token others ih => exact .word rfl rfl ih

/-- The production has a word for each operator that was read and a part behind them. -/
theorem stacked_sound {kinds : List TokenKind} {kind : List String → NodeKind}
    {category category' : Category}
    (production : ∀ {operators : Operators}, operators.Among kinds →
      Production (kind operators.texts) (operators.stacked ++ [.part category']))
    (hcategory : ∀ texts, (kind texts).category = category)
    (hkind : category ∉ [.value, .statement, .conditional, .whileLoop, .forLoop, .foreachLoop])
    (hoperand : Sound operand category' (levels + 1)) :
    Sound (stacked kinds kind operand) category (levels + 1) := by
  intro cursor tree cursor' h
  obtain ⟨run, between, content, hrun, hamong, -, hcontent, rfl⟩ := runs_stacked.mp h
  obtain ⟨tokens, hmoved, hreading⟩ := hoperand hcontent
  have htexts : run.map Token.text = Operators.texts (run.map Token.content) := by
    simp [Operators.texts, Token.content]
  have hoperators : Operators.Among (run.map Token.content) kinds := by
    simpa [Operators.Among, Token.content] using hamong
  refine ⟨run ++ tokens, hrun.trans hmoved, ?_⟩
  rw [htexts, ← hcategory (Operators.texts (run.map Token.content))] at *
  exact .of_plain_parts hkind (production hoperators)
    ((fills_stacked run).append (.lastTree hreading.derives))
    (List.forall_mem_singleton.mpr hreading.part)

/-- The operands behind operators, in a row. -/
theorem links_sound {kinds : List TokenKind} {category : Category}
    (hoperand : Sound operand category (levels + 1)) (fuel : Nat) {cursor cursor' : Cursor}
    {pairs : List (String × Node)} (h : Runs (links kinds operand fuel) cursor pairs cursor') :
    ∃ (operators : Operators) (tokens : List Token), cursor.Advances tokens cursor' ∧
      operators.Among kinds ∧ pairs.map Prod.fst = operators.texts ∧
      Fills (operators.links category) (pairs.map Prod.snd) tokens ∧
      ∀ child ∈ pairs.map Prod.snd, child.NearestElse ∧ child.nesting < levels + 1 := by
  -- on the fuel, which only says how many links may come
  induction fuel generalizing cursor pairs with
  | zero =>
    obtain ⟨rfl, rfl⟩ := runs_links_zero.mp h
    exact ⟨[], [], .refl _, by simp [Operators.Among], rfl, .nil, by simp⟩
  | succ fuel ih =>
    rcases runs_links_succ.mp h with ⟨-, rfl, rfl⟩ |
      ⟨operator, between, content, between', others, hkind, hone, hcontent, hothers, rfl⟩
    · exact ⟨[], [], .refl _, by simp [Operators.Among], rfl, .nil, by simp⟩
    · obtain ⟨tokens, hmoved, hreading⟩ := hoperand hcontent
      obtain ⟨operators, tokens', hmoved', hamong, htexts, hfills, hparts⟩ := ih hothers
      refine ⟨operator.content :: operators, operator :: (tokens ++ tokens'),
        hone.cons (hmoved.trans hmoved'), ?_, ?_, ?_, ?_⟩
      · exact List.forall_mem_cons.mpr ⟨hkind, hamong⟩
      · exact congrArg (operator.text :: ·) htexts
      · exact .word rfl rfl (.tree (hreading.derives : Derives category content tokens) hfills)
      · exact List.forall_mem_cons.mpr ⟨hreading.part, hparts⟩

/-- The production starts with a part and has a word and a part for each link that was read. -/
theorem chain_sound {kinds : List TokenKind} {kind : List String → NodeKind}
    {category category' : Category}
    (production : ∀ {operators : Operators}, operators.Among kinds →
      Production (kind operators.texts) (.part category' :: operators.links category'))
    (hcategory : ∀ texts, (kind texts).category = category)
    (hkind : category ∉ [.value, .statement, .conditional, .whileLoop, .forLoop, .foreachLoop])
    (hoperand : Sound operand category' (levels + 1)) :
    Sound (chain kinds kind operand) category (levels + 1) := by
  intro cursor tree cursor' h
  obtain ⟨first, between, others, hfirst, hothers, rfl⟩ := runs_chain.mp h
  obtain ⟨tokens, hmoved, hreading⟩ := hoperand hfirst
  obtain ⟨operators, tokens', hmoved', hamong, htexts, hfills, hparts⟩ :=
    links_sound hoperand _ hothers
  refine ⟨tokens ++ tokens', hmoved.trans hmoved', ?_⟩
  rw [htexts, ← hcategory operators.texts] at *
  exact .of_plain_parts hkind (production hamong) (.tree hreading.derives hfills)
    (List.forall_mem_cons.mpr ⟨hreading.part, hparts⟩)

/-- There are two productions, one for a lone operand and one for two. -/
theorem comparison_sound (hoperand : Sound operand .sum (levels + 1)) :
    Sound (comparison operand) .comparison (levels + 1) := by
  intro cursor tree cursor' h
  obtain ⟨left, between, hleft, h⟩ := runs_comparison.mp h
  obtain ⟨tokens, hmoved, hreading⟩ := hoperand hleft
  rcases h with ⟨-, rfl, rfl⟩ | ⟨operator, between', right, hkind, hone, hright, rfl⟩
  · refine ⟨tokens, hmoved, ?_⟩
    exact .of_plain_parts (by simp [NodeKind.category]) .operand (.lastTree hreading.derives)
      (List.forall_mem_singleton.mpr hreading.part)
  · obtain ⟨tokens', hmoved', hreading'⟩ := hoperand hright
    refine ⟨tokens ++ (operator :: tokens'), hmoved.trans (hone.cons hmoved'), ?_⟩
    exact .of_plain_parts (by simp [NodeKind.category]) (.comparison hkind)
      (.tree hreading.derives (.word rfl rfl (.lastTree hreading'.derives)))
      (List.forall_mem_cons.mpr ⟨hreading.part, List.forall_mem_singleton.mpr hreading'.part⟩)

/-! The ladder of levels: each is sound because the one below it is. -/

/-- Each level of operators is sound over the one below it. -/
theorem negation_sound (hinner : Sound inner .expression levels) :
    Sound (negation inner) .negation (levels + 1) :=
  stacked_sound .negation (fun _ => rfl) (by decide) (value_sound hinner)

theorem signed_sound (hinner : Sound inner .expression levels) :
    Sound (signed inner) .signed (levels + 1) :=
  stacked_sound .signed (fun _ => rfl) (by decide) (negation_sound hinner)

theorem product_sound (hinner : Sound inner .expression levels) :
    Sound (product inner) .product (levels + 1) :=
  chain_sound .product (fun _ => rfl) (by decide) (signed_sound hinner)

theorem sum_sound (hinner : Sound inner .expression levels) :
    Sound (sum inner) .sum (levels + 1) :=
  chain_sound .sum (fun _ => rfl) (by decide) (product_sound hinner)

theorem logical_sound (hinner : Sound inner .expression levels) :
    Sound (logical inner) .logical (levels + 1) :=
  chain_sound .logical (fun _ => rfl) (by decide) (comparison_sound (sum_sound hinner))

/-- An expression adds a node to the top of the ladder. -/
theorem expressionOver_sound (hinner : Sound inner .expression levels) :
    Sound (expressionOver inner) .expression (levels + 1) := by
  intro cursor tree cursor' h
  obtain ⟨content, hcontent, rfl⟩ := runs_expressionOver.mp h
  obtain ⟨tokens, hmoved, hreading⟩ := logical_sound hinner hcontent
  refine ⟨tokens, hmoved, ?_⟩
  exact .of_plain_parts (by simp [NodeKind.category]) .expression (.lastTree hreading.derives)
    (List.forall_mem_singleton.mpr hreading.part)

/-- By induction on the levels: between parentheses the reader with one level less is sound. -/
theorem expression_sound (levels : Nat) :
    Sound (Parser.expression levels) .expression (levels + 1) := by
  induction levels with
  | zero => exact expressionOver_sound (refuseNesting_sound _ _)
  | succ levels ih => exact expressionOver_sound ih

/-! ## Declarations and assignments -/

/-- The keyword was read before, so its token is the first of the declaration. -/
theorem declared_sound {kind : String → NodeKind} {keyword : Token}
    {cursor between cursor' : Cursor} {tree : Node}
    (production : Production (kind keyword.text)
      [.word keyword.kind keyword.text, .part .identifier])
    (hkind : (kind keyword.text).category ∉
      [.value, .statement, .conditional, .whileLoop, .forLoop, .foreachLoop])
    (hone : cursor.Advances [keyword] between)
    (h : Runs (declared kind keyword) between tree cursor') :
    ∃ tokens, cursor.Advances tokens cursor' ∧
      Reading (kind keyword.text).category (levels + 1) tree tokens cursor'.rest := by
  obtain ⟨target, htarget, rfl⟩ := runs_declared.mp h
  obtain ⟨tokens, hmoved, hreading⟩ := identifier_sound levels htarget
  refine ⟨keyword :: tokens, hone.cons hmoved, ?_⟩
  exact .of_plain_parts hkind production (.word rfl rfl (.lastTree hreading.derives))
    (List.forall_mem_singleton.mpr hreading.part)

theorem scalarDeclaration_sound (levels : Nat) :
    Sound scalarDeclaration .scalarDeclaration (levels + 1) := by
  intro cursor tree cursor' h
  obtain ⟨keyword, between, hkind, hone, h⟩ := runs_scalarDeclaration.mp h
  exact declared_sound (.scalarDeclaration hkind) (by simp [NodeKind.category]) hone h

theorem declaration_sound (levels : Nat) : Sound declaration .declaration (levels + 1) := by
  intro cursor tree cursor' h
  obtain ⟨content, hcontent, rfl⟩ := runs_declaration.mp h
  -- both kinds of declarations make one part, only its category differs
  obtain ⟨category, hcategory, tokens, hmoved, hreading⟩ :
      ∃ category ∈ [Category.scalarDeclaration, .listDeclaration],
        ∃ tokens, cursor.Advances tokens cursor' ∧
          Reading category (levels + 1) content tokens cursor'.rest := by
    rcases hcontent with ⟨-, h⟩ | ⟨keyword, between, hkind, hone, h⟩
    · exact ⟨_, by simp, scalarDeclaration_sound levels h⟩
    · exact ⟨_, by simp [NodeKind.category], declared_sound (.listDeclaration hkind)
        (by simp [NodeKind.category]) hone h⟩
  refine ⟨tokens, hmoved, ?_⟩
  exact .of_plain_parts (by simp [NodeKind.category]) (.declaration hcategory)
    (.lastTree hreading.derives)
    (List.forall_mem_singleton.mpr hreading.part)

/-- An assignment cannot end in an open conditional, whatever follows. -/
theorem assignment_sound (hexpression : Sound expression .expression (levels + 1)) :
    Sound (assignment expression) .assignment (levels + 1) := by
  intro cursor tree cursor' h
  obtain ⟨target, named, sign, signed, content, htarget, hsign, hone, hcontent, rfl⟩ :=
    runs_assignment.mp h
  obtain ⟨tokens, hmoved, hreading⟩ := identifier_sound levels htarget
  obtain ⟨tokens', hmoved', hreading'⟩ := hexpression hcontent
  refine ⟨tokens ++ (sign :: tokens'), hmoved.trans (hone.cons hmoved'), ?_⟩
  exact .of_plain_parts (by simp [NodeKind.category]) .assignment
    (.tree hreading.derives (.mark hsign (.lastTree hreading'.derives)))
    (List.forall_mem_cons.mpr ⟨hreading.part, List.forall_mem_singleton.mpr hreading'.part⟩)

/-! ## Statements -/

/-- By induction on the fuel. A conditional in the row has the statement behind it in front of the
next `else`. -/
theorem statements_sound (hstatement : Sound statement .statement (levels + 1)) (fuel : Nat)
    {cursor cursor' : Cursor} {trees : List Node}
    (h : Runs (statements statement fuel) cursor trees cursor') :
    ∃ tokens, cursor.Advances tokens cursor' ∧
      Fills (List.replicate trees.length (.part .statement)) trees tokens ∧
      ∀ tree ∈ trees, tree.NearestElse ∧ tree.nesting < levels + 1 := by
  -- as for links
  induction fuel generalizing cursor trees with
  | zero =>
    obtain ⟨rfl, rfl⟩ := runs_statements_zero.mp h
    exact ⟨[], .refl _, .nil, by simp⟩
  | succ fuel ih =>
    rcases runs_statements_succ.mp h with ⟨-, rfl, rfl⟩ |
      ⟨-, first, between, others, hfirst, hothers, rfl⟩
    · exact ⟨[], .refl _, .nil, by simp⟩
    · obtain ⟨tokens, hmoved, hreading⟩ := hstatement hfirst
      obtain ⟨tokens', hmoved', hfills, hparts⟩ := ih hothers
      exact ⟨tokens ++ tokens', hmoved.trans hmoved', .tree hreading.derives hfills,
        List.forall_mem_cons.mpr ⟨hreading.part, hparts⟩⟩

/-- A block may have any number of statements. -/
theorem block_sound (hstatement : Sound statement .statement (levels + 1)) :
    Sound (block statement) .block (levels + 1) := by
  intro cursor tree cursor' h
  obtain ⟨parts, hparts, rfl⟩ := runs_block.mp h
  obtain ⟨tokens, hmoved, hfills, hgood⟩ := statements_sound hstatement _ hparts
  exact ⟨tokens, hmoved,
    .of_plain_parts (by simp [NodeKind.category]) (.block _) hfills hgood⟩

/-- A condition fills its parentheses, whatever comes behind them. -/
theorem condition_sound (hexpression : Sound expression .expression (levels + 1))
    {cursor cursor' : Cursor} {tree : Node}
    (h : Runs (condition expression) cursor tree cursor') :
    ∃ tokens, cursor.Advances tokens cursor' ∧
      (∀ {items trees back}, Fills items trees back →
        Fills (.mark .leftParen :: .part .expression :: .mark .rightParen :: items) (tree :: trees)
          (tokens ++ back)) ∧
      tree.NearestElse ∧ tree.nesting < levels + 1 := by
  obtain ⟨left, opened, inside, right, hleft, hfirst, hcontent, hright, hlast⟩ :=
    runs_condition.mp h
  obtain ⟨tokens, hmoved, hreading⟩ := hexpression hcontent
  refine ⟨left :: (tokens ++ [right]), hfirst.cons (hmoved.trans hlast), ?_,
    hreading.nearestElse, hreading.nesting⟩
  intro items trees back hback
  rw [List.cons_append, List.append_assoc]
  exact .mark hleft (.tree hreading.derives (.mark hright hback))

/-- Behind a branch the reader has looked for `else`, so it either took it or there is none. -/
theorem conditional_sound (hstatement : Sound statement .statement (levels + 1))
    (hexpression : Sound expression .expression (levels + 1)) :
    Sound (conditional statement expression) .conditional (levels + 1) := by
  intro cursor tree cursor' h
  obtain ⟨start, started, test, tested, branch, branched, hstart, hone, htest, hbranch, h⟩ :=
    runs_conditional.mp h
  obtain ⟨tokens, hmoved, hfills, hnearest, hnesting⟩ := condition_sound hexpression htest
  obtain ⟨tokens', hmoved', hreading⟩ := hstatement hbranch
  rcases h with ⟨hnext, rfl, rfl⟩ | ⟨other, between, otherwise, hother, hone', hotherwise, rfl⟩
  · refine ⟨_, hone.cons (hmoved.trans hmoved'), ⟨rfl, _, .conditional, ?_⟩, ?_, ?_, fun _ => hnext⟩
    · exact .mark hstart (hfills (.lastTree hreading.derives))
    · simp [Node.nearestElse_mk_iff, hnearest, hreading.nearestElse]
    · rw [Nat.lt_succ_iff, Node.nesting_le_iff (by decide) (by decide)]
      simp [Nat.le_of_lt_succ, hnesting, hreading.nesting]
  · obtain ⟨tokens'', hmoved'', hreading'⟩ := hstatement hotherwise
    -- the branch did not take the `else`, so it does not wait for one
    have hclosed : branch.endsOpen = false := Bool.eq_false_iff.mpr fun hopen =>
      hreading.closed hopen other (by simp [hone'.rest]) hother
    refine ⟨_, hone.cons (hmoved.trans (hmoved'.trans (hone'.cons hmoved''))),
      ⟨rfl, _, .alternative, ?_⟩, ?_, ?_, hreading'.closed⟩
    · exact .mark hstart (hfills (.tree hreading.derives
        (.mark hother (.lastTree hreading'.derives))))
    · simp [Node.nearestElse_mk_iff, hnearest, hreading.nearestElse, hreading'.nearestElse, hclosed]
    · rw [Nat.lt_succ_iff, Node.nesting_le_iff (by decide) (by decide)]
      simp [Nat.le_of_lt_succ, hnesting, hreading.nesting, hreading'.nesting]

/-- A loop can end in an open conditional, and is then closed off as its body is. -/
theorem whileLoop_sound (hstatement : Sound statement .statement (levels + 1))
    (hexpression : Sound expression .expression (levels + 1)) :
    Sound (whileLoop statement expression) .whileLoop (levels + 1) := by
  intro cursor tree cursor' h
  obtain ⟨start, started, test, tested, body, hstart, hone, htest, hbody, rfl⟩ :=
    runs_whileLoop.mp h
  obtain ⟨tokens, hmoved, hfills, hnearest, hnesting⟩ := condition_sound hexpression htest
  obtain ⟨tokens', hmoved', hreading⟩ := hstatement hbody
  refine ⟨start :: (tokens ++ tokens'), hone.cons (hmoved.trans hmoved'), ?_⟩
  exact .of_parts (by simp [NodeKind.category]) .whileLoop
    (.mark hstart (hfills (.lastTree hreading.derives)))
    (List.forall_mem_cons.mpr ⟨⟨hnearest, hnesting⟩, List.forall_mem_singleton.mpr hreading.part⟩)
    hreading.closed

theorem forLoop_sound (hstatement : Sound statement .statement (levels + 1))
    (hexpression : Sound expression .expression (levels + 1)) :
    Sound (forLoop statement expression) .forLoop (levels + 1) := by
  intro cursor tree cursor' h
  obtain ⟨start, c₁, left, c₂, first, c₃, mark, c₄, test, c₅, mark', c₆, step, c₇, right, c₈, body,
    hstart, hone, hleft, htwo, hfirst, hmark, hthree, htest, hmark', hfour, hstep, hright, hfive,
    hbody, rfl⟩ := runs_forLoop.mp h
  obtain ⟨tokens₁, hmoved₁, hreading₁⟩ := assignment_sound hexpression hfirst
  obtain ⟨tokens₂, hmoved₂, hreading₂⟩ := hexpression htest
  obtain ⟨tokens₃, hmoved₃, hreading₃⟩ := assignment_sound hexpression hstep
  obtain ⟨tokens₄, hmoved₄, hreading₄⟩ := hstatement hbody
  refine ⟨start :: left :: (tokens₁ ++ mark :: (tokens₂ ++ mark' :: (tokens₃ ++ right :: tokens₄))),
    hone.cons (htwo.cons (hmoved₁.trans (hthree.cons (hmoved₂.trans (hfour.cons
      (hmoved₃.trans (hfive.cons hmoved₄))))))), ?_⟩
  refine .of_parts (by simp [NodeKind.category]) .forLoop ?_ ?_ hreading₄.closed
  · exact .mark hstart (.mark hleft (.tree hreading₁.derives (.mark hmark
      (.tree hreading₂.derives (.mark hmark' (.tree hreading₃.derives (.mark hright
        (.lastTree hreading₄.derives))))))))
  · rw [List.forall_mem_cons, List.forall_mem_cons, List.forall_mem_cons,
      List.forall_mem_singleton]
    exact ⟨hreading₁.part, hreading₂.part, hreading₃.part, hreading₄.part⟩

/-- As for the other loops, what closes the loop off is its body. -/
theorem foreachLoop_sound (hstatement : Sound statement .statement (levels + 1)) :
    Sound (foreachLoop statement) .foreachLoop (levels + 1) := by
  intro cursor tree cursor' h
  obtain ⟨start, c₁, left, c₂, element, c₃, colon, c₄, array, c₅, right, c₆, body,
    hstart, hone, hleft, htwo, helement, hcolon, hthree, harray, hright, hfour, hbody, rfl⟩ :=
    runs_foreachLoop.mp h
  obtain ⟨tokens₁, hmoved₁, hreading₁⟩ := scalarDeclaration_sound levels helement
  obtain ⟨tokens₂, hmoved₂, hreading₂⟩ := identifier_sound levels harray
  obtain ⟨tokens₃, hmoved₃, hreading₃⟩ := hstatement hbody
  refine ⟨start :: left :: (tokens₁ ++ colon :: (tokens₂ ++ right :: tokens₃)),
    hone.cons (htwo.cons (hmoved₁.trans (hthree.cons (hmoved₂.trans (hfour.cons hmoved₃))))), ?_⟩
  refine .of_parts (by simp [NodeKind.category]) .foreachLoop ?_ ?_ hreading₃.closed
  · exact .mark hstart (.mark hleft (.tree hreading₁.derives (.mark hcolon
      (.tree hreading₂.derives (.mark hright (.lastTree hreading₃.derives))))))
  · rw [List.forall_mem_cons, List.forall_mem_cons, List.forall_mem_singleton]
    exact ⟨hreading₁.part, hreading₂.part, hreading₃.part⟩

/-- What holds of the construct in a statement and of the tokens around it. -/
structure Wrapped (levels : Nat) (content : Node) (tokens rest : List Token) : Prop where
  fills : ∃ items, Production .statement items ∧ Fills items [content] tokens
  nearestElse : content.NearestElse
  nesting : content.nesting < levels
  closed : content.endsOpen = true → ∀ token ∈ rest.head?, token.kind ≠ .elseKeyword

section Wrapped

variable {reader : Parser Node} {category : Category} {cursor cursor' : Cursor} {content : Node}

/-- Compound constructs stand on their own. -/
theorem wrapped_compound (hcategory : category ∈ [.conditional, .whileLoop, .forLoop, .foreachLoop])
    (hreader : Sound reader category levels) (h : Runs reader cursor content cursor') :
    ∃ tokens, cursor.Advances tokens cursor' ∧ Wrapped levels content tokens cursor'.rest := by
  obtain ⟨tokens, hmoved, hreading⟩ := hreader h
  exact ⟨tokens, hmoved, ⟨_, .compound hcategory, .lastTree hreading.derives⟩,
    hreading.nearestElse, hreading.nesting, hreading.closed⟩

/-- Simple constructs have a semicolon behind them. -/
theorem wrapped_simple (hcategory : category ∈ [.declaration, .assignment])
    (hreader : Sound reader category levels)
    (h : Runs (closed .semicolon reader) cursor content cursor') :
    ∃ tokens, cursor.Advances tokens cursor' ∧ Wrapped levels content tokens cursor'.rest := by
  obtain ⟨between, last, hcontent, hlast, hone⟩ := runs_closed.mp h
  obtain ⟨tokens, hmoved, hreading⟩ := hreader hcontent
  refine ⟨tokens ++ [last], hmoved.trans hone,
    ⟨_, .simple hcategory, .tree hreading.derives (.mark hlast .nil)⟩,
    hreading.nearestElse, hreading.nesting, fun hopen => ?_⟩
  -- declarations and assignments are not among what can end open
  have hends := Node.category_of_endsOpen hopen
  rw [hreading.derives.1] at hends
  simp only [List.mem_cons, List.not_mem_nil, or_false] at hcategory
  rcases hcategory with rfl | rfl <;> simp at hends

/-- Blocks have braces around them. -/
theorem wrapped_block (hstatement : Sound statement .statement (levels + 1)) {open' : Token}
    {between : Cursor} (hopen : open'.kind = .leftBrace) (hone : cursor.Advances [open'] between)
    (h : Runs (closed .rightBrace (block statement)) between content cursor') :
    ∃ tokens, cursor.Advances tokens cursor' ∧
      Wrapped (levels + 1) content tokens cursor'.rest := by
  obtain ⟨inside, last, hcontent, hlast, hone'⟩ := runs_closed.mp h
  obtain ⟨tokens, hmoved, hreading⟩ := block_sound hstatement hcontent
  refine ⟨open' :: (tokens ++ [last]), hone.cons (hmoved.trans hone'),
    ⟨_, .braces, .mark hopen (.tree hreading.derives (.mark hlast .nil))⟩,
    hreading.nearestElse, hreading.nesting, fun hopen => ?_⟩
  obtain ⟨parts, -, rfl⟩ := runs_block.mp hcontent
  cases hopen

end Wrapped

/-- The cases are the constructs, which come with or without a token that closes them. -/
theorem construct_sound (hstatement : Sound statement .statement (levels + 1))
    (hexpression : Sound expression .expression (levels + 1)) {kind? : Option TokenKind}
    {cursor cursor' : Cursor} {content : Node}
    (h : Runs (construct statement expression kind?) cursor content cursor') :
    ∃ tokens, cursor.Advances tokens cursor' ∧
      Wrapped (levels + 1) content tokens cursor'.rest := by
  -- one case for each first token a statement can have
  unfold construct at h
  split at h
  · exact wrapped_compound (by decide) (conditional_sound hstatement hexpression) h
  · exact wrapped_compound (by decide) (whileLoop_sound hstatement hexpression) h
  · exact wrapped_compound (by decide) (forLoop_sound hstatement hexpression) h
  · exact wrapped_compound (by decide) (foreachLoop_sound hstatement) h
  · obtain ⟨open', between, hopen, h⟩ := runs_bind.mp h
    obtain ⟨hkind, hone⟩ := runs_expect.mp hopen
    exact wrapped_block hstatement hkind hone h
  · exact wrapped_simple (by decide) (declaration_sound levels) h
  · exact wrapped_simple (by decide) (declaration_sound levels) h
  · exact wrapped_simple (by decide) (declaration_sound levels) h
  · exact wrapped_simple (by decide) (declaration_sound levels) h
  · exact wrapped_simple (by decide) (assignment_sound hexpression) h
  · exact absurd h not_runs_refuse

/-- A statement takes a level of its own. -/
theorem statementOver_sound (hstatement : Sound statement .statement (levels + 1))
    (hexpression : Sound expression .expression (levels + 1)) :
    Sound (statementOver statement expression) .statement (levels + 2) := by
  intro cursor tree cursor' h
  obtain ⟨content, hcontent, rfl⟩ := runs_statementOver.mp h
  obtain ⟨tokens, hmoved, hwrapped⟩ := construct_sound hstatement hexpression hcontent
  obtain ⟨items, production, hfills⟩ := hwrapped.fills
  refine ⟨tokens, hmoved, ⟨rfl, items, production, hfills⟩, ?_, ?_, hwrapped.closed⟩
  · simpa [Node.nearestElse_mk_iff] using hwrapped.nearestElse
  · rw [Node.nesting_statement]
    exact Nat.succ_lt_succ hwrapped.nesting

/-- By induction on the levels that statements are nested in. -/
theorem statement_sound (levels : Nat) :
    Sound (Parser.statement levels) .statement (levels + 1) := by
  induction levels with
  | zero => exact refuseNesting_sound _ _
  | succ levels ih => exact statementOver_sound ih (expression_sound levels)

end Parser

/-- Whatever the texts of the tokens are, the tree of a program is a derivation of a
program from exactly these tokens, every `else` stands as near as it can, and the limit on
nesting is kept. -/
theorem parse_ok {tokens : List Token} {tree : Node} (h : parse tokens = .ok tree) :
    Derives .program tree tokens ∧ tree.NearestElse ∧ tree.nesting ≤ nestingLimit := by
  obtain ⟨cursor', hrun⟩ := parse_eq_ok_iff.mp h
  obtain ⟨content, hcontent, hend, rfl⟩ := Parser.runs_program.mp hrun
  obtain ⟨read, hmoved, hreading⟩ := Parser.block_sound (Parser.statement_sound _) hcontent
  have hall : tokens = read := by simpa [Cursor.atStart, hend] using hmoved.rest
  subst hall
  refine ⟨⟨rfl, _, .program, .lastTree hreading.derives⟩, ?_, ?_⟩
  · simpa [Node.nearestElse_mk_iff] using hreading.nearestElse
  · rw [Node.nesting_le_iff (by decide) (by decide)]
    simpa using Nat.le_of_lt_succ hreading.nesting

/-- **Parser soundness**. The tree of a program whose texts are spellings of their kinds is a
derivation tree with every `else` at its nearest conditional and no more nesting than allowed, and
it prints exactly the tokens that were read. -/
theorem parse_sound {tokens : List Token} {tree : Node}
    (hspelled : ∀ token ∈ tokens, token.Spelled) (h : parse tokens = .ok tree) :
    tree.IsDerivation ∧ tree.NearestElse ∧ tree.nesting ≤ nestingLimit ∧
      tree.print = tokens.map Token.content := by
  obtain ⟨hderives, hnearest, hnesting⟩ := parse_ok h
  exact ⟨hderives.isDerivation hspelled, hnearest, hnesting, hderives.print hspelled⟩

/-- Two conditionals and one `else` make a program. -/
theorem parse_sound_dangling :
    let tokens := [.ifKeyword, .leftParen, .trueKeyword, .rightParen, .ifKeyword, .leftParen,
      .falseKeyword, .rightParen, .leftBrace, .rightBrace, .elseKeyword, .leftBrace,
      .rightBrace].map TokenKind.token
    ∃ tree, parse tokens = .ok tree ∧ tree.IsDerivation ∧ tree.NearestElse ∧
      tree.nesting ≤ nestingLimit ∧ tree.print = tokens.map Token.content :=
  ⟨_, rfl, parse_sound (TokenKind.spelled_token (by decide)) rfl⟩

end Census
