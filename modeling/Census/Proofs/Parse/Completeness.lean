import Census.Proofs.Grammar.Nesting
import Census.Proofs.Grammar.Print
import Census.Proofs.Grammar.Shapes
import Census.Proofs.Parse.Reads
import Census.Proofs.Parse.Soundness

/-!
# Completeness of the parser

In front of the tokens of a derivation, the reader of its construct reads all of them and builds
the derivation again, or refuses to nest any deeper; which of the two is a matter of the nesting
alone. A reader looks one token ahead, so what follows must not look like a continuation.

- `Node.EndsBefore`: the next token is no continuation of a construct.
- `Parser.Complete`: a reader is right about all derivations of a category. There is a lemma for
  each reader, which only asks that the readers inside it are complete.
- `parse_complete`: the tokens of whole programs.
-/

namespace Census

/-- The tokens with which a construct goes on behind what could be its end. -/
def Category.continuations : Category → List TokenKind
  | product => [.star, .slash, .percent]
  | sum => [.star, .slash, .percent, .plus, .minus]
  | comparison => [.star, .slash, .percent, .plus, .minus] ++ TokenKind.comparisons
  | logical => [.star, .slash, .percent, .plus, .minus] ++ TokenKind.comparisons
      ++ [.conjunction, .disjunction]
  | expression => [.star, .slash, .percent, .plus, .minus] ++ TokenKind.comparisons
      ++ [.conjunction, .disjunction]
  | assignment => [.star, .slash, .percent, .plus, .minus] ++ TokenKind.comparisons
      ++ [.conjunction, .disjunction]
  | _ => []

/-- The constructs that can end in a conditional without an `else`. -/
def Category.canEndOpen : List Category :=
  [.statement, .conditional, .whileLoop, .forLoop, .foreachLoop]

/-- The construct does not go on with the first of the tokens. -/
def Node.EndsBefore (tree : Node) (rest : List Token) : Prop :=
  ∀ token ∈ rest.head?, token.kind ∉ tree.category.continuations ∧
    (token.kind = .elseKeyword → tree.endsOpen = false)

namespace Node

variable {tree : Node} {rest : List Token}

/-- Nothing goes on with a token that closes something. -/
theorem endsBefore_closing {token : Token}
    (h : token.kind ∈ [TokenKind.rightParen, .rightBrace, .colon, .semicolon, .assign]) :
    tree.EndsBefore (token :: rest) := by
  have hclosing : ∀ kind ∈ [TokenKind.rightParen, .rightBrace, .colon, .semicolon, .assign],
      kind ∉ tree.category.continuations ∧ kind ≠ .elseKeyword := by
    cases tree.category <;> decide
  rintro _ ⟨⟩
  exact ⟨(hclosing _ h).1, fun helse => absurd helse (hclosing _ h).2⟩

/-- Only what can end open has to mind an `else` behind it. -/
theorem endsBefore_iff {category : Category} (hcategory : tree.kind.category = category)
    (h : category ∉ Category.canEndOpen) :
    tree.EndsBefore rest ↔ ∀ token ∈ rest.head?, token.kind ∉ category.continuations := by
  subst hcategory
  have hopen : tree.endsOpen = false :=
    Bool.eq_false_iff.mpr fun hopen => h (category_of_endsOpen hopen)
  simp [EndsBefore, hopen, Node.category]

/-- What can end in a conditional without an `else` only has to look out for an `else`. -/
theorem endsBefore_of_ne_else {category : Category} (hcategory : tree.kind.category = category)
    (h : category.continuations = []) (hrest : ∀ token ∈ rest.head?, token.kind ≠ .elseKeyword) :
    tree.EndsBefore rest := by
  subst hcategory
  refine fun token htoken => ⟨?_, fun helse => absurd helse (hrest token htoken)⟩
  rw [Node.category, h]
  exact List.not_mem_nil

/-- The last part of a construct ends where the construct does. -/
theorem EndsBefore.last {last : Node} {category : Category} (h : tree.EndsBefore rest)
    (hcategory : last.kind.category = category) (hcontinuations : category.continuations = [])
    (hopen : last.endsOpen = tree.endsOpen) : last.EndsBefore rest := by
  subst hcategory
  refine fun token htoken => ⟨?_, fun helse => hopen ▸ (h token htoken).2 helse⟩
  rw [Node.category, hcontinuations]
  exact List.not_mem_nil

end Node

namespace Parser

/-- In front of the tokens of a construct of the category, the parser reads the construct, if it
nests less than `levels` levels deep. -/
def Complete (parser : Parser Node) (category : Category) (levels : Nat) : Prop :=
  ∀ {tree tokens} rest, Derives category tree tokens → tree.NearestElse → tree.EndsBefore rest →
    Reads parser tokens rest (tree.nesting < levels) fun answer => answer.bare = tree.bare

variable {levels : Nat} {inner operand statement expression : Parser Node}

/-- No level is enough for any tree, and the refusal is the right one. -/
theorem refuseNesting_complete (category : Category) : Complete refuseNesting category 0 :=
  fun _ _ _ _ => reads_refuseNesting (Nat.not_lt_zero _)

/-! ## Expressions -/

/-- Nothing that follows goes on with an identifier. -/
theorem identifier_complete (levels : Nat) : Complete identifier .identifier (levels + 1) := by
  intro tree tokens rest hderives hnearest hends
  obtain ⟨token, span, hkind, rfl, rfl⟩ := hderives.identifier
  refine (reads_identifier hkind).congr ?_ ?_
  · simp [Node.nesting_leaf]
  · rintro _ rfl
    simp [Node.bare_mk]

/-- Literals and variables have one token, which makes their leaf. -/
theorem leaf_of_derives {category : Category} {tree : Node} {tokens : List Token}
    (hmem : category ∈ [.identifier, .integer, .boolean]) (h : Derives category tree tokens) :
    ∃ token kind span, tokens = [token] ∧ token.leaf? = some kind ∧ tree = ⟨kind, [], span⟩ := by
  simp only [List.mem_cons, List.not_mem_nil, or_false] at hmem
  rcases hmem with rfl | rfl | rfl
  · obtain ⟨token, span, hkind, rfl, rfl⟩ := h.identifier
    exact ⟨token, _, span, rfl, by simp [Token.leaf?, hkind], rfl⟩
  · obtain ⟨token, span, hkind, rfl, rfl⟩ := h.integer
    exact ⟨token, _, span, rfl, by simp [Token.leaf?, hkind], rfl⟩
  · obtain ⟨truth, token, span, hkind, rfl, rfl⟩ := h.boolean
    exact ⟨token, _, span, rfl, by cases truth <;> simp_all [Token.leaf?], rfl⟩

/-- A leaf is read at its token, whatever follows. -/
theorem reads_value_leaf {token : Token} {kind : NodeKind} {rest : List Token}
    (h : token.leaf? = some kind) :
    Reads (value inner) [token] rest True
      fun answer => answer.bare = ⟨.value, [⟨kind, [], {}⟩], {}⟩ := by
  unfold Token.leaf? at h
  unfold value
  refine reads_nextSpan.step fun start _ => ?_
  split at h <;> cases h
  all_goals
    next hkind =>
    refine (reads_accept?_some (by simp [hkind])).step ?_
    rintro _ rfl
    simp only [hkind, pure_bind]
    exact reads_previousSpan.step fun _ _ => reads_pure (by simp [Node.bare_mk, literal])

/-- Between parentheses the closing one follows, which goes on with nothing. -/
theorem value_complete (hinner : Complete inner .expression levels) :
    Complete (value inner) .value (levels + 1) := by
  intro tree tokens rest hderives hnearest hends
  obtain ⟨content, span, rfl, ⟨category, hmem, hcontent⟩ |
    ⟨left, inside, right, hleft, hright, rfl, hcontent⟩⟩ := hderives.value
  · obtain ⟨token, kind, span', rfl, hleaf, rfl⟩ := leaf_of_derives hmem hcontent
    obtain ⟨hs, he⟩ : kind ≠ .statement ∧ kind ≠ .expression := by
      constructor <;> rintro rfl <;> simp [← hcontent.1, NodeKind.category] at hmem
    refine (reads_value_leaf hleaf).congr ?_ fun answer hanswer => ?_
    · simp [Node.nesting_literal hs he]
    · simp [hanswer, Node.bare_mk]
  · have hreads := hinner (right :: rest) hcontent
      (hnearest.parts content List.mem_cons_self)
      (Node.endsBefore_closing (by simp [hright]))
    unfold value
    refine reads_nextSpan.step fun start _ => (reads_accept?_some (by simp [hleft])).step ?_
    rintro _ rfl
    simp only [hleft, pure_bind]
    refine Reads.of_iff (hreads.bind fun answer hanswer => (reads_expect hright).step fun _ _ =>
      reads_previousSpan.step fun _ _ => reads_pure ?_) ?_
    · simp [Node.bare_mk, hanswer]
    · rw [Node.nesting_parentheses hcontent.1]
      simp

/-- Behind stacked operators stands something that does not start with one. -/
theorem stacked_complete {kinds : List TokenKind} {kind : List String → NodeKind}
    {category category' : Category}
    (hshape : ∀ {tree tokens}, Derives category tree tokens →
      ∃ run content span inside, (∀ token ∈ run, token.kind ∈ kinds) ∧
        tree = ⟨kind (run.map Token.text), [content], span⟩ ∧ tokens = run ++ inside ∧
        Derives category' content inside)
    (hhead : ∀ {tree tokens}, Derives category' tree tokens →
      ∃ token others, tokens = token :: others ∧ token.kind ∉ kinds)
    (hkind : ∀ texts, kind texts ≠ .statement ∧ kind texts ≠ .value)
    (hends : ∀ {tree : Node} rest, tree.category = category' → tree.EndsBefore rest)
    (hoperand : Complete operand category' (levels + 1)) :
    Complete (stacked kinds kind operand) category (levels + 1) := by
  intro tree tokens rest hderives hnearest _
  obtain ⟨run, content, span, inside, hrun, rfl, rfl, hcontent⟩ := hshape hderives
  obtain ⟨token, others, hfirst, hnot⟩ := hhead hcontent
  have hreads := hoperand rest hcontent (hnearest.parts content List.mem_cons_self)
    (hends rest hcontent.1)
  unfold stacked
  refine reads_nextSpan.step fun start _ => (reads_acceptRun hrun ?_).step ?_
  · simp [hfirst, hnot]
  · rintro _ rfl
    rw [Node.nesting_lt_succ_iff (hkind _).1 (hkind _).2, List.forall_mem_singleton]
    exact hreads.finish fun answer hanswer => reads_pure (by simp [Node.bare_mk, hanswer])

/-- Behind an operand stands the next operator, or what stands behind all of them. -/
theorem head_of_links {kinds : List TokenKind} {category : Category} {operators : Operators}
    {trees : List Node} {tokens rest : List Token} (hamong : operators.Among kinds)
    (h : Fills (operators.links category) trees tokens) :
    ∀ token ∈ (tokens ++ rest).head?, token.kind ∈ kinds ∨ token ∈ rest.head? := by
  cases operators with
  | nil =>
    obtain ⟨rfl, rfl⟩ := fills_nil_iff.mp h
    exact fun token htoken => .inr htoken
  | cons operator others =>
    obtain ⟨token, tree, others, front, back, rfl, rfl, rfl, -⟩ := fills_links_cons_iff.mp h
    rintro _ ⟨⟩
    exact .inl (hamong _ List.mem_cons_self)

/-- By induction on the operators. Each operand ends before the next operator, or before what
follows the chain. -/
theorem links_complete {kinds : List TokenKind} {category : Category}
    (hcategory : category ∉ Category.canEndOpen)
    (hkinds : ∀ kind ∈ kinds, kind ∉ category.continuations)
    (hoperand : Complete operand category (levels + 1)) {operators : Operators}
    (hamong : operators.Among kinds) {trees : List Node} {tokens rest : List Token}
    (h : Fills (operators.links category) trees tokens)
    (hnearest : ∀ tree ∈ trees, tree.NearestElse)
    (hrest : ∀ token ∈ rest.head?, token.kind ∉ kinds ∧ token.kind ∉ category.continuations)
    {fuel : Nat} (hfuel : operators.length ≤ fuel) :
    Reads (links kinds operand fuel) tokens rest (∀ tree ∈ trees, tree.nesting < levels + 1)
      fun pairs => pairs.map Prod.fst = operators.texts ∧
        (pairs.map Prod.snd).map Node.bare = trees.map Node.bare := by
  -- on the operators, each of which costs fuel
  induction operators generalizing trees tokens fuel with
  | nil =>
    obtain ⟨rfl, rfl⟩ := fills_nil_iff.mp h
    cases fuel with
    | zero => exact (reads_pure (by simp [Operators.texts])).of_iff (by simp)
    | succ fuel =>
      rw [links_succ]
      refine Reads.of_iff ((reads_accept?_none fun token htoken =>
        (hrest token htoken).1).finish ?_) (by simp)
      rintro _ rfl
      exact reads_pure (by simp [Operators.texts])
  | cons operator others ih =>
    obtain ⟨token, tree, trees, front, back, rfl, rfl, rfl, htree, hothers⟩ :=
      fills_links_cons_iff.mp h
    obtain ⟨hfirst, hbehind⟩ := List.forall_mem_cons.mp hamong
    obtain ⟨fuel, rfl⟩ : ∃ rest, fuel = rest + 1 := ⟨fuel - 1, by simp at hfuel; omega⟩
    rw [links_succ]
    refine (reads_accept?_some hfirst).step ?_
    rintro _ rfl
    -- an operand is followed by an operator of this level or by what follows the chain
    have hends : tree.EndsBefore (back ++ rest) := by
      rw [Node.endsBefore_iff htree.1 hcategory]
      intro next hnext
      rcases head_of_links hbehind hothers next hnext with hkind | hnext
      · exact hkinds _ hkind
      · exact (hrest next hnext).2
    have hreads := hoperand _ htree (hnearest tree List.mem_cons_self) hends
    have hreads' := ih hbehind hothers
      (fun tree htree => hnearest tree (List.mem_cons_of_mem _ htree))
      (Nat.le_of_succ_le_succ hfuel)
    refine (hreads.bind fun answer hanswer => hreads'.finish fun pairs hpairs =>
      reads_pure ?_).of_iff ?_
    · simp [hanswer, hpairs, Operators.texts, Token.content]
    · simp

/-- Each operator has a token. -/
theorem length_le_of_links {category : Category} {operators : Operators} {trees : List Node}
    {tokens : List Token} (h : Fills (operators.links category) trees tokens) :
    operators.length ≤ tokens.length := by
  induction operators generalizing trees tokens with
  | nil => exact Nat.zero_le _
  | cons operator others ih =>
    obtain ⟨token, tree, trees, front, back, rfl, rfl, -, -, hothers⟩ := fills_links_cons_iff.mp h
    have hlength := ih hothers
    simp only [List.length_cons, List.length_append]
    omega

/-- What goes on with a chain is what goes on with its operands, and its own operators. -/
theorem chain_complete {kinds : List TokenKind} {kind : List String → NodeKind}
    {category category' : Category}
    (hshape : ∀ {tree tokens}, Derives category tree tokens →
      ∃ (operators : Operators) (first : Node) (others : List Node) (span : Span)
        (front back : List Token), operators.Among kinds ∧
        tree = ⟨kind operators.texts, first :: others, span⟩ ∧ tokens = front ++ back ∧
        Derives category' first front ∧ Fills (operators.links category') others back)
    (hkind : ∀ texts, kind texts ≠ .statement ∧ kind texts ≠ .value)
    (hcategory : category ∉ Category.canEndOpen ∧ category' ∉ Category.canEndOpen)
    (hkinds : ∀ kind ∈ kinds, kind ∉ category'.continuations)
    (hcontinuations : category.continuations = category'.continuations ++ kinds)
    (hoperand : Complete operand category' (levels + 1)) :
    Complete (chain kinds kind operand) category (levels + 1) := by
  intro tree tokens rest hderives hnearest hends
  rw [Node.endsBefore_iff hderives.1 hcategory.1, hcontinuations] at hends
  obtain ⟨operators, first, others, span, front, back, hamong, rfl, rfl, hfirst, hothers⟩ :=
    hshape hderives
  have hparts := hnearest.parts
  -- what does not go on with the chain goes on with none of its operands
  have hrest : ∀ token ∈ rest.head?,
      token.kind ∉ kinds ∧ token.kind ∉ category'.continuations := by
    intro token htoken
    have hnot := hends token htoken
    rw [List.mem_append, not_or] at hnot
    exact hnot.symm
  have hends' : first.EndsBefore (back ++ rest) := by
    rw [Node.endsBefore_iff hfirst.1 hcategory.2]
    intro next hnext
    rcases head_of_links hamong hothers next hnext with hkind | hnext
    · exact hkinds _ hkind
    · exact (hrest next hnext).2
  have hreads := hoperand _ hfirst (hparts first List.mem_cons_self) hends'
  -- the reader takes the tokens left as its fuel
  have hfuel : operators.length ≤ (back ++ rest).length := by
    rw [List.length_append]
    exact Nat.le_add_right_of_le (length_le_of_links hothers)
  have hreads' := links_complete hcategory.2 hkinds hoperand hamong hothers
    (fun tree htree => hparts tree (List.mem_cons_of_mem _ htree)) hrest hfuel
  rw [Node.nesting_lt_succ_iff (hkind _).1 (hkind _).2, List.forall_mem_cons]
  rw [chain, repeated_nextLink]
  simp only [bind_assoc]
  refine hreads.bind fun answer hanswer => reads_remaining.step ?_
  rintro _ rfl
  exact hreads'.finish fun pairs hpairs => reads_pure (by simp [Node.bare_mk, hanswer, hpairs])

/-- Behind the left operand stands the operator, or what follows the comparison; neither goes on
with a sum. -/
theorem comparison_complete (hoperand : Complete operand .sum (levels + 1)) :
    Complete (comparison operand) .comparison (levels + 1) := by
  intro tree tokens rest hderives hnearest hends
  rw [Node.endsBefore_iff hderives.1 (by decide)] at hends
  have hlast {right : Node} (hright : right.kind.category = .sum) : right.EndsBefore rest := by
    rw [Node.endsBefore_iff hright (by decide)]
    exact fun token htoken hmem => hends token htoken (List.mem_append_left _ hmem)
  rcases hderives.comparison with ⟨left, span, rfl, hleft⟩ |
    ⟨left, right, span, operator, front, back, hkind, rfl, rfl, hleft, hright⟩
  · have hparts := hnearest.parts
    have hreads := hoperand _ hleft (hparts left (by simp)) (hlast hleft.1)
    rw [Node.nesting_lt_succ_iff (by simp) (by simp), List.forall_mem_singleton]
    unfold comparison
    refine hreads.finish fun answer hanswer => (reads_accept?_none ?_).finish ?_
    · exact fun token htoken hmem => hends token htoken (List.mem_append_right _ hmem)
    · rintro _ rfl
      exact reads_pure (by simp [Node.bare_mk, hanswer])
  · have hparts := hnearest.parts
    -- a comparison operator ends the operand before it
    have hends' : left.EndsBefore (operator :: back ++ rest) := by
      rw [Node.endsBefore_iff hleft.1 (by decide)]
      rintro _ ⟨⟩
      exact (by decide : ∀ kind ∈ TokenKind.comparisons, kind ∉ Category.sum.continuations) _ hkind
    have hreads := hoperand _ hleft (hparts left (by simp)) hends'
    have hreads' := hoperand _ hright (hparts right (by simp)) (hlast hright.1)
    rw [Node.nesting_lt_succ_iff (by simp) (by simp), List.forall_mem_cons,
      List.forall_mem_singleton]
    unfold comparison
    refine hreads.bind fun answer hanswer => (reads_accept?_some hkind).step ?_
    rintro _ rfl
    exact hreads'.finish fun answer' hanswer' =>
      reads_pure (by simp [Node.bare_mk, hanswer, hanswer'])

/-- A run of `!` is over where the value starts. -/
private theorem value_head_ne_bang {tree : Node} {tokens : List Token}
    (h : Derives .value tree tokens) :
    ∃ token others, tokens = token :: others ∧ token.kind ∉ [TokenKind.bang] := by
  obtain ⟨token, others, rfl, hkind⟩ := h.value_head
  exact ⟨token, others, rfl, by grind⟩

/-- A run of signs is over where the negation starts. -/
private theorem negation_head_ne_sign {tree : Node} {tokens : List Token}
    (h : Derives .negation tree tokens) :
    ∃ token others, tokens = token :: others ∧ token.kind ∉ [TokenKind.plus, .minus] := by
  obtain ⟨token, others, rfl, hkind⟩ := h.negation_head
  exact ⟨token, others, rfl, by grind⟩

/-- The ladder of levels: each is complete because the one below it is. -/
theorem expressionOver_complete (hinner : Complete inner .expression levels) :
    Complete (expressionOver inner) .expression (levels + 1) := by
  have hnegation : Complete (negation inner) .negation (levels + 1) :=
    stacked_complete Derives.negation value_head_ne_bang (by simp)
      (fun _ h => (Node.endsBefore_iff h (by decide)).mpr nofun) (value_complete hinner)
  have hsigned : Complete (signed inner) .signed (levels + 1) :=
    stacked_complete Derives.signed negation_head_ne_sign (by simp)
      (fun _ h => (Node.endsBefore_iff h (by decide)).mpr nofun) hnegation
  have hproduct : Complete (product inner) .product (levels + 1) :=
    chain_complete Derives.product (by simp) (by decide) (by decide) (by decide) hsigned
  have hsum : Complete (sum inner) .sum (levels + 1) :=
    chain_complete Derives.sum (by simp) (by decide) (by decide) (by decide) hproduct
  have hlogical : Complete (logical inner) .logical (levels + 1) :=
    chain_complete Derives.logical (by simp) (by decide) (by decide) (by decide)
      (comparison_complete hsum)
  intro tree tokens rest hderives hnearest hends
  rw [Node.endsBefore_iff hderives.1 (by decide)] at hends
  obtain ⟨content, span, rfl, hcontent⟩ := hderives.expression
  have hreads := hlogical rest hcontent (hnearest.parts content (by simp))
    ((Node.endsBefore_iff hcontent.1 (by decide)).mpr hends)
  rw [Node.nesting_lt_succ_iff (by simp) (by simp), List.forall_mem_singleton]
  unfold expressionOver
  exact hreads.finish fun answer hanswer => reads_pure (by simp [Node.bare_mk, hanswer])

/-- By induction on the levels: parentheses take one of them in the tree and in the reader. -/
theorem expression_complete (levels : Nat) :
    Complete (Parser.expression levels) .expression (levels + 1) := by
  induction levels with
  | zero => exact expressionOver_complete (refuseNesting_complete _)
  | succ levels ih => exact expressionOver_complete ih

/-! ## Declarations and assignments -/

/-- A declaration nests nothing, so any level is enough. -/
theorem declared_complete (kind : String → NodeKind) (keyword : Token) (levels : Nat)
    (rest : List Token) (span : Span) {target : Node} {tokens : List Token}
    (h : Derives .identifier target tokens)
    (hkind : kind keyword.text ≠ .statement ∧ kind keyword.text ≠ .value) :
    Reads (declared kind keyword) tokens rest
      (Node.nesting ⟨kind keyword.text, [target], span⟩ < levels + 1)
      fun answer => answer.bare = Node.bare ⟨kind keyword.text, [target], span⟩ := by
  obtain ⟨token, span', htoken, rfl, rfl⟩ := h.identifier
  rw [Node.nesting_lt_succ_iff hkind.1 hkind.2]
  unfold declared
  refine Reads.of_iff ((reads_identifier htoken).finish ?_) (by simp [Node.nesting_leaf])
  rintro _ rfl
  exact reads_pure (by simp [Node.bare_mk])

theorem scalarDeclaration_complete (levels : Nat) :
    Complete scalarDeclaration .scalarDeclaration (levels + 1) := by
  intro tree tokens rest hderives _ _
  obtain ⟨keyword, target, span, inside, hkind, rfl, rfl, htarget⟩ := hderives.scalarDeclaration
  unfold scalarDeclaration
  refine (reads_accept?_some hkind).step ?_
  rintro _ rfl
  exact declared_complete _ keyword levels rest span htarget (by simp)

/-- The keyword tells the two kinds of declarations apart. -/
theorem declaration_complete (levels : Nat) :
    Complete declaration .declaration (levels + 1) := by
  intro tree tokens rest hderives hnearest hends
  obtain ⟨content, span, rfl, hcontent | hcontent⟩ := hderives.declaration
  · have hreads := scalarDeclaration_complete levels rest hcontent
      (hnearest.parts content (by simp))
      ((Node.endsBefore_iff hcontent.1 (by decide)).mpr nofun)
    obtain ⟨keyword, target, span', inside, hkind, rfl, rfl, htarget⟩ := hcontent.scalarDeclaration
    rw [Node.nesting_lt_succ_iff (by simp) (by simp), List.forall_mem_singleton]
    -- the reader looks for a list keyword first
    unfold declaration
    refine (reads_accept?_none ?_).step ?_
    · rintro _ ⟨⟩
      exact (by decide : ∀ kind ∈ TokenKind.scalarKeywords, kind ∉ TokenKind.listKeywords) _ hkind
    · rintro _ rfl
      exact hreads.finish fun answer hanswer => reads_pure (by simp [Node.bare_mk, hanswer])
  · obtain ⟨keyword, target, span', inside, hkind, rfl, rfl, htarget⟩ := hcontent.listDeclaration
    have hreads := declared_complete .listDeclaration keyword levels rest span' htarget (by simp)
    rw [Node.nesting_lt_succ_iff (by simp) (by simp), List.forall_mem_singleton]
    unfold declaration
    refine (reads_accept?_some hkind).step ?_
    rintro _ rfl
    exact hreads.finish fun answer hanswer => reads_pure (by simp [Node.bare_mk, hanswer])

/-- What follows an assignment follows its expression. -/
theorem assignment_complete (hexpression : Complete expression .expression (levels + 1)) :
    Complete (assignment expression) .assignment (levels + 1) := by
  intro tree tokens rest hderives hnearest hends
  rw [Node.endsBefore_iff hderives.1 (by decide)] at hends
  obtain ⟨target, content, span, front, sign, back, hsign, rfl, rfl, htarget, hcontent⟩ :=
    hderives.assignment
  have hreads := hexpression rest hcontent
    (hnearest.parts content (by simp))
    ((Node.endsBefore_iff hcontent.1 (by decide)).mpr hends)
  obtain ⟨token, span', htoken, rfl, rfl⟩ := htarget.identifier
  rw [Node.nesting_lt_succ_iff (by simp) (by simp)]
  unfold assignment
  refine Reads.of_iff ((reads_identifier htoken).step fun answer hanswer =>
    (reads_expect hsign).step fun _ _ => hreads.finish fun answer' hanswer' => reads_pure ?_) ?_
  · simp [Node.bare_mk, hanswer, hanswer']
  · simp [Node.nesting_leaf]

/-! ## Statements -/

/-- Behind a statement of a block stands the next one, or what stands behind the block. -/
theorem head_of_statements {count : Nat} {trees : List Node} {tokens rest : List Token}
    (h : Fills (List.replicate count (.part .statement)) trees tokens)
    (hrest : ∀ token ∈ rest.head?, token.kind = .rightBrace) :
    ∀ token ∈ (tokens ++ rest).head?, token.kind ≠ .elseKeyword := by
  cases count with
  | zero =>
    obtain ⟨rfl, rfl⟩ := fills_nil_iff.mp h
    intro token htoken
    simp [hrest token htoken]
  | succ count =>
    obtain ⟨tree, others, front, back, rfl, rfl, htree, -⟩ := fills_part_iff.mp h
    obtain ⟨token, others, rfl, -, hkind⟩ := htree.statement_head
    rintro _ ⟨⟩
    exact hkind

/-- Each statement has a token. -/
theorem count_le_of_statements {count : Nat} {trees : List Node} {tokens : List Token}
    (h : Fills (List.replicate count (.part .statement)) trees tokens) :
    count ≤ tokens.length := by
  induction count generalizing trees tokens with
  | zero => exact Nat.zero_le _
  | succ count ih =>
    obtain ⟨tree, others, front, back, rfl, rfl, htree, hothers⟩ := fills_part_iff.mp h
    obtain ⟨token, inside, rfl, -, -⟩ := htree.statement_head
    have hlength := ih hothers
    simp only [List.length_cons, List.length_append]
    omega

/-- By induction on the statements. What follows one is the next one or a closing brace, and neither
goes on with it. -/
theorem statements_complete (hstatement : Complete statement .statement (levels + 1))
    {count : Nat} {trees : List Node} {tokens rest : List Token}
    (h : Fills (List.replicate count (.part .statement)) trees tokens)
    (hnearest : ∀ tree ∈ trees, tree.NearestElse)
    (hrest : ∀ token ∈ rest.head?, token.kind = .rightBrace) {fuel : Nat} (hfuel : count ≤ fuel) :
    Reads (statements statement fuel) tokens rest (∀ tree ∈ trees, tree.nesting < levels + 1)
      fun answers => answers.map Node.bare = trees.map Node.bare := by
  -- on the number of statements, each of which costs fuel
  induction count generalizing trees tokens fuel with
  | zero =>
    obtain ⟨rfl, rfl⟩ := fills_nil_iff.mp h
    cases fuel with
    | zero => exact (reads_pure (by simp)).of_iff (by simp)
    | succ fuel =>
      rw [statements_succ]
      refine Reads.of_iff (reads_nextKind?.finish ?_) (by simp)
      rintro _ rfl
      cases hhead : rest.head? with
      | none => exact reads_pure rfl
      | some token =>
        rw [Option.map_some, hrest token hhead]
        exact reads_pure rfl
  | succ count ih =>
    obtain ⟨tree, others, front, back, rfl, rfl, htree, hothers⟩ := fills_part_iff.mp h
    obtain ⟨fuel, rfl⟩ : ∃ less, fuel = less + 1 := ⟨fuel - 1, by omega⟩
    -- no statement starts with an `else`, so a conditional before it ends there
    have hends := Node.endsBefore_of_ne_else htree.1 rfl (head_of_statements hothers hrest)
    have hreads := hstatement _ htree (hnearest tree List.mem_cons_self) hends
    have hreads' := ih hothers (fun tree htree => hnearest tree (List.mem_cons_of_mem _ htree))
      (Nat.le_of_succ_le_succ hfuel)
    -- the loop goes on, as no statement starts with a closing brace
    obtain ⟨token, inside, rfl, hkind, -⟩ := htree.statement_head
    rw [List.forall_mem_cons]
    rw [statements_succ]
    refine reads_nextKind?.step ?_
    rintro _ rfl
    simp only [List.cons_append, List.head?_cons, Option.map_some]
    exact hreads.bind fun answer hanswer => hreads'.finish fun answers hanswers =>
      reads_pure (by simp [hanswer, hanswers])

/-- There are no more statements than tokens, so the fuel is enough. -/
theorem block_complete (hstatement : Complete statement .statement (levels + 1)) {tree : Node}
    {tokens : List Token} (rest : List Token) (hderives : Derives .block tree tokens)
    (hnearest : tree.NearestElse) (hrest : ∀ token ∈ rest.head?, token.kind = .rightBrace) :
    Reads (block statement) tokens rest (tree.nesting < levels + 1)
      fun answer => answer.bare = tree.bare := by
  obtain ⟨trees, span, rfl, count, hfills⟩ := hderives.block
  have hfuel : count ≤ (tokens ++ rest).length := by
    rw [List.length_append]
    exact Nat.le_add_right_of_le (count_le_of_statements hfills)
  have hreads := statements_complete hstatement hfills hnearest.parts
    hrest hfuel
  rw [Node.nesting_lt_succ_iff (by simp) (by simp)]
  rw [block, repeated_nextStatement]
  simp only [bind_assoc]
  refine reads_nextSpan.step fun start _ => reads_remaining.step ?_
  rintro _ rfl
  exact hreads.finish fun answers hanswers => reads_pure (by simp [Node.bare_mk, hanswers])

/-- An expression in parentheses, with what stands behind it. -/
theorem reads_condition_bind {α : Type} {next : Node → Parser α} {left right : Token}
    {front back rest : List Token} {fits fits' : Prop} {good : Node → Prop} {good' : α → Prop}
    (hleft : left.kind = .leftParen) (hright : right.kind = .rightParen)
    (h : Reads expression front (right :: (back ++ rest)) fits good)
    (hnext : ∀ answer, good answer → Reads (next answer) back rest fits' good') :
    Reads (condition expression >>= next) (left :: (front ++ right :: back)) rest (fits ∧ fits')
      good' := by
  have hcondition : Reads (condition expression) (left :: (front ++ [right])) (back ++ rest)
      (fits ∧ True) good :=
    (reads_expect hleft).step fun _ _ => h.bind fun answer hanswer =>
      (reads_expect hright).finish fun _ _ => reads_pure hanswer
  simpa using hcondition.bind hnext

/-- That every `else` is with its nearest conditional is used here: the first branch cannot take the
one behind it. -/
theorem conditional_complete (hstatement : Complete statement .statement (levels + 1))
    (hexpression : Complete expression .expression (levels + 1)) :
    Complete (conditional statement expression) .conditional (levels + 1) := by
  intro tree tokens rest hderives hnearest hends
  obtain ⟨start, left, test, front, right, branch, middle, span, back, hstart, hleft, hright, rfl,
    htest, hbranch, ⟨rfl, rfl⟩ | ⟨middle', other, otherwise, hother, rfl, hotherwise, rfl⟩⟩ :=
    hderives.conditional
  · have hparts := hnearest.parts
    have hreads := hexpression (right :: (middle ++ rest)) htest (hparts test (by simp))
      (Node.endsBefore_closing (by simp [hright]))
    -- this conditional could take an `else` itself, so none follows
    have hnone : ∀ token ∈ rest.head?, token.kind ≠ .elseKeyword := fun token htoken helse =>
      Bool.noConfusion ((hends token htoken).2 helse)
    have hreads' := hstatement rest hbranch (hparts branch (by simp))
      (Node.endsBefore_of_ne_else hbranch.1 rfl hnone)
    rw [Node.nesting_lt_succ_iff (by simp) (by simp), List.forall_mem_cons,
      List.forall_mem_singleton, List.append_nil]
    unfold conditional
    refine (reads_expect hstart).step fun _ _ => reads_condition_bind hleft hright hreads
      fun answer hanswer => hreads'.finish fun answer' hanswer' => ?_
    refine (reads_accept?_none fun token htoken hmem =>
      hnone token htoken (List.mem_singleton.mp hmem)).finish ?_
    rintro _ rfl
    simp only [pure_bind]
    exact reads_previousSpan.finish fun _ _ =>
      reads_pure (by simp [Node.bare_mk, hanswer, hanswer'])
  · obtain ⟨hnearer, hparts⟩ := Node.nearestElse_mk_iff.mp hnearest
    have hreads := hexpression (right :: (middle ++ other :: middle' ++ rest)) htest
      (hparts test (by simp)) (Node.endsBefore_closing (by simp [hright]))
    -- the branch cannot take the `else` that follows it
    have hclosed : branch.EndsBefore (other :: middle' ++ rest) := by
      rintro _ ⟨⟩
      refine ⟨?_, fun _ => hnearer test branch otherwise rfl rfl⟩
      rw [Node.category, hbranch.1]
      exact List.not_mem_nil
    have hreads' := hstatement _ hbranch (hparts branch (by simp)) hclosed
    have hreads'' := hstatement rest hotherwise (hparts otherwise (by simp))
      (hends.last hotherwise.1 rfl rfl)
    rw [Node.nesting_lt_succ_iff (by simp) (by simp), List.forall_mem_cons, List.forall_mem_cons,
      List.forall_mem_singleton]
    unfold conditional
    refine (reads_expect hstart).step fun _ _ => reads_condition_bind hleft hright hreads
      fun answer hanswer => hreads'.bind fun answer' hanswer' => ?_
    refine (reads_accept?_some (by simp [hother])).step ?_
    rintro _ rfl
    simp only [pure_bind]
    exact hreads''.finish fun answer'' hanswer'' => reads_previousSpan.finish fun _ _ =>
      reads_pure (by simp [Node.bare_mk, hanswer, hanswer', hanswer''])

/-- What must not follow a loop must not follow its body. -/
theorem whileLoop_complete (hstatement : Complete statement .statement (levels + 1))
    (hexpression : Complete expression .expression (levels + 1)) :
    Complete (whileLoop statement expression) .whileLoop (levels + 1) := by
  intro tree tokens rest hderives hnearest hends
  obtain ⟨start, left, test, front, right, body, back, span, hstart, hleft, hright, rfl, htest,
    hbody, rfl⟩ := hderives.whileLoop
  have hparts := hnearest.parts
  have hreads := hexpression (right :: (back ++ rest)) htest (hparts test (by simp))
    (Node.endsBefore_closing (by simp [hright]))
  have hreads' := hstatement rest hbody (hparts body (by simp)) (hends.last hbody.1 rfl rfl)
  rw [Node.nesting_lt_succ_iff (by simp) (by simp), List.forall_mem_cons,
    List.forall_mem_singleton]
  unfold whileLoop
  exact (reads_expect hstart).step fun _ _ => reads_condition_bind hleft hright hreads
    fun answer hanswer => hreads'.finish fun answer' hanswer' =>
      reads_pure (by simp [Node.bare_mk, hanswer, hanswer'])

theorem forLoop_complete (hstatement : Complete statement .statement (levels + 1))
    (hexpression : Complete expression .expression (levels + 1)) :
    Complete (forLoop statement expression) .forLoop (levels + 1) := by
  intro tree tokens rest hderives hnearest hends
  obtain ⟨start, left, first, front, mark, test, middle, mark', step, middle', right, body, back,
    span, hstart, hleft, hmark, hmark', hright, rfl, hfirst, htest, hstep, hbody, rfl⟩ :=
    hderives.forLoop
  have hparts := hnearest.parts
  have hreads₁ := assignment_complete hexpression
    (mark :: (middle ++ mark' :: (middle' ++ right :: back) ++ rest)) hfirst
    (hparts first (by simp)) (Node.endsBefore_closing (by simp [hmark]))
  have hreads₂ := hexpression (mark' :: (middle' ++ right :: back ++ rest)) htest
    (hparts test (by simp)) (Node.endsBefore_closing (by simp [hmark']))
  have hreads₃ := assignment_complete hexpression (right :: (back ++ rest)) hstep
    (hparts step (by simp)) (Node.endsBefore_closing (by simp [hright]))
  have hreads₄ := hstatement rest hbody (hparts body (by simp)) (hends.last hbody.1 rfl rfl)
  rw [Node.nesting_lt_succ_iff (by simp) (by simp), List.forall_mem_cons, List.forall_mem_cons,
    List.forall_mem_cons, List.forall_mem_singleton]
  unfold forLoop
  refine (reads_expect hstart).step fun _ _ => (reads_expect hleft).step fun _ _ =>
    hreads₁.bind fun answer₁ hanswer₁ => (reads_expect hmark).step fun _ _ =>
    hreads₂.bind fun answer₂ hanswer₂ => (reads_expect hmark').step fun _ _ =>
    hreads₃.bind fun answer₃ hanswer₃ => (reads_expect hright).step fun _ _ =>
    hreads₄.finish fun answer₄ hanswer₄ => reads_pure ?_
  simp [Node.bare_mk, hanswer₁, hanswer₂, hanswer₃, hanswer₄]

theorem foreachLoop_complete (hstatement : Complete statement .statement (levels + 1)) :
    Complete (foreachLoop statement) .foreachLoop (levels + 1) := by
  intro tree tokens rest hderives hnearest hends
  obtain ⟨start, left, element, front, colon, array, middle, right, body, back, span, hstart, hleft,
    hcolon, hright, rfl, helement, harray, hbody, rfl⟩ := hderives.foreachLoop
  have hparts := hnearest.parts
  have hreads₁ := scalarDeclaration_complete levels (colon :: (middle ++ right :: back ++ rest))
    helement (hparts element (by simp)) (Node.endsBefore_closing (by simp [hcolon]))
  have hreads₂ := identifier_complete levels (right :: (back ++ rest)) harray
    (hparts array (by simp)) (Node.endsBefore_closing (by simp [hright]))
  have hreads₃ := hstatement rest hbody (hparts body (by simp)) (hends.last hbody.1 rfl rfl)
  rw [Node.nesting_lt_succ_iff (by simp) (by simp), List.forall_mem_cons, List.forall_mem_cons,
    List.forall_mem_singleton]
  unfold foreachLoop
  refine (reads_expect hstart).step fun _ _ => (reads_expect hleft).step fun _ _ =>
    hreads₁.bind fun answer₁ hanswer₁ => (reads_expect hcolon).step fun _ _ =>
    hreads₂.bind fun answer₂ hanswer₂ => (reads_expect hright).step fun _ _ =>
    hreads₃.finish fun answer₃ hanswer₃ => reads_pure ?_
  simp [Node.bare_mk, hanswer₁, hanswer₂, hanswer₃]

/-- What closes a construct does not nest. -/
theorem reads_closed {close : TokenKind} {last : Token} {front rest : List Token} {fits : Prop}
    {good : Node → Prop} (h : Reads inner front (last :: rest) fits good)
    (hlast : last.kind = close) : Reads (closed close inner) (front ++ [last]) rest fits good := by
  unfold closed
  refine Reads.of_iff (h.bind fun answer hanswer => (reads_expect hlast).finish fun _ _ =>
    reads_pure hanswer) ?_
  simp

section Construct

variable {category : Category} {content : Node} {tokens : List Token}

/-- The reader of a compound construct, told by its keyword. -/
theorem construct_compound (rest : List Token)
    (hcategory : category ∈ [.conditional, .whileLoop, .forLoop, .foreachLoop])
    (hstatement : Complete statement .statement (levels + 1))
    (hexpression : Complete expression .expression (levels + 1))
    (hderives : Derives category content tokens) :
    Complete (construct statement expression ((tokens ++ rest).head?.map Token.kind)) category
      (levels + 1) := by
  simp only [List.mem_cons, List.not_mem_nil, or_false] at hcategory
  rcases hcategory with rfl | rfl | rfl | rfl
  · obtain ⟨start, -, -, -, -, -, -, -, -, hkind, -, -, rfl, -⟩ := hderives.conditional
    rw [List.cons_append, List.head?_cons, Option.map_some, hkind]
    exact conditional_complete hstatement hexpression
  · obtain ⟨start, -, -, -, -, -, -, -, hkind, -, -, rfl, -⟩ := hderives.whileLoop
    rw [List.cons_append, List.head?_cons, Option.map_some, hkind]
    exact whileLoop_complete hstatement hexpression
  · obtain ⟨start, -, -, -, -, -, -, -, -, -, -, -, -, -, hkind, -, -, -, -, rfl, -⟩ :=
      hderives.forLoop
    rw [List.cons_append, List.head?_cons, Option.map_some, hkind]
    exact forLoop_complete hstatement hexpression
  · obtain ⟨start, -, -, -, -, -, -, -, -, -, -, hkind, -, -, -, rfl, -⟩ := hderives.foreachLoop
    rw [List.cons_append, List.head?_cons, Option.map_some, hkind]
    exact foreachLoop_complete hstatement

/-- The reader of a simple construct, told by its first token. -/
theorem construct_simple (statement : Parser Node) (rest : List Token)
    (hcategory : category ∈ [.declaration, .assignment])
    (hexpression : Complete expression .expression (levels + 1))
    (hderives : Derives category content tokens) :
    ∃ reader, Complete reader category (levels + 1) ∧
      construct statement expression ((tokens ++ rest).head?.map Token.kind)
        = closed .semicolon reader := by
  simp only [List.mem_cons, List.not_mem_nil, or_false] at hcategory
  rcases hcategory with rfl | rfl
  · refine ⟨declaration, declaration_complete levels, ?_⟩
    obtain ⟨token, others, rfl, hkind⟩ := hderives.declaration_head
    rw [List.cons_append, List.head?_cons, Option.map_some]
    -- all four keywords lead to the same reader
    generalize token.kind = kind at hkind
    revert kind
    simp [TokenKind.scalarKeywords, TokenKind.listKeywords, construct]
  · refine ⟨assignment expression, assignment_complete hexpression, ?_⟩
    obtain ⟨token, others, rfl, hkind⟩ := hderives.assignment_head
    simp [hkind, construct]

end Construct

/-- The first token of a statement tells which construct it is made of. -/
theorem statementBody_complete (hstatement : Complete statement .statement (levels + 1))
    (hexpression : Complete expression .expression (levels + 1)) {content : Node} {span : Span}
    {tokens rest : List Token} (hderives : Derives .statement ⟨.statement, [content], span⟩ tokens)
    (hnearest : content.NearestElse) (hends : Node.EndsBefore ⟨.statement, [content], span⟩ rest) :
    Reads (statementBody statement expression) tokens rest (content.nesting < levels + 1)
      fun answer => answer.bare = content.bare := by
  rw [statementBody_eq]
  refine reads_nextKind?.step ?_
  rintro _ rfl
  obtain ⟨content, span, ⟨⟩, ⟨category, hmem, front, last, hlast, rfl, hcontent⟩ |
    ⟨category, hmem, hcontent⟩ | ⟨left, inside, right, hleft, hright, rfl, hcontent⟩⟩ :=
    hderives.statement
  · obtain ⟨reader, hreader, heq⟩ :=
      construct_simple statement ([last] ++ rest) hmem hexpression hcontent
    rw [List.append_assoc, heq]
    exact reads_closed (hreader (last :: rest) hcontent hnearest
      (Node.endsBefore_closing (by simp [hlast]))) hlast
  · refine construct_compound rest hmem hstatement hexpression hcontent rest hcontent hnearest ?_
    -- a compound construct only has to look out for an `else`
    have hnil : category.continuations = [] := by
      simp only [List.mem_cons, List.not_mem_nil, or_false] at hmem
      rcases hmem with rfl | rfl | rfl | rfl <;> rfl
    exact hends.last hcontent.1 hnil rfl
  · have hreads := reads_closed (block_complete hstatement (right :: rest) hcontent hnearest
      (by simp [hright])) hright
    simp only [List.cons_append, List.head?_cons, Option.map_some, hleft, construct]
    exact (reads_expect hleft).step fun _ _ => hreads

/-- The level that a statement takes is counted in its nesting. -/
theorem statementOver_complete (hstatement : Complete statement .statement (levels + 1))
    (hexpression : Complete expression .expression (levels + 1)) :
    Complete (statementOver statement expression) .statement (levels + 2) := by
  intro tree tokens rest hderives hnearest hends
  obtain ⟨content, span, rfl, -⟩ := hderives.statement
  have hreads := statementBody_complete hstatement hexpression hderives
    (hnearest.parts content (by simp)) hends
  rw [Node.nesting_statement, Nat.succ_lt_succ_iff]
  unfold statementOver
  exact reads_nextSpan.step fun _ _ => hreads.finish fun answer hanswer =>
    reads_previousSpan.finish fun _ _ => reads_pure (by simp [Node.bare_mk, hanswer])

/-- By induction on the levels that statements are nested in. -/
theorem statement_complete (levels : Nat) :
    Complete (Parser.statement levels) .statement (levels + 1) := by
  induction levels with
  | zero =>
    intro tree tokens rest hderives _ _
    obtain ⟨content, span, rfl, -⟩ := hderives.statement
    -- a statement always nests one level, so it never fits into none
    refine reads_refuseNesting ?_
    rw [Node.nesting_statement]
    omega
  | succ levels ih => exact statementOver_complete ih (expression_complete levels)

/-- Behind a program nothing follows at all. -/
theorem program_complete {tree : Node} {tokens : List Token}
    (hderives : Derives .program tree tokens) (hnearest : tree.NearestElse) :
    Reads (block (Parser.statement nestingLimit)) tokens [] (tree.nesting ≤ nestingLimit)
      fun answer => ∀ span, Node.bare ⟨.program, [answer], span⟩ = tree.bare := by
  obtain ⟨content, span, rfl, hcontent⟩ := hderives.program
  have hreads := block_complete (statement_complete nestingLimit) [] hcontent
    (hnearest.parts content (by simp)) (by simp)
  refine hreads.congr ?_ fun answer hanswer span => by simp [Node.bare_mk, hanswer]
  rw [← Nat.lt_succ_iff, Node.nesting_lt_succ_iff (by simp) (by simp), List.forall_mem_singleton]

end Parser

/-- **Parser completeness**. From tokens that a derivation prints, with every `else` at its nearest
conditional, the parser builds that derivation again if it nests no deeper than allowed, and
otherwise says that it nests too deeply. -/
theorem parse_complete {tree : Node} {tokens : List Token} (hderivation : tree.IsDerivation)
    (hnearest : tree.NearestElse) (hprint : tokens.map Token.content = tree.print) :
    (tree.nesting ≤ nestingLimit →
      ∃ tree', parse tokens = .ok tree' ∧ tree'.bare = tree.bare) ∧
    (nestingLimit < tree.nesting →
      ∃ span, parse tokens = .error (.grammatical "Nesting exceeds 100 levels" span)) := by
  have hderives : Derives .program tree tokens := by
    have h := Node.derives_of_print hderivation.produced hprint
    rwa [Node.category, hderivation.root] at h
  obtain ⟨hruns, hfails⟩ := Parser.program_complete hderives hnearest (.atStart tokens)
    (List.append_nil tokens).symm
  constructor
  · intro hnesting
    obtain ⟨answer, cursor, hrun, hmoved, hbare⟩ := hruns hnesting
    -- all tokens are read, so nothing is left to complain about
    have hend : cursor.rest = [] := by simpa [Cursor.atStart] using hmoved.rest
    have hprogram := Parser.runs_program.mpr ⟨answer, hrun, hend, rfl⟩
    refine ⟨_, ?_, hbare answer.span⟩
    rw [parse_eq, hprogram]
  · intro hnesting
    obtain ⟨span, hfail⟩ := hfails (Nat.not_le_of_lt hnesting)
    -- the refusal comes before the program looks for its end
    have hprogram : Parser.Fails Parser.program (.atStart tokens) ⟨.nestingExceeded, span⟩ :=
      Parser.fails_bind.mpr (.inl hfail)
    refine ⟨span, ?_⟩
    rw [parse_eq, hprogram]
    rfl

/-- A conditional with both branches is a derivation and comes back from its tokens. -/
theorem parse_complete_branches :
    let tokens := [.ifKeyword, .leftParen, .trueKeyword, .rightParen, .leftBrace, .rightBrace,
      .elseKeyword, .leftBrace, .rightBrace].map TokenKind.token
    ∃ tree : Node, tree.IsDerivation ∧ tree.NearestElse ∧
      tokens.map Token.content = tree.print ∧ tree.nesting ≤ nestingLimit ∧
      ∃ tree', parse tokens = .ok tree' ∧ tree'.bare = tree.bare := by
  intro tokens
  obtain ⟨tree, hparse⟩ : ∃ tree, parse tokens = .ok tree :=
    ⟨_, (parse_eq tokens).trans rfl⟩
  obtain ⟨hderives, hnearest, hnesting⟩ := parse_ok hparse
  have hspelled : ∀ token ∈ tokens, token.Spelled := TokenKind.spelled_token (by decide)
  have hderivation := hderives.isDerivation hspelled
  have hprint := (hderives.print hspelled).symm
  exact ⟨tree, hderivation, hnearest, hprint, hnesting,
    (parse_complete hderivation hnearest hprint).1 hnesting⟩

end Census
