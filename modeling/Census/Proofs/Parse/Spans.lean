import Census.Proofs.Parse.Following
import Census.Proofs.Tree.Nodes

/-!
# Spans that parsers make

A parser points at nothing but the tokens that it is given. The nodes of its trees reach over some
of them or lie at the end of one, and where it refuses, it points at the next token or behind the
last one.

- `Span.MadeOf`: the spans that are made of tokens.
- `Cursor.Within`: the cursors that stand between tokens.
- `Parser.Stays`: a parser that stays within the tokens, whether it answers or refuses. There is a
  lemma for each reader, which only asks that the readers inside it stay there.
- `parse_madeOf`, `exists_within_of_parse`: the trees and the refusals of programs.
-/

namespace Census

/-- The spans that are made of tokens: theirs, the empty ones at their ends, and hulls. -/
inductive Span.MadeOf (tokens : List Token) : Span → Prop where
  | token {token : Token} (htoken : token ∈ tokens) : MadeOf tokens token.span
  | before {token : Token} (htoken : token ∈ tokens) : MadeOf tokens (.emptyAt token.span.start)
  | behind {token : Token} (htoken : token ∈ tokens) : MadeOf tokens (.emptyAt token.span.stop)
  | merge {span span' : Span} (h : MadeOf tokens span) (h' : MadeOf tokens span') :
      MadeOf tokens (span.merge span')

/-- All nodes of the tree have spans that are made of tokens. -/
def Node.MadeOf (tokens : List Token) (tree : Node) : Prop :=
  ∀ node ∈ tree.nodes, node.span.MadeOf tokens

/-- The cursor stands somewhere between the tokens. -/
def Cursor.Within (tokens : List Token) (cursor : Cursor) : Prop :=
  ∃ front, (atStart tokens).Advances front cursor

variable {tokens front : List Token} {cursor cursor' : Cursor} {token : Token}

namespace Node

/-- A tree is made of tokens if its own span and its parts are. -/
theorem MadeOf.mk {kind : NodeKind} {children : List Node} {span : Span}
    (hspan : span.MadeOf tokens) (hchildren : ∀ child ∈ children, child.MadeOf tokens) :
    MadeOf tokens ⟨kind, children, span⟩ := by
  intro node hnode
  rcases mem_nodes_iff.mp hnode with rfl | ⟨child, hchild, hbelow⟩
  · exact hspan
  · exact hchildren child hchild node hbelow

theorem MadeOf.span {tree : Node} (h : tree.MadeOf tokens) : tree.span.MadeOf tokens :=
  h tree tree.self_mem_nodes

end Node

namespace Cursor.Within

/-- A reader that goes forward stays within the tokens. -/
theorem advance (h : cursor.Within tokens) (hmoved : cursor.Advances front cursor') :
    cursor'.Within tokens := by
  obtain ⟨before, hbefore⟩ := h
  exact ⟨before ++ front, hbefore.trans hmoved⟩

/-- The token that is read is one of all tokens. -/
theorem mem_of_advances (h : cursor.Within tokens) (hone : cursor.Advances [token] cursor') :
    token ∈ tokens := by
  obtain ⟨before, hbefore⟩ := h
  have htokens : tokens = before ++ cursor.rest := hbefore.rest
  rw [htokens, hone.rest]
  simp

/-- There is a token in front of a cursor, or one behind it. -/
theorem cases (h : cursor.Within tokens) (hsome : tokens ≠ []) :
    (∃ token ∈ tokens, ∃ others, cursor.rest = token :: others) ∨
      cursor.rest = [] ∧ ∃ token ∈ tokens, cursor.previous = some token := by
  obtain ⟨before, hrest, hprevious⟩ := h
  have htokens : tokens = before ++ cursor.rest := hrest
  cases hnext : cursor.rest with
  | cons token others => exact .inl ⟨token, by simp [htokens, hnext], others, rfl⟩
  | nil =>
    obtain rfl : tokens = before := by simpa [hnext] using htokens
    obtain ⟨last, hlast⟩ : ∃ last, tokens.getLast? = some last :=
      ⟨_, List.getLast?_eq_some_getLast hsome⟩
    exact .inr ⟨rfl, last, List.mem_of_getLast? hlast, by rw [hprevious, hlast]; rfl⟩

/-- The span at a cursor comes from the next token, or from the last one where none is left. Only a
row without tokens has none to take it from. -/
theorem span_madeOf (h : cursor.Within tokens) (hsome : tokens ≠ []) :
    cursor.span.MadeOf tokens ∧ Span.MadeOf tokens (.emptyAt cursor.span.start) := by
  unfold Cursor.span
  rcases h.cases hsome with ⟨token, htoken, others, hrest⟩ | ⟨hrest, token, htoken, hprevious⟩
  · rw [hrest]
    exact ⟨.token htoken, .before htoken⟩
  · rw [hrest, hprevious]
    exact ⟨.behind htoken, .behind htoken⟩

/-- The span before a cursor comes from the token just read, or from the next one at the start. -/
theorem previousSpan_madeOf (h : cursor.Within tokens) (hsome : tokens ≠ []) :
    cursor.previousSpan.MadeOf tokens := by
  obtain ⟨before, hrest, hprevious⟩ := id h
  unfold Cursor.previousSpan
  cases hlast : before.getLast? with
  | none =>
    rw [hprevious, hlast]
    exact (h.span_madeOf hsome).1
  | some token =>
    rw [hprevious, hlast]
    have htokens : tokens = before ++ cursor.rest := hrest
    exact .token (htokens ▸ List.mem_append_left _ (List.mem_of_getLast? hlast))

end Cursor.Within

namespace Parser

variable {α β : Type}

/-- Between the tokens the parser only moves to other cursors between them. What it answers is as
told, and where it refuses, it points at what is next to such a cursor. -/
structure Stays (tokens : List Token) (parser : Parser α) (answers : α → Prop) : Prop where
  runs : ∀ ⦃cursor answer cursor'⦄, cursor.Within tokens → Runs parser cursor answer cursor' →
    cursor'.Within tokens ∧ answers answer
  fails : ∀ ⦃cursor error⦄, cursor.Within tokens → Fails parser cursor error →
    ∃ cursor' : Cursor, cursor'.Within tokens ∧ error.span = cursor'.span

/-! ## Steps -/

section Steps

variable {answers : α → Prop} {kinds : List TokenKind} {kind : TokenKind}

/-- An answer without reading has to be good already. -/
theorem stays_pure {answer : α} (h : answers answer) : Stays tokens (pure answer) answers := by
  refine ⟨fun cursor answer' cursor' hwithin hrun => ?_, fun _ _ _ hfail => by cases hfail⟩
  obtain ⟨rfl, rfl⟩ := runs_pure.mp hrun
  exact ⟨hwithin, h⟩

/-- The second of two parsers in a row starts where the first one ends. -/
theorem Stays.bind {parser : Parser α} {next : α → Parser β} {answers' : β → Prop}
    (h : Stays tokens parser answers)
    (hnext : ∀ answer, answers answer → Stays tokens (next answer) answers') :
    Stays tokens (parser >>= next) answers' := by
  refine ⟨fun cursor answer cursor' hwithin hrun => ?_, fun cursor error hwithin hfail => ?_⟩
  · obtain ⟨first, between, hfirst, hrest⟩ := runs_bind.mp hrun
    obtain ⟨hbetween, hanswer⟩ := h.runs hwithin hfirst
    exact (hnext first hanswer).runs hbetween hrest
  · rcases fails_bind.mp hfail with hfirst | ⟨first, between, hfirst, hrest⟩
    · exact h.fails hwithin hfirst
    · obtain ⟨hbetween, hanswer⟩ := h.runs hwithin hfirst
      exact (hnext first hanswer).fails hbetween hrest

/-- A refusal points at the next token. -/
theorem stays_refuse {what : Expectation} : Stays tokens (refuse what) answers := by
  refine ⟨fun cursor answer cursor' _ hrun => absurd hrun not_runs_refuse, ?_⟩
  rintro cursor error hwithin ⟨⟩
  exact ⟨cursor, hwithin, rfl⟩

theorem stays_refuseNesting : Stays tokens refuseNesting answers := by
  refine ⟨fun cursor answer cursor' _ hrun => absurd hrun not_runs_refuseNesting, ?_⟩
  rintro cursor error hwithin ⟨⟩
  exact ⟨cursor, hwithin, rfl⟩

theorem stays_finish : Stays tokens finish fun _ => True := by
  refine ⟨fun cursor answer cursor' hwithin hrun => ?_, fun cursor error hwithin hfail => ?_⟩
  · obtain ⟨-, rfl⟩ := runs_finish.mp hrun
    exact ⟨hwithin, trivial⟩
  · obtain ⟨-, rfl⟩ := fails_finish.mp hfail
    exact ⟨cursor, hwithin, rfl⟩

/-- Both the span of what comes next and the empty span at its start may be handed on. -/
theorem stays_nextSpan (hsome : tokens ≠ []) : Stays tokens nextSpan fun span =>
    span.MadeOf tokens ∧ Span.MadeOf tokens (.emptyAt span.start) := by
  refine ⟨fun cursor span cursor' hwithin hrun => ?_, fun _ _ _ hfail => by cases hfail⟩
  obtain ⟨rfl, rfl⟩ := runs_nextSpan.mp hrun
  exact ⟨hwithin, hwithin.span_madeOf hsome⟩

theorem stays_previousSpan (hsome : tokens ≠ []) :
    Stays tokens previousSpan (Span.MadeOf tokens) := by
  refine ⟨fun cursor span cursor' hwithin hrun => ?_, fun _ _ _ hfail => by cases hfail⟩
  obtain ⟨rfl, rfl⟩ := runs_previousSpan.mp hrun
  exact ⟨hwithin, hwithin.previousSpan_madeOf hsome⟩

theorem stays_nextKind? : Stays tokens nextKind? fun _ => True := by
  refine ⟨fun cursor kind? cursor' hwithin hrun => ?_, fun _ _ _ hfail => by cases hfail⟩
  obtain ⟨-, rfl⟩ := runs_nextKind?.mp hrun
  exact ⟨hwithin, trivial⟩

theorem stays_remaining : Stays tokens remaining fun _ => True := by
  refine ⟨fun cursor count cursor' hwithin hrun => ?_, fun _ _ _ hfail => by cases hfail⟩
  obtain ⟨-, rfl⟩ := runs_remaining.mp hrun
  exact ⟨hwithin, trivial⟩

/-- A token that is accepted is one of the tokens, and so its span may be handed on. -/
theorem stays_accept? :
    Stays tokens (accept? kinds) fun token? => ∀ token ∈ token?, token ∈ tokens := by
  refine ⟨fun cursor token? cursor' hwithin hrun => ?_,
    fun _ _ _ hfail => absurd hfail not_fails_accept?⟩
  cases token? with
  | none =>
    obtain ⟨-, rfl⟩ := runs_accept?_none.mp hrun
    exact ⟨hwithin, by simp⟩
  | some token =>
    obtain ⟨-, hone⟩ := runs_accept?_some.mp hrun
    refine ⟨hwithin.advance hone, fun token' htoken' => ?_⟩
    obtain rfl := Option.some.inj htoken'
    exact hwithin.mem_of_advances hone

theorem stays_acceptRun : Stays tokens (acceptRun kinds) fun _ => True := by
  refine ⟨fun cursor run cursor' hwithin hrun => ?_,
    fun _ _ _ hfail => absurd hfail not_fails_acceptRun⟩
  obtain ⟨hmoved, -⟩ := runs_acceptRun.mp hrun
  exact ⟨hwithin.advance hmoved, trivial⟩

theorem stays_expect : Stays tokens (expect kind) (· ∈ tokens) := by
  refine stays_accept?.bind fun token? htoken => ?_
  cases token? with
  | none => exact stays_refuse
  | some token => exact stays_pure (htoken token rfl)

/-- An identifier has the span of its token. -/
theorem stays_identifier : Stays tokens identifier (Node.MadeOf tokens) := by
  refine stays_accept?.bind fun token? htoken => ?_
  cases token? with
  | none => exact stays_refuse
  | some token => exact stays_pure (.mk (.token (htoken token rfl)) (by simp))

end Steps

/-! ## Expressions -/

/-- The trees of the reader are made of tokens. -/
abbrev Makes (tokens : List Token) (parser : Parser Node) : Prop :=
  Stays tokens parser (Node.MadeOf tokens)

variable {inner operand statement expression : Parser Node} {kinds : List TokenKind}

/-- A value reaches from its first token to its last one, parentheses included. -/
theorem value_makes (hsome : tokens ≠ []) (hinner : Makes tokens inner) :
    Makes tokens (value inner) := by
  refine (stays_nextSpan hsome).bind fun start hstart => ?_
  have hfinish (content : Node) (hcontent : content.MadeOf tokens) : Makes tokens (do
      return ⟨.value, [content], start.merge (← previousSpan)⟩) :=
    (stays_previousSpan hsome).bind fun stop hstop =>
      stays_pure (.mk (hstart.1.merge hstop) (by simpa using hcontent))
  refine stays_accept?.bind fun token? htoken => ?_
  cases token? with
  | none => exact stays_refuse.bind hfinish
  | some token =>
    have hliteral (kind : NodeKind) : (literal kind token).MadeOf tokens :=
      Node.MadeOf.mk (.token (htoken token rfl)) (by simp)
    dsimp only
    split
    · exact (stays_pure (hliteral _)).bind hfinish
    · exact (stays_pure (hliteral _)).bind hfinish
    · exact (stays_pure (hliteral _)).bind hfinish
    · exact (stays_pure (hliteral _)).bind hfinish
    · exact hinner.bind fun content hcontent => stays_expect.bind fun _ _ =>
        (stays_pure hcontent).bind hfinish

/-- Stacked operators start the span, and without any it is that of the operand. -/
theorem stacked_makes {kind : List String → NodeKind} (hsome : tokens ≠ [])
    (hoperand : Makes tokens operand) : Makes tokens (stacked kinds kind operand) := by
  refine (stays_nextSpan hsome).bind fun start hstart => stays_acceptRun.bind fun run _ =>
    hoperand.bind fun content hcontent => stays_pure (.mk ?_ (by simpa))
  split
  · exact hcontent.span
  · exact hstart.1.merge hcontent.span

/-- By induction on the fuel: each round adds one operand. -/
theorem links_makes (hoperand : Makes tokens operand) (fuel : Nat) :
    Stays tokens (links kinds operand fuel) fun pairs =>
      ∀ pair ∈ pairs, pair.2.MadeOf tokens := by
  induction fuel with
  | zero => exact stays_pure (by simp)
  | succ fuel ih =>
    rw [links_succ]
    refine stays_accept?.bind fun token? _ => ?_
    cases token? with
    | none => exact stays_pure (by simp)
    | some operator =>
      exact hoperand.bind fun content hcontent => ih.bind fun others hothers =>
        stays_pure (List.forall_mem_cons.mpr ⟨hcontent, hothers⟩)

/-- A chain reaches from its first operand to its last one. -/
theorem chain_makes {kind : List String → NodeKind} (hoperand : Makes tokens operand) :
    Makes tokens (chain kinds kind operand) := by
  have hlinks : Stays tokens (repeated (nextLink kinds operand)) fun pairs =>
      ∀ pair ∈ pairs, pair.2.MadeOf tokens :=
    stays_remaining.bind fun count _ => links_makes hoperand count
  refine hoperand.bind fun first hfirst => hlinks.bind fun others hothers => stays_pure ?_
  have hoperands : ∀ tree ∈ others.map Prod.snd, tree.MadeOf tokens := by
    simpa only [List.forall_mem_map] using hothers
  refine Node.MadeOf.mk (hfirst.span.merge ?_) (List.forall_mem_cons.mpr ⟨hfirst, hoperands⟩)
  rw [List.getLastD_eq_getLast?]
  cases hlast : (others.map Prod.snd).getLast? with
  | none => exact hfirst.span
  | some last => exact (hoperands last (List.mem_of_getLast? hlast)).span

theorem comparison_makes (hoperand : Makes tokens operand) : Makes tokens (comparison operand) := by
  refine hoperand.bind fun left hleft => stays_accept?.bind fun token? _ => ?_
  cases token? with
  | none => exact stays_pure (.mk hleft.span (by simpa))
  | some operator =>
    exact hoperand.bind fun right hright =>
      stays_pure (.mk (hleft.span.merge hright.span) (by simp [hleft, hright]))

/-- The ladder of levels. -/
theorem expressionOver_makes (hsome : tokens ≠ []) (hinner : Makes tokens inner) :
    Makes tokens (expressionOver inner) := by
  have hsigned : Makes tokens (signed inner) :=
    stacked_makes hsome (stacked_makes hsome (value_makes hsome hinner))
  have hlogical : Makes tokens (logical inner) :=
    chain_makes (comparison_makes (chain_makes (chain_makes hsigned)))
  exact hlogical.bind fun content hcontent =>
    stays_pure (.mk hcontent.span (by simpa))

/-- By induction on the levels that parentheses are nested in. -/
theorem expression_makes (hsome : tokens ≠ []) (levels : Nat) :
    Makes tokens (Parser.expression levels) := by
  induction levels with
  | zero => exact expressionOver_makes hsome stays_refuseNesting
  | succ levels ih => exact expressionOver_makes hsome ih

/-! ## Declarations and assignments -/

/-- A declaration reaches from its keyword to its identifier. -/
theorem declared_makes {kind : String → NodeKind} (htoken : token ∈ tokens) :
    Makes tokens (declared kind token) :=
  stays_identifier.bind fun target htarget =>
    stays_pure (.mk ((Span.MadeOf.token htoken).merge htarget.span) (by simpa))

theorem scalarDeclaration_makes : Makes tokens scalarDeclaration := by
  refine stays_accept?.bind fun token? htoken => ?_
  cases token? with
  | none => exact stays_refuse
  | some keyword => exact declared_makes (htoken keyword rfl)

theorem declaration_makes : Makes tokens declaration := by
  have hfinish (content : Node) (hcontent : content.MadeOf tokens) :
      Makes tokens (pure ⟨.declaration, [content], content.span⟩) :=
    stays_pure (.mk hcontent.span (by simpa))
  refine stays_accept?.bind fun token? htoken => ?_
  cases token? with
  | none => exact scalarDeclaration_makes.bind hfinish
  | some keyword => exact (declared_makes (htoken keyword rfl)).bind hfinish

theorem assignment_makes (hexpression : Makes tokens expression) :
    Makes tokens (assignment expression) := by
  refine stays_identifier.bind fun target htarget => stays_expect.bind fun _ _ => ?_
  refine hexpression.bind fun content hcontent => stays_pure (.mk ?_ ?_)
  · exact htarget.span.merge hcontent.span
  · simp [htarget, hcontent]

/-! ## Statements -/

theorem condition_makes (hexpression : Makes tokens expression) :
    Makes tokens (condition expression) :=
  stays_expect.bind fun _ _ => hexpression.bind fun _ hcontent =>
    stays_expect.bind fun _ _ => stays_pure hcontent

/-- By induction on the fuel: each round adds one statement. -/
theorem statements_makes (hstatement : Makes tokens statement) (fuel : Nat) :
    Stays tokens (statements statement fuel) fun trees => ∀ tree ∈ trees, tree.MadeOf tokens := by
  induction fuel with
  | zero => exact stays_pure (by simp)
  | succ fuel ih =>
    rw [statements_succ]
    refine stays_nextKind?.bind fun kind? _ => ?_
    split
    · exact stays_pure (by simp)
    · exact stays_pure (by simp)
    · exact hstatement.bind fun first hfirst => ih.bind fun others hothers =>
        stays_pure (List.forall_mem_cons.mpr ⟨hfirst, hothers⟩)

/-- Without statements a block has the empty span where it starts, which is one reason for asking
for tokens. -/
theorem block_makes (hsome : tokens ≠ []) (hstatement : Makes tokens statement) :
    Makes tokens (block statement) := by
  have hstatements : Stays tokens (repeated (nextStatement statement)) fun trees =>
      ∀ tree ∈ trees, tree.MadeOf tokens :=
    stays_remaining.bind fun count _ => statements_makes hstatement count
  refine (stays_nextSpan hsome).bind fun start hstart =>
    hstatements.bind fun parts hparts => stays_pure (.mk ?_ hparts)
  split
  · next first last hfirst hlast =>
    exact (hparts first (List.mem_of_head? hfirst)).span.merge
      (hparts last (List.mem_of_getLast? hlast)).span
  · exact hstart.2

/-- A conditional reaches from its keyword to the last token read, with or without `else`. -/
theorem conditional_makes (hsome : tokens ≠ []) (hstatement : Makes tokens statement)
    (hexpression : Makes tokens expression) : Makes tokens (conditional statement expression) := by
  refine stays_expect.bind fun start hstart =>
    (condition_makes hexpression).bind fun test htest => hstatement.bind fun branch hbranch => ?_
  have hfinish (others : List Node) (hothers : ∀ tree ∈ others, tree.MadeOf tokens) :
      Makes tokens (do
        return ⟨.conditional, test :: branch :: others, start.span.merge (← previousSpan)⟩) :=
    (stays_previousSpan hsome).bind fun stop hstop => stays_pure (.mk
      ((Span.MadeOf.token hstart).merge hstop) (by simpa [htest, hbranch] using hothers))
  refine stays_accept?.bind fun token? _ => ?_
  cases token? with
  | none => exact (stays_pure (by simp)).bind hfinish
  | some _ =>
    exact hstatement.bind fun otherwise hotherwise =>
      (stays_pure (List.forall_mem_singleton.mpr hotherwise)).bind hfinish

theorem whileLoop_makes (hstatement : Makes tokens statement)
    (hexpression : Makes tokens expression) : Makes tokens (whileLoop statement expression) := by
  refine stays_expect.bind fun start hstart =>
    (condition_makes hexpression).bind fun test htest => ?_
  refine hstatement.bind fun body hbody => stays_pure (.mk ?_ ?_)
  · exact (Span.MadeOf.token hstart).merge hbody.span
  · simp [htest, hbody]

theorem forLoop_makes (hstatement : Makes tokens statement)
    (hexpression : Makes tokens expression) : Makes tokens (forLoop statement expression) := by
  refine stays_expect.bind fun start hstart => stays_expect.bind fun _ _ => ?_
  refine (assignment_makes hexpression).bind fun first hfirst => stays_expect.bind fun _ _ => ?_
  refine hexpression.bind fun test htest => stays_expect.bind fun _ _ => ?_
  refine (assignment_makes hexpression).bind fun step hstep => stays_expect.bind fun _ _ => ?_
  refine hstatement.bind fun body hbody => stays_pure (.mk ?_ ?_)
  · exact (Span.MadeOf.token hstart).merge hbody.span
  · simp [hfirst, htest, hstep, hbody]

theorem foreachLoop_makes (hstatement : Makes tokens statement) :
    Makes tokens (foreachLoop statement) := by
  refine stays_expect.bind fun start hstart => stays_expect.bind fun _ _ => ?_
  refine scalarDeclaration_makes.bind fun element helement => stays_expect.bind fun _ _ => ?_
  refine stays_identifier.bind fun array harray => stays_expect.bind fun _ _ => ?_
  refine hstatement.bind fun body hbody => stays_pure (.mk ?_ ?_)
  · exact (Span.MadeOf.token hstart).merge hbody.span
  · simp [helement, harray, hbody]

/-- A token that only closes a node leaves no trace in it. -/
theorem closed_makes {close : TokenKind} (hinner : Makes tokens inner) :
    Makes tokens (closed close inner) :=
  hinner.bind fun _ hcontent => stays_expect.bind fun _ _ => stays_pure hcontent

/-- The cases are those of the first token. -/
theorem statementBody_makes (hsome : tokens ≠ []) (hstatement : Makes tokens statement)
    (hexpression : Makes tokens expression) :
    Makes tokens (statementBody statement expression) := by
  refine stays_nextKind?.bind fun kind? _ => ?_
  -- one case for each first token a statement can have
  split
  · exact conditional_makes hsome hstatement hexpression
  · exact whileLoop_makes hstatement hexpression
  · exact forLoop_makes hstatement hexpression
  · exact foreachLoop_makes hstatement
  · exact stays_expect.bind fun _ _ => closed_makes (block_makes hsome hstatement)
  · exact closed_makes declaration_makes
  · exact closed_makes declaration_makes
  · exact closed_makes declaration_makes
  · exact closed_makes declaration_makes
  · exact closed_makes (assignment_makes hexpression)
  · exact stays_refuse

theorem statementOver_makes (hsome : tokens ≠ []) (hstatement : Makes tokens statement)
    (hexpression : Makes tokens expression) :
    Makes tokens (statementOver statement expression) := by
  refine (stays_nextSpan hsome).bind fun start hstart => ?_
  refine (statementBody_makes hsome hstatement hexpression).bind fun content hcontent => ?_
  refine (stays_previousSpan hsome).bind fun stop hstop => stays_pure (.mk ?_ (by simpa))
  exact hstart.1.merge hstop

/-- By induction on the levels that statements are nested in. -/
theorem statement_makes (hsome : tokens ≠ []) (levels : Nat) :
    Makes tokens (Parser.statement levels) := by
  induction levels with
  | zero => exact stays_refuseNesting
  | succ levels ih => exact statementOver_makes hsome ih (expression_makes hsome levels)

theorem program_makes (hsome : tokens ≠ []) : Makes tokens program :=
  (block_makes hsome (statement_makes hsome _)).bind fun _ hcontent =>
    stays_finish.bind fun _ _ => stays_pure (.mk hcontent.span (by simpa))

end Parser

/-! ## Programs -/

/-- At the start all tokens are still to come. -/
theorem Cursor.within_atStart : (atStart tokens).Within tokens := ⟨[], .refl _⟩

/-- The tree of a program is made of its tokens. -/
theorem parse_madeOf {tree : Node} (hsome : tokens ≠ []) (h : parse tokens = .ok tree) :
    tree.MadeOf tokens := by
  rw [parse_eq] at h
  split at h <;> cases h
  next cursor' hrun => exact ((Parser.program_makes hsome).runs Cursor.within_atStart hrun).2

/-- What is no program is refused at a token or behind the last one. -/
theorem exists_within_of_parse {problem : Diagnostic} (h : parse tokens = .error problem) :
    tokens ≠ [] ∧ ∃ text, ∃ cursor : Cursor, cursor.Within tokens ∧
      problem = .grammatical text cursor.span := by
  have hsome : tokens ≠ [] := by
    rintro rfl
    cases h
  refine ⟨hsome, ?_⟩
  rw [parse_eq] at h
  split at h <;> cases h
  next error hfail =>
    obtain ⟨cursor, hwithin, hspan⟩ :=
      (Parser.program_makes hsome).fails Cursor.within_atStart hfail
    exact ⟨error.fault.message, cursor, hwithin, by rw [← hspan]; rfl⟩

end Census
