import Census.Proofs.Parse.Cursor
import Census.Proofs.Tree.Nodes

/-!
# Tokens without places

A parser decides by the kinds of tokens and keeps their texts. Where they stand it only hands on to
the nodes and to its refusals. So it does with tokens that have no places what it does with tokens
that have, and the tree and the refusal are those without places.

- `Token.bare`, `Cursor.bare`, `ParseError.bare`: what is left without places.
- `Parser.Mirrors`: a parser that does without places what another one does with them. There is a
  lemma for each reader.
- `Parser.program_bares`: the reader of programs does.
-/

namespace Census

/-- The token without its place. -/
def Token.bare (token : Token) : Token := { token with span := {} }

/-- The cursor among tokens without places. -/
def Cursor.bare (cursor : Cursor) : Cursor :=
  ⟨cursor.previous.map Token.bare, cursor.rest.map Token.bare⟩

/-- The refusal without its place. -/
def ParseError.bare (error : ParseError) : ParseError := { error with span := {} }

@[simp] theorem Node.span_bare (node : Node) : node.bare.span = {} := by
  obtain ⟨kind, children, span⟩ := node
  rw [bare_mk]

namespace Cursor

@[simp] theorem span_bare (cursor : Cursor) : cursor.bare.span = {} := by
  obtain ⟨_ | _, _ | _⟩ := cursor <;> rfl

/-- Whichever token the span is taken from, it has none. -/
@[simp] theorem previousSpan_bare (cursor : Cursor) : cursor.bare.previousSpan = {} := by
  obtain ⟨_ | _, _ | _⟩ := cursor <;> rfl

/-- What comes next is told by its text. -/
@[simp] theorem found_bare (cursor : Cursor) : cursor.bare.found = cursor.found := by
  obtain ⟨_, _ | _⟩ := cursor <;> rfl

end Cursor

namespace Parser

variable {α β α' β' : Type}

/-- Among tokens without places, the second parser ends as the first one does among tokens with
places; the answer is the image of the other one. -/
def Mirrors (image : α → α') (parser : Parser α) (parser' : Parser α') : Prop :=
  ∀ cursor : Cursor, parser' cursor.bare
    = ((parser cursor).map fun (answer, cursor') => (image answer, cursor'.bare)).mapError
      ParseError.bare

/-! ## Steps -/

section Steps

variable {image : α → α'} {kinds : List TokenKind} {kind : TokenKind}

/-- Without reading, it is up to the answer alone. -/
theorem mirrors_pure {answer : α} {answer' : α'} (h : answer' = image answer) :
    Mirrors image (pure answer) (pure answer') := by
  subst h
  exact fun _ => rfl

/-- The second of two parsers in a row starts where the first one ends. -/
theorem Mirrors.bind {image' : β → β'} {parser : Parser α} {parser' : Parser α'}
    {next : α → Parser β} {next' : α' → Parser β'} (h : Mirrors image parser parser')
    (hnext : ∀ answer, Mirrors image' (next answer) (next' (image answer))) :
    Mirrors image' (parser >>= next) (parser' >>= next') := by
  intro cursor
  show (parser' cursor.bare >>= fun step => next' step.1 step.2)
    = ((parser cursor >>= fun step => next step.1 step.2).map _).mapError _
  rw [h cursor]
  rcases parser cursor with error | ⟨answer, between⟩
  · rfl
  · exact hnext answer between

/-- A refusal tells the text of the next token and loses its place. -/
theorem mirrors_refuse {what : Expectation} : Mirrors image (refuse what) (refuse what) := by
  intro cursor
  simp only [refuse, Cursor.found_bare, Cursor.span_bare]
  rfl

theorem mirrors_refuseNesting : Mirrors image refuseNesting refuseNesting := by
  intro cursor
  simp only [refuseNesting, Cursor.span_bare]
  rfl

/-- Whether tokens are left does not depend on their places. -/
theorem mirrors_finish : Mirrors id finish finish := by
  -- there is a token left or none, with or without its place
  rintro ⟨previous, _ | ⟨token, rest⟩⟩ <;> rfl

/-- Places are asked for, and what is answered has none. -/
theorem mirrors_nextSpan : Mirrors (fun _ => {}) nextSpan nextSpan := by
  intro cursor
  show Except.ok (cursor.bare.span, cursor.bare) = _
  rw [Cursor.span_bare]
  rfl

theorem mirrors_previousSpan : Mirrors (fun _ => {}) previousSpan previousSpan := by
  intro cursor
  show Except.ok (cursor.bare.previousSpan, cursor.bare) = _
  rw [Cursor.previousSpan_bare]
  rfl

theorem mirrors_nextKind? : Mirrors id nextKind? nextKind? := by
  rintro ⟨_, _ | _⟩ <;> rfl

theorem mirrors_remaining : Mirrors id remaining remaining := by
  intro cursor
  show Except.ok (cursor.bare.rest.length, cursor.bare) = _
  rw [Cursor.bare, List.length_map]
  rfl

/-- A token is accepted for its kind. -/
theorem mirrors_accept? : Mirrors (Option.map Token.bare) (accept? kinds) (accept? kinds) := by
  rintro ⟨previous, _ | ⟨token, rest⟩⟩
  · rfl
  · -- the token is of the same kind without its place
    show (if token.kind ∈ kinds then _ else _)
      = ((if token.kind ∈ kinds then _ else _ : Except _ _).map _).mapError _
    split <;> rfl

/-- A run ends at the same token, for its kind. -/
theorem mirrors_acceptRun :
    Mirrors (List.map Token.bare) (acceptRun kinds) (acceptRun kinds) := by
  rintro ⟨previous, rest⟩
  have hrun : (rest.map Token.bare).takeWhile (fun token => decide (token.kind ∈ kinds))
      = (rest.takeWhile fun token => decide (token.kind ∈ kinds)).map Token.bare := by
    rw [List.takeWhile_map]
    rfl
  simp only [acceptRun_eq, Cursor.bare, hrun, List.length_map, List.getLast?_map, ← List.map_drop,
    ← Option.map_or]
  rfl

theorem mirrors_expect : Mirrors Token.bare (expect kind) (expect kind) := by
  refine mirrors_accept?.bind fun token? => ?_
  cases token? with
  | none => exact mirrors_refuse
  | some token => exact mirrors_pure rfl

/-- An identifier keeps the text of its token as its name. -/
theorem mirrors_identifier : Mirrors Node.bare identifier identifier := by
  refine mirrors_accept?.bind fun token? => ?_
  cases token? with
  | none => exact mirrors_refuse
  | some token => exact mirrors_pure rfl

end Steps

/-! ## Expressions -/

/-- The reader makes the bare trees of tokens without places. -/
abbrev Bares (parser : Parser Node) : Prop := Mirrors Node.bare parser parser

variable {inner operand statement expression : Parser Node} {kinds : List TokenKind}

/-- Each of the five kinds of tokens that start a value makes the same node, up to its span. -/
theorem value_bares (hinner : Bares inner) : Bares (value inner) := by
  refine mirrors_nextSpan.bind fun start => ?_
  have hfinish (content : Node) : Mirrors Node.bare
      (do return ⟨.value, [content], start.merge (← previousSpan)⟩)
      (do return ⟨.value, [content.bare], Span.merge {} (← previousSpan)⟩) :=
    mirrors_previousSpan.bind fun stop => mirrors_pure (by simp [Node.bare_mk])
  refine mirrors_accept?.bind fun token? => ?_
  cases token? with
  | none => exact mirrors_refuse.bind hfinish
  | some token =>
    have hliteral (kind : NodeKind) :
        Mirrors Node.bare (pure (literal kind token)) (pure (literal kind token.bare)) :=
      mirrors_pure rfl
    dsimp only [Option.map_some, Token.bare]
    split
    · exact (hliteral _).bind hfinish
    · exact (hliteral _).bind hfinish
    · exact (hliteral _).bind hfinish
    · exact (hliteral _).bind hfinish
    · exact hinner.bind fun content => mirrors_expect.bind fun _ =>
        (mirrors_pure rfl).bind hfinish

/-- The operators of a node are the texts of its tokens, and spans without places merge to one
without a place. -/
theorem stacked_bares {kind : List String → NodeKind} (hoperand : Bares operand) :
    Bares (stacked kinds kind operand) := by
  refine mirrors_nextSpan.bind fun start => mirrors_acceptRun.bind fun run =>
    hoperand.bind fun content => mirrors_pure ?_
  have htexts : (run.map Token.bare).map Token.text = run.map Token.text := by
    simp [Token.bare]
  rw [Node.bare_mk, htexts, Node.span_bare, Span.merge_self, ite_self, List.map_singleton]

/-- By induction on the fuel: the operator of a link is a text, and its operand has no span. -/
theorem links_mirrors (hoperand : Bares operand) (fuel : Nat) :
    Mirrors (List.map (Prod.map id Node.bare)) (links kinds operand fuel)
      (links kinds operand fuel) := by
  induction fuel with
  | zero => exact mirrors_pure rfl
  | succ fuel ih =>
    rw [links_succ]
    refine mirrors_accept?.bind fun token? => ?_
    cases token? with
    | none => exact mirrors_pure rfl
    | some operator =>
      exact hoperand.bind fun content => ih.bind fun others => mirrors_pure rfl

/-- A chain has the operators and operands of its links; its span is merged from two that have no
place. -/
theorem chain_bares {kind : List String → NodeKind} (hoperand : Bares operand) :
    Bares (chain kinds kind operand) := by
  have hlinks : Mirrors (List.map (Prod.map id Node.bare)) (repeated (nextLink kinds operand))
      (repeated (nextLink kinds operand)) :=
    mirrors_remaining.bind fun count => links_mirrors hoperand count
  refine hoperand.bind fun first => hlinks.bind fun others => mirrors_pure ?_
  have htrees : (others.map (Prod.map id Node.bare)).map Prod.snd
      = (others.map Prod.snd).map Node.bare := by
    simp
  have hlast : ((others.map Prod.snd).map Node.bare).getLastD first.bare
      = ((others.map Prod.snd).getLastD first).bare := by
    rw [List.getLastD_eq_getLast?, List.getLastD_eq_getLast?, List.getLast?_map, Option.getD_map]
  have htexts : (others.map (Prod.map id Node.bare)).map Prod.fst = others.map Prod.fst := by
    simp
  rw [Node.bare_mk, htrees, hlast, htexts, Node.span_bare, Node.span_bare, Span.merge_self,
    List.map_cons]

/-- The operator of a comparison is the text of its token. -/
theorem comparison_bares (hoperand : Bares operand) : Bares (comparison operand) := by
  refine hoperand.bind fun left => mirrors_accept?.bind fun token? => ?_
  cases token? with
  | none => exact mirrors_pure (by simp [Node.bare_mk])
  | some operator =>
    exact hoperand.bind fun right => mirrors_pure (by simp [Node.bare_mk, Token.bare])

/-- The ladder of levels. -/
theorem expressionOver_bares (hinner : Bares inner) : Bares (expressionOver inner) := by
  have hsigned : Bares (signed inner) := stacked_bares (stacked_bares (value_bares hinner))
  have hlogical : Bares (logical inner) :=
    chain_bares (comparison_bares (chain_bares (chain_bares hsigned)))
  exact hlogical.bind fun content => mirrors_pure (by simp [Node.bare_mk])

/-- By induction on the levels that parentheses are nested in. At the limit both readers refuse. -/
theorem expression_bares (levels : Nat) : Bares (Parser.expression levels) := by
  induction levels with
  | zero => exact expressionOver_bares mirrors_refuseNesting
  | succ levels ih => exact expressionOver_bares ih

/-! ## Declarations and assignments -/

/-- A declaration knows its keyword by the text. -/
theorem declared_bares {kind : String → NodeKind} (keyword : Token) :
    Mirrors Node.bare (declared kind keyword) (declared kind keyword.bare) :=
  mirrors_identifier.bind fun target => mirrors_pure (by simp [Node.bare_mk, Token.bare])

theorem scalarDeclaration_bares : Bares scalarDeclaration := by
  refine mirrors_accept?.bind fun token? => ?_
  cases token? with
  | none => exact mirrors_refuse
  | some keyword => exact declared_bares keyword

theorem declaration_bares : Bares declaration := by
  have hfinish (content : Node) : Mirrors Node.bare
      (pure ⟨.declaration, [content], content.span⟩)
      (pure ⟨.declaration, [content.bare], content.bare.span⟩) :=
    mirrors_pure (by simp [Node.bare_mk])
  refine mirrors_accept?.bind fun token? => ?_
  cases token? with
  | none => exact scalarDeclaration_bares.bind hfinish
  | some keyword => exact (declared_bares keyword).bind hfinish

theorem assignment_bares (hexpression : Bares expression) : Bares (assignment expression) :=
  mirrors_identifier.bind fun target => mirrors_expect.bind fun _ =>
    hexpression.bind fun content => mirrors_pure (by simp [Node.bare_mk])

/-! ## Statements -/

theorem condition_bares (hexpression : Bares expression) : Bares (condition expression) :=
  mirrors_expect.bind fun _ => hexpression.bind fun _ =>
    mirrors_expect.bind fun _ => mirrors_pure rfl

/-- By induction on the fuel: a row of statements ends before a closing brace or at the end. -/
theorem statements_mirrors (hstatement : Bares statement) (fuel : Nat) :
    Mirrors (List.map Node.bare) (statements statement fuel) (statements statement fuel) := by
  induction fuel with
  | zero => exact mirrors_pure rfl
  | succ fuel ih =>
    rw [statements_succ]
    refine mirrors_nextKind?.bind fun kind? => ?_
    dsimp only [id]
    split
    · exact mirrors_pure rfl
    · exact mirrors_pure rfl
    · exact hstatement.bind fun first => ih.bind fun others => mirrors_pure rfl

/-- Whether a block has statements decides only where its span comes from. -/
theorem block_bares (hstatement : Bares statement) : Bares (block statement) := by
  have hparts : Mirrors (List.map Node.bare) (repeated (nextStatement statement))
      (repeated (nextStatement statement)) :=
    mirrors_remaining.bind fun count => statements_mirrors hstatement count
  refine mirrors_nextSpan.bind fun start => hparts.bind fun parts => mirrors_pure ?_
  rw [Node.bare_mk, List.head?_map, List.getLast?_map]
  cases parts.head? with
  | none => rfl
  | some first =>
    cases parts.getLast? with
    | none => rfl
    | some last => simp

/-- An `else` is seen by its kind, so it belongs to the same conditional. -/
theorem conditional_bares (hstatement : Bares statement) (hexpression : Bares expression) :
    Bares (conditional statement expression) := by
  refine mirrors_expect.bind fun start => (condition_bares hexpression).bind fun test =>
    hstatement.bind fun branch => ?_
  have hfinish (others : List Node) : Mirrors Node.bare
      (do return ⟨.conditional, test :: branch :: others, start.span.merge (← previousSpan)⟩)
      (do return ⟨.conditional, test.bare :: branch.bare :: others.map Node.bare,
        start.bare.span.merge (← previousSpan)⟩) :=
    mirrors_previousSpan.bind fun stop => mirrors_pure (by simp [Node.bare_mk, Token.bare])
  refine mirrors_accept?.bind fun token? => ?_
  cases token? with
  | none =>
    have hnone : Mirrors (List.map Node.bare) (pure []) (pure []) := mirrors_pure rfl
    exact hnone.bind hfinish
  | some _ => exact hstatement.bind fun otherwise => (mirrors_pure rfl).bind hfinish

theorem whileLoop_bares (hstatement : Bares statement) (hexpression : Bares expression) :
    Bares (whileLoop statement expression) :=
  mirrors_expect.bind fun start => (condition_bares hexpression).bind fun test =>
    hstatement.bind fun body => mirrors_pure (by simp [Node.bare_mk, Token.bare])

theorem forLoop_bares (hstatement : Bares statement) (hexpression : Bares expression) :
    Bares (forLoop statement expression) :=
  mirrors_expect.bind fun start => mirrors_expect.bind fun _ =>
    (assignment_bares hexpression).bind fun first => mirrors_expect.bind fun _ =>
    hexpression.bind fun test => mirrors_expect.bind fun _ =>
    (assignment_bares hexpression).bind fun step => mirrors_expect.bind fun _ =>
    hstatement.bind fun body => mirrors_pure (by simp [Node.bare_mk, Token.bare])

theorem foreachLoop_bares (hstatement : Bares statement) : Bares (foreachLoop statement) :=
  mirrors_expect.bind fun start => mirrors_expect.bind fun _ =>
    scalarDeclaration_bares.bind fun element => mirrors_expect.bind fun _ =>
    mirrors_identifier.bind fun array => mirrors_expect.bind fun _ =>
    hstatement.bind fun body => mirrors_pure (by simp [Node.bare_mk, Token.bare])

theorem closed_bares {close : TokenKind} (hinner : Bares inner) : Bares (closed close inner) :=
  hinner.bind fun _ => mirrors_expect.bind fun _ => mirrors_pure rfl

/-- The kind of the first token chooses the construct. -/
theorem statementBody_bares (hstatement : Bares statement) (hexpression : Bares expression) :
    Bares (statementBody statement expression) := by
  refine mirrors_nextKind?.bind fun kind? => ?_
  dsimp only [id]
  -- one case for each first token a statement can have
  split
  · exact conditional_bares hstatement hexpression
  · exact whileLoop_bares hstatement hexpression
  · exact forLoop_bares hstatement hexpression
  · exact foreachLoop_bares hstatement
  · exact mirrors_expect.bind fun _ => closed_bares (block_bares hstatement)
  · exact closed_bares declaration_bares
  · exact closed_bares declaration_bares
  · exact closed_bares declaration_bares
  · exact closed_bares declaration_bares
  · exact closed_bares (assignment_bares hexpression)
  · exact mirrors_refuse

/-- What stands around a statement's construct is its span alone. -/
theorem statementOver_bares (hstatement : Bares statement) (hexpression : Bares expression) :
    Bares (statementOver statement expression) :=
  mirrors_nextSpan.bind fun start =>
  (statementBody_bares hstatement hexpression).bind fun content =>
    mirrors_previousSpan.bind fun stop => mirrors_pure (by simp [Node.bare_mk])

/-- By induction on the levels that statements are nested in. -/
theorem statement_bares (levels : Nat) : Bares (Parser.statement levels) := by
  induction levels with
  | zero => exact mirrors_refuseNesting
  | succ levels ih => exact statementOver_bares ih (expression_bares levels)

/-- Programs are read to their end in both rows of tokens. -/
theorem program_bares : Bares program := by
  refine (block_bares (statement_bares _)).bind fun content => mirrors_finish.bind fun _ => ?_
  exact mirrors_pure (by simp [Node.bare_mk])

end Parser

end Census
