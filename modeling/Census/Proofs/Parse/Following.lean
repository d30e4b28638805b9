import Census.Proofs.Parse.Bookmarks

/-!
# Readers that count and readers that do not

Each reader follows itself, if the readers inside it do: that the parser counts makes no difference.
Where levels are left, what is nested follows the reader that is told so many levels fewer, and
where none are left, both refuse. With that the two ways of nesting the readers inside of each
other come to the same.

- `Reading.nested_follows`, `Reading.nested_refuses`: going one level deeper.
- `Reading.expression_follows`, `Reading.statement_follows`: the readers as they are nested.
- `parse_eq`: parsing without counting.
-/

namespace Census

open Census.Parser

namespace Reading

variable {tokens : Array Token} {depth : Nat} {cost : Node → Nat} {kinds : List TokenKind}
  {inner operand statement expression : Reading tokens Node}
  {inner' operand' statement' expression' : Parser Node}

/-! ## Expressions -/

/-- The reading does what the parser does, and every tree costs a token or more. -/
abbrev FollowsTree (depth : Nat) (reading : Reading tokens Node) (parser : Parser Node) : Prop :=
  Follows depth (fun _ => 1) reading parser

/-- Every round of a run costs the token it reads. -/
theorem follows_acceptRun :
    Follows depth List.length (acceptRun kinds : Reading tokens _) (acceptRun kinds) :=
  follows_accept?.repeated fun cursor hrest => runs_accept?_none.mpr ⟨by simp [hrest], rfl⟩

/-- A value costs the token it starts with, before anything inside it is read. -/
theorem value_follows (hinner : FollowsTree depth inner inner') :
    FollowsTree depth (value inner) (value inner') := by
  refine follows_nextSpan.bind fun start => ?_
  have hfinish (content : Node) : Follows depth (fun _ => 0)
      (do return ⟨.value, [content], start.merge (← previousSpan)⟩ : Reading tokens Node)
      (do return ⟨.value, [content], start.merge (← previousSpan)⟩) :=
    follows_previousSpan.bind fun stop => follows_pure rfl
  refine follows_accept?.bind fun token? => ?_
  cases token? with
  | none => exact follows_refuse_bind
  | some token =>
    dsimp only
    split
    · exact follows_pure_bind (hfinish _)
    · exact follows_pure_bind (hfinish _)
    · exact follows_pure_bind (hfinish _)
    · exact follows_pure_bind (hfinish _)
    · exact hinner.bind fun content => follows_expect.bind fun _ => follows_pure_bind (hfinish _)

/-- Operators may be missing, so it is the operand that pays. -/
theorem stacked_follows {kind : List String → NodeKind}
    (hoperand : FollowsTree depth operand operand') :
    FollowsTree depth (stacked kinds kind operand) (stacked kinds kind operand') :=
  follows_nextSpan.bind fun start => follows_acceptRun.bind fun run =>
    hoperand.bind fun content => follows_pure (by omega)

/-- A link costs its operator; where there is none, the round is the last one. -/
theorem nextLink_follows (hoperand : Follows depth cost operand operand') :
    Follows depth (fun link? => link?.toList.length) (nextLink kinds operand)
      (nextLink kinds operand') := by
  refine follows_accept?.bind fun token? => ?_
  cases token? with
  | none => exact follows_pure rfl
  | some operator => exact hoperand.bind fun content => follows_pure (Nat.zero_sub _)

/-- Behind all tokens no operator follows. -/
theorem runs_nextLink_of_nil (cursor : Cursor) (h : cursor.rest = []) :
    Runs (nextLink kinds operand') cursor none cursor := by
  simp [nextLink, h]

/-- Links are paid for one by one, so the rounds come to an end. -/
theorem links_follows (hoperand : Follows depth cost operand operand') :
    Follows depth List.length (repeated (nextLink kinds operand))
      (repeated (nextLink kinds operand')) :=
  (nextLink_follows hoperand).repeated runs_nextLink_of_nil

/-- The first operand pays for the chain. -/
theorem chain_follows {kind : List String → NodeKind}
    (hoperand : FollowsTree depth operand operand') :
    FollowsTree depth (chain kinds kind operand) (chain kinds kind operand') :=
  hoperand.bind fun _ => (links_follows hoperand).bind fun _ =>
    follows_pure (Nat.zero_sub _)

/-- A second operand is read only behind an operator. -/
theorem comparison_follows (hoperand : FollowsTree depth operand operand') :
    FollowsTree depth (comparison operand) (comparison operand') := by
  refine hoperand.bind fun left => follows_accept?.bind fun token? => ?_
  cases token? with
  | none => exact follows_pure rfl
  | some operator => exact hoperand.bind fun right => follows_pure rfl

theorem negation_follows (hinner : FollowsTree depth inner inner') :
    FollowsTree depth (negation inner) (negation inner') :=
  stacked_follows (value_follows hinner)

theorem signed_follows (hinner : FollowsTree depth inner inner') :
    FollowsTree depth (signed inner) (signed inner') :=
  stacked_follows (negation_follows hinner)

theorem product_follows (hinner : FollowsTree depth inner inner') :
    FollowsTree depth (product inner) (product inner') :=
  chain_follows (signed_follows hinner)

theorem sum_follows (hinner : FollowsTree depth inner inner') :
    FollowsTree depth (sum inner) (sum inner') :=
  chain_follows (product_follows hinner)

/-- The levels of operators are readers of the same few shapes. -/
theorem logical_follows (hinner : FollowsTree depth inner inner') :
    FollowsTree depth (logical inner) (logical inner') :=
  chain_follows (comparison_follows (sum_follows hinner))

theorem expressionOver_follows (hinner : FollowsTree depth inner inner') :
    FollowsTree depth (expressionOver inner) (expressionOver inner') :=
  (logical_follows hinner).bind fun _ => follows_pure rfl

/-! ## Statements -/

/-- A declared variable costs its identifier. -/
theorem declared_follows {kind : String → NodeKind} {keyword : Token} :
    FollowsTree depth (declared kind keyword : Reading tokens _) (declared kind keyword) :=
  follows_identifier.bind fun _ => follows_pure rfl

theorem scalarDeclaration_follows :
    FollowsTree depth (scalarDeclaration : Reading tokens _) scalarDeclaration := by
  refine follows_accept?.bind fun token? => ?_
  cases token? with
  | none => exact follows_refuse
  | some keyword => exact declared_follows.mono fun _ => Nat.zero_le _

/-- The keyword decides which declaration it is, and a keyword of neither kind is refused by both.
-/
theorem declaration_follows :
    FollowsTree depth (declaration : Reading tokens _) declaration := by
  refine follows_accept?.bind fun token? => ?_
  cases token? with
  | none => exact scalarDeclaration_follows.bind fun content => follows_pure rfl
  | some keyword => exact declared_follows.bind fun content => follows_pure rfl

/-- An assignment costs its target. -/
theorem assignment_follows (hexpression : FollowsTree depth expression expression') :
    FollowsTree depth (assignment expression) (assignment expression') :=
  follows_identifier.bind fun _ => follows_expect.bind fun _ =>
    hexpression.bind fun _ => follows_pure rfl

theorem condition_follows (hexpression : FollowsTree depth expression expression') :
    FollowsTree depth (condition expression) (condition expression') :=
  follows_expect.bind fun _ => hexpression.bind fun _ => follows_expect.bind fun _ =>
    follows_pure rfl

/-- Where a statement is read, it pays for its round; before a closing brace the rounds are over. -/
theorem nextStatement_follows (hstatement : FollowsTree depth statement statement') :
    Follows depth (fun statement? => statement?.toList.length) (nextStatement statement)
      (nextStatement statement') := by
  refine follows_nextKind?.bind fun kind? => ?_
  split
  · exact follows_pure rfl
  · exact follows_pure rfl
  · exact hstatement.bind fun first => follows_pure rfl

/-- Behind all tokens no statement follows. -/
theorem runs_nextStatement_of_nil (cursor : Cursor) (h : cursor.rest = []) :
    Runs (nextStatement statement') cursor none cursor := by
  simp [nextStatement, h]

/-- Statements are paid for one by one, so the rounds come to an end. -/
theorem statements_follows (hstatement : FollowsTree depth statement statement') :
    Follows depth List.length (repeated (nextStatement statement))
      (repeated (nextStatement statement')) :=
  (nextStatement_follows hstatement).repeated runs_nextStatement_of_nil

/-- A block may be empty. -/
theorem block_follows (hstatement : FollowsTree depth statement statement') :
    Follows depth (fun _ => 0) (block statement) (block statement') :=
  follows_nextSpan.bind fun _ => (statements_follows hstatement).bind fun _ =>
    follows_pure (Nat.zero_sub _)

/-- A conditional costs its keyword; the branch behind `else` is one more statement. -/
theorem conditional_follows (hstatement : FollowsTree depth statement statement')
    (hexpression : FollowsTree depth expression expression') :
    FollowsTree depth (conditional statement expression) (conditional statement' expression') := by
  refine follows_expect.bind fun start => (condition_follows hexpression).bind fun test =>
    hstatement.bind fun branch => ?_
  have hfinish (others : List Node) : Follows depth (fun _ => 0)
      (do return ⟨.conditional, test :: branch :: others, start.span.merge (← previousSpan)⟩ :
        Reading tokens Node)
      (do return ⟨.conditional, test :: branch :: others, start.span.merge (← previousSpan)⟩) :=
    follows_previousSpan.bind fun stop => follows_pure rfl
  refine follows_accept?.bind fun token? => ?_
  cases token? with
  | none => exact follows_pure_bind (hfinish _)
  | some _ => exact hstatement.bind fun otherwise => follows_pure_bind (hfinish _)

theorem whileLoop_follows (hstatement : FollowsTree depth statement statement')
    (hexpression : FollowsTree depth expression expression') :
    FollowsTree depth (whileLoop statement expression) (whileLoop statement' expression') :=
  follows_expect.bind fun _ => (condition_follows hexpression).bind fun _ =>
    hstatement.bind fun _ => follows_pure rfl

/-- A counted loop has its parts read in order, each from where the one before it ends. -/
theorem forLoop_follows (hstatement : FollowsTree depth statement statement')
    (hexpression : FollowsTree depth expression expression') :
    FollowsTree depth (forLoop statement expression) (forLoop statement' expression') :=
  follows_expect.bind fun _ => follows_expect.bind fun _ =>
    (assignment_follows hexpression).bind fun _ => follows_expect.bind fun _ =>
    hexpression.bind fun _ => follows_expect.bind fun _ =>
    (assignment_follows hexpression).bind fun _ => follows_expect.bind fun _ =>
    hstatement.bind fun _ => follows_pure rfl

theorem foreachLoop_follows (hstatement : FollowsTree depth statement statement') :
    FollowsTree depth (foreachLoop statement) (foreachLoop statement') :=
  follows_expect.bind fun _ => follows_expect.bind fun _ =>
    scalarDeclaration_follows.bind fun _ => follows_expect.bind fun _ =>
    follows_identifier.bind fun _ => follows_expect.bind fun _ =>
    hstatement.bind fun _ => follows_pure rfl

/-- The closing token alone would pay for it. -/
theorem closed_follows {close : TokenKind} (hinner : Follows depth cost inner inner') :
    FollowsTree depth (closed close inner) (closed close inner') :=
  hinner.bind fun content => follows_expect.bind fun _ => follows_pure (by omega)

/-- The kind of the next token is the same for both, and so is the construct it asks for. -/
theorem statementBody_follows (hstatement : FollowsTree depth statement statement')
    (hexpression : FollowsTree depth expression expression') :
    FollowsTree depth (statementBody statement expression)
      (statementBody statement' expression') := by
  refine follows_nextKind?.bind fun kind? => ?_
  -- one case for each first token a statement can have
  split
  · exact conditional_follows hstatement hexpression
  · exact whileLoop_follows hstatement hexpression
  · exact forLoop_follows hstatement hexpression
  · exact foreachLoop_follows hstatement
  · exact follows_expect.bind fun _ =>
      (closed_follows (block_follows hstatement)).mono fun _ => Nat.zero_le _
  · exact closed_follows declaration_follows
  · exact closed_follows declaration_follows
  · exact closed_follows declaration_follows
  · exact closed_follows declaration_follows
  · exact closed_follows (assignment_follows hexpression)
  · exact follows_refuse

/-- A statement costs what its construct costs. -/
theorem statementAround_follows (hinner : FollowsTree depth inner inner') :
    FollowsTree depth (statementAround inner) (statementAround inner') :=
  follows_nextSpan.bind fun _ => hinner.bind fun _ =>
    follows_previousSpan.bind fun _ => follows_pure rfl

/-- A program may be empty and costs nothing. -/
theorem programOver_follows (hstatement : FollowsTree depth statement statement') :
    Follows depth (fun _ => 0) (programOver statement) (programOver statement') :=
  (block_follows hstatement).bind fun _ => follows_finish.bind fun _ => follows_pure rfl

/-! ## Nesting -/

section Nesting

variable {α : Type} {inside : Reading tokens α} {parser : Parser α} {cost : α → Nat}

/-- Below the limit the reading inside starts one level deeper, and the level is counted out again
at both ends. -/
theorem ends_nested_iff {bookmark : Bookmark tokens} (h : bookmark.depth < nestingLimit)
    {answers : α → Bookmark tokens → Prop} {refuses : ParseError → Bookmark tokens → Prop} :
    Ends (nested inside) bookmark answers refuses ↔
      Ends inside (bookmark.enter h) (fun answer after => answers answer after.leave)
        fun error after => refuses error after.leave := by
  have hrun : (nested inside).run.run bookmark
      = (inside.run.run (bookmark.enter h)).map fun outcome => (outcome.1, outcome.2.leave) := by
    show (dite (bookmark.depth < nestingLimit) _ _ : Reading tokens α).run.run bookmark = _
    rw [dif_pos h]
    show (ExceptT.lift inside.run >>= _).run.run (bookmark.enter h) = _
    rw [ExceptT.run_bind, StateT.run_bind, ExceptT.run_lift, StateT.run_map]
    rcases inside.run.run (bookmark.enter h) with _ | ⟨_ | _, _⟩ <;> rfl
  unfold Ends
  rw [hrun]
  rcases inside.run.run (bookmark.enter h) with _ | ⟨_ | _, _⟩ <;> rfl

/-- One level deeper the depth is within the limit, and it is counted out again behind an answer and
behind a refusal. -/
theorem nested_follows (hdepth : depth < nestingLimit)
    (hinside : Follows (depth + 1) cost inside parser) :
    Follows depth cost (nested inside) parser := by
  rintro bookmark rfl
  refine (ends_nested_iff hdepth).mpr (Ends.imp (hinside (bookmark.enter hdepth) rfl) ?_ ?_)
  · rintro answer after ⟨hrun, hafter, hread⟩
    exact ⟨hrun, by rw [Bookmark.depth_leave, hafter]; rfl, hread⟩
  · rintro error after ⟨hfail, hafter, hread⟩
    exact ⟨hfail, by rw [Bookmark.depth_leave, hafter]; rfl, hread⟩

/-- At the limit both refuse, at the same place and with the same fault. -/
theorem nested_refuses : Follows nestingLimit cost (nested inside) refuseNesting := by
  intro bookmark hdepth
  refine ends_get_bind_iff.mpr ?_
  rw [dif_neg (Nat.not_lt.mpr (Nat.le_of_eq hdepth.symm))]
  exact followsAt_fail (fails_refuseNesting.mpr rfl)

end Nesting

/-- Expressions may nest as deep as levels are left. -/
theorem expressionBy_follows {calls levels : Nat} (hdepth : depth + levels = nestingLimit)
    (hcalls : levels < calls) :
    FollowsTree depth (expressionBy calls : Reading tokens _) (Parser.expression levels) := by
  induction calls generalizing depth levels with
  | zero => exact absurd hcalls (Nat.not_lt_zero _)
  | succ calls ih =>
    cases levels with
    | zero =>
      subst hdepth
      exact expressionOver_follows nested_refuses
    | succ levels =>
      exact expressionOver_follows (nested_follows (by omega) (ih (by omega) (by omega)))

/-- The levels left for parentheses are those below the limit. -/
theorem expression_follows {levels : Nat} (hdepth : depth + levels = nestingLimit) :
    FollowsTree depth (Reading.expression : Reading tokens Node) (Parser.expression levels) :=
  expressionBy_follows hdepth (by omega)

/-- Statements may nest as deep as levels are left. -/
theorem statementBy_follows {calls levels : Nat} (hdepth : depth + levels = nestingLimit)
    (hcalls : levels < calls) :
    FollowsTree depth (statementBy calls : Reading tokens _) (Parser.statement levels) := by
  induction calls generalizing depth levels with
  | zero => exact absurd hcalls (Nat.not_lt_zero _)
  | succ calls ih =>
    cases levels with
    | zero =>
      subst hdepth
      -- a statement reads nothing before it nests
      show FollowsTree _ _ (statementAround refuseNesting)
      exact statementAround_follows nested_refuses
    | succ levels =>
      exact statementAround_follows (nested_follows (by omega)
        (statementBody_follows (ih (by omega) (by omega)) (expression_follows (by omega))))

/-- The levels left for statements are those below the limit, whatever statements are around. -/
theorem statement_follows {levels : Nat} (hdepth : depth + levels = nestingLimit) :
    FollowsTree depth (Reading.statement : Reading tokens Node) (Parser.statement levels) :=
  statementBy_follows hdepth (by omega)

/-- At the start no level is open and all of them are left. -/
theorem program_follows :
    Follows 0 (fun _ => 0) (program : Reading tokens _) Parser.program :=
  programOver_follows (statement_follows (Nat.zero_add _))

end Reading

/-- Parsing comes to an end, in the way of a parser that does not count. -/
theorem parse_eq (tokens : List Token) :
    parse tokens = match Parser.program (.atStart tokens) with
      | .ok (tree, _) => .ok tree
      | .error error => .error error.diagnostic := by
  have hends := Reading.program_follows (Bookmark.atStart tokens.toArray) rfl
  have hstart : (Bookmark.atStart tokens.toArray).cursor = .atStart tokens := rfl
  unfold Reading.FollowsAt Reading.Ends at hends
  rw [hstart] at hends
  unfold parse
  split at hends
  · next hrun => rw [hrun, show Parser.program _ = _ from hends.1]
  · next hrun => rw [hrun, show Parser.program _ = _ from hends.1]
  · exact hends.elim

end Census
