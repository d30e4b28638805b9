import Census.Proofs.Parse.Progress
import Census.Proofs.Parse.Readers

/-!
# The recursion of the parser

Loops are told how many rounds they may go, and readers how many calls may stand inside of each
other. Both numbers are large enough. With more of them no outcome changes, and as there always is
one, loops and readers are what they would be without such numbers.

- `Reading.Refines`: a reading has the outcomes of another one. Every reader refines as the readers
  inside it do.
- `Reading.Loops`: a loop goes one round, and then is the loop again.
- `Reading.expression_eq`, `Reading.statement_eq`: what the readers are, in terms of themselves.
- `Reading.parse_progress`: parsing comes to an end.
-/

namespace Census

open Census.Parser

namespace Reading

variable {tokens : Array Token} {α β : Type}

/-- Where the first reading comes to an end, the second one does, with the same outcome. -/
def Refines (reading reading' : Reading tokens α) : Prop :=
  ∀ ⦃bookmark outcome⦄, reading.run.run bookmark = some outcome →
    reading'.run.run bookmark = some outcome

section Steps

variable {reading reading' : Reading tokens α}

theorem Refines.refl (reading : Reading tokens α) : Refines reading reading := fun _ _ => id

/-- What does not come to an end has no outcome to keep. -/
theorem refines_endless : Refines endless reading := nofun

/-- The first reading has the same outcome, and where it answers the second one goes on from the
same bookmark. -/
theorem Refines.bind {next next' : α → Reading tokens β} (h : Refines reading reading')
    (hnext : ∀ answer, Refines (next answer) (next' answer)) :
    Refines (reading >>= next) (reading' >>= next') := by
  intro bookmark outcome hrun
  rw [ExceptT.run_bind, StateT.run_bind] at hrun ⊢
  cases hfirst : reading.run.run bookmark with
  | none =>
    rw [hfirst] at hrun
    cases hrun
  | some step =>
    rw [h hfirst]
    rw [hfirst] at hrun
    obtain ⟨error | answer, between⟩ := step
    · exact hrun
    · exact hnext answer hrun

/-- Behind the same step. -/
theorem refines_step {next next' : α → Reading tokens β}
    (hnext : ∀ answer, Refines (next answer) (next' answer)) :
    Refines (reading >>= next) (reading >>= next') :=
  (Refines.refl reading).bind hnext

/-- By induction on the fuel, which is the same for both. -/
theorem rounds_refines {round round' : Reading tokens (Option α)} (h : Refines round round')
    (fuel : Nat) : Refines (rounds round fuel) (rounds round' fuel) := by
  induction fuel with
  | zero => exact refines_endless
  | succ fuel ih =>
    refine h.bind fun first? => ?_
    cases first? with
    | none => exact .refl _
    | some first => exact ih.bind fun others => .refl _

/-- How many tokens are left, and so the fuel, is up to the bookmark. -/
theorem repeated_refines {round round' : Reading tokens (Option α)} (h : Refines round round') :
    Refines (repeated round) (repeated round') :=
  refines_step fun _ => rounds_refines h _

/-- The depth is counted the same around both. -/
theorem nested_refines (h : Refines reading reading') :
    Refines (nested reading) (nested reading') := by
  have hlift : Refines (ExceptT.lift reading.run) (ExceptT.lift reading'.run) := by
    intro bookmark outcome hrun
    rw [ExceptT.run_lift, StateT.run_map] at hrun ⊢
    cases hinside : reading.run.run bookmark with
    | none =>
      rw [hinside] at hrun
      cases hrun
    | some step =>
      rw [hinside] at hrun
      rw [h hinside]
      exact hrun
  refine refines_step fun bookmark => ?_
  split
  · exact refines_step fun _ => hlift.bind fun outcome => .refl _
  · exact .refl _

end Steps

section Readers

variable {inner inner' operand operand' statement statement' expression expression' :
  Reading tokens Node}

/-! ## Expressions -/

/-- Only between parentheses the inner reader is asked at all. -/
theorem value_refines (hinner : Refines inner inner') : Refines (value inner) (value inner') := by
  refine refines_step fun start => refines_step fun token? => ?_
  cases token? with
  | none => exact .refl _
  | some token =>
    dsimp only
    split
    · exact .refl _
    · exact .refl _
    · exact .refl _
    · exact .refl _
    · exact hinner.bind fun content => .refl _

theorem stacked_refines {kinds : List TokenKind} {kind : List String → NodeKind}
    (hoperand : Refines operand operand') :
    Refines (stacked kinds kind operand) (stacked kinds kind operand') :=
  refines_step fun _ => refines_step fun _ => hoperand.bind fun _ => .refl _

theorem chain_refines {kinds : List TokenKind} {kind : List String → NodeKind}
    (hoperand : Refines operand operand') :
    Refines (chain kinds kind operand) (chain kinds kind operand') := by
  have hlink : Refines (nextLink kinds operand) (nextLink kinds operand') := by
    refine refines_step fun token? => ?_
    cases token? with
    | none => exact .refl _
    | some operator => exact hoperand.bind fun content => .refl _
  exact hoperand.bind fun first => (repeated_refines hlink).bind fun others => .refl _

theorem comparison_refines (hoperand : Refines operand operand') :
    Refines (comparison operand) (comparison operand') := by
  refine hoperand.bind fun left => refines_step fun token? => ?_
  cases token? with
  | none => exact .refl _
  | some operator => exact hoperand.bind fun right => .refl _

/-- The ladder of levels. -/
theorem expressionOver_refines (hinner : Refines inner inner') :
    Refines (expressionOver inner) (expressionOver inner') := by
  have hsigned : Refines (signed inner) (signed inner') :=
    stacked_refines (stacked_refines (value_refines hinner))
  have hlogical : Refines (logical inner) (logical inner') :=
    chain_refines (comparison_refines (chain_refines (chain_refines hsigned)))
  exact hlogical.bind fun content => .refl _

/-! ## Statements -/

theorem assignment_refines (hexpression : Refines expression expression') :
    Refines (assignment expression) (assignment expression') :=
  refines_step fun _ => refines_step fun _ => hexpression.bind fun _ => .refl _

theorem condition_refines (hexpression : Refines expression expression') :
    Refines (condition expression) (condition expression') :=
  refines_step fun _ => hexpression.bind fun _ => .refl _

/-- A block reads statements, round by round. -/
theorem block_refines (hstatement : Refines statement statement') :
    Refines (block statement) (block statement') := by
  have hnext : Refines (nextStatement statement) (nextStatement statement') := by
    refine refines_step fun kind? => ?_
    split
    · exact .refl _
    · exact .refl _
    · exact hstatement.bind fun first => .refl _
  exact refines_step fun start => (repeated_refines hnext).bind fun parts => .refl _

theorem conditional_refines (hstatement : Refines statement statement')
    (hexpression : Refines expression expression') :
    Refines (conditional statement expression) (conditional statement' expression') := by
  refine refines_step fun start => (condition_refines hexpression).bind fun test =>
    hstatement.bind fun branch => refines_step fun token? => ?_
  cases token? with
  | none => exact .refl _
  | some _ => exact hstatement.bind fun otherwise => .refl _

theorem whileLoop_refines (hstatement : Refines statement statement')
    (hexpression : Refines expression expression') :
    Refines (whileLoop statement expression) (whileLoop statement' expression') :=
  refines_step fun _ => (condition_refines hexpression).bind fun _ =>
    hstatement.bind fun _ => .refl _

theorem forLoop_refines (hstatement : Refines statement statement')
    (hexpression : Refines expression expression') :
    Refines (forLoop statement expression) (forLoop statement' expression') :=
  refines_step fun _ => refines_step fun _ =>
    (assignment_refines hexpression).bind fun _ => refines_step fun _ =>
    hexpression.bind fun _ => refines_step fun _ =>
    (assignment_refines hexpression).bind fun _ => refines_step fun _ =>
    hstatement.bind fun _ => .refl _

theorem foreachLoop_refines (hstatement : Refines statement statement') :
    Refines (foreachLoop statement) (foreachLoop statement') :=
  refines_step fun _ => refines_step fun _ => refines_step fun _ => refines_step fun _ =>
    refines_step fun _ => refines_step fun _ => hstatement.bind fun _ => .refl _

theorem closed_refines {close : TokenKind} (hinner : Refines inner inner') :
    Refines (closed close inner) (closed close inner') :=
  hinner.bind fun _ => .refl _

/-- The next token decides which construct it is before anything is read. -/
theorem statementBody_refines (hstatement : Refines statement statement')
    (hexpression : Refines expression expression') :
    Refines (statementBody statement expression) (statementBody statement' expression') := by
  refine refines_step fun kind? => ?_
  -- one case for each first token behind which something else is read
  split
  · exact conditional_refines hstatement hexpression
  · exact whileLoop_refines hstatement hexpression
  · exact forLoop_refines hstatement hexpression
  · exact foreachLoop_refines hstatement
  · exact refines_step fun _ => closed_refines (block_refines hstatement)
  · exact .refl _
  · exact .refl _
  · exact .refl _
  · exact .refl _
  · exact closed_refines (assignment_refines hexpression)
  · exact .refl _

theorem statementAround_refines (hinner : Refines inner inner') :
    Refines (statementAround inner) (statementAround inner') :=
  refines_step fun _ => hinner.bind fun _ => .refl _

end Readers

/-! ## More rounds and more calls -/

/-- If the first reading always comes to an end, the second one cannot have any other outcome. -/
theorem Refines.run_eq {cost : α → Nat} {reading reading' : Reading tokens α}
    (h : Refines reading reading') (hends : Progresses cost reading) (bookmark : Bookmark tokens) :
    reading.run.run bookmark = reading'.run.run bookmark := by
  obtain ⟨outcome, hrun⟩ := Option.ne_none_iff_exists'.mp (hends bookmark).ne_none
  exact hrun.trans (h hrun).symm

/-- Rounds that have come to an end do so with more fuel, in the same number. -/
theorem rounds_refines_of_le {round : Reading tokens (Option α)} {fuel fuel' : Nat}
    (h : fuel ≤ fuel') : Refines (rounds round fuel) (rounds round fuel') := by
  induction fuel generalizing fuel' with
  | zero => exact refines_endless
  | succ fuel ih =>
    obtain ⟨fuel', rfl⟩ : ∃ less, fuel' = less + 1 := ⟨fuel' - 1, by omega⟩
    refine refines_step fun first? => ?_
    cases first? with
    | none => exact .refl _
    | some first => exact (ih (Nat.le_of_succ_le_succ h)).bind fun others => .refl _

/-- What comes behind an answer matters only at the bookmarks that the answer leaves. -/
theorem run_bind_congr {reading : Reading tokens α} {next next' : α → Reading tokens β}
    {bookmark : Bookmark tokens}
    (h : ∀ answer between, reading.run.run bookmark = some (.ok answer, between) →
      (next answer).run.run between = (next' answer).run.run between) :
    (reading >>= next).run.run bookmark = (reading >>= next').run.run bookmark := by
  rw [ExceptT.run_bind, StateT.run_bind, ExceptT.run_bind, StateT.run_bind]
  rcases hfirst : reading.run.run bookmark with _ | ⟨error | answer, between⟩
  · rfl
  · rfl
  · exact h answer between hfirst

/-- What comes first matters only by its outcome here. -/
theorem run_bind_congr_left {reading reading' : Reading tokens α} {next : α → Reading tokens β}
    {bookmark : Bookmark tokens} (h : reading.run.run bookmark = reading'.run.run bookmark) :
    (reading >>= next).run.run bookmark = (reading' >>= next).run.run bookmark := by
  rw [ExceptT.run_bind, StateT.run_bind, h, ExceptT.run_bind, StateT.run_bind]

/-- A loop over the rounds comes to an end, with no more answers than tokens. It goes one round, and
then is the loop again. -/
structure Loops (round : Reading tokens (Option α)) : Prop where
  progresses : Progresses List.length (repeated round)
  eq : repeated round = do
    let some first ← round | return []
    return first :: (← repeated round)

/-- A loop may go one round more than tokens are left. If it may go more of them, it does not. -/
theorem run_repeated_eq {round : Reading tokens (Option α)}
    (hloop : Progresses List.length (repeated round)) {bookmark : Bookmark tokens} {fuel : Nat}
    (hfuel : tokens.size - bookmark.position + 1 ≤ fuel) :
    (repeated round).run.run bookmark = (rounds round fuel).run.run bookmark := by
  obtain ⟨outcome, hrun⟩ := Option.ne_none_iff_exists'.mp (hloop bookmark).ne_none
  exact hrun.trans (rounds_refines_of_le hfuel hrun).symm

/-- A loop whose rounds each cost a token ends before the fuel is used up, so it might as well have
more of it. -/
theorem loops_of_progresses {cost : Option α → Nat} {round : Reading tokens (Option α)}
    (hround : Progresses cost round) (hloop : Progresses List.length (repeated round)) :
    Loops round := by
  refine ⟨hloop, funext fun bookmark => ?_⟩
  refine (run_repeated_eq hloop (Nat.le_succ _)).trans
    (run_bind_congr fun first? between hfirst => ?_)
  cases first? with
  | none => rfl
  | some first =>
    -- behind a round there are no more tokens left than before it
    have hposition : bookmark.position ≤ between.position :=
      Nat.le_of_add_right_le ((hround bookmark).of_answer hfirst).position
    exact run_bind_congr_left (run_repeated_eq hloop (by omega)).symm

/-- By induction on the calls: one more call changes no outcome. -/
theorem expressionBy_refines (calls : Nat) :
    Refines (expressionBy calls : Reading tokens Node) (expressionBy (calls + 1)) := by
  induction calls with
  | zero => exact refines_endless
  | succ calls ih => exact expressionOver_refines (nested_refines ih)

/-- By induction on the calls, as for expressions. -/
theorem statementBy_refines (calls : Nat) :
    Refines (statementBy calls : Reading tokens Node) (statementBy (calls + 1)) := by
  induction calls with
  | zero => exact refines_endless
  | succ calls ih =>
    exact statementAround_refines (nested_refines (statementBody_refines ih (.refl _)))

/-- The reader of expressions is what parentheses hold, one level deeper: no number of calls is left
in it. -/
theorem expression_eq :
    (expression : Reading tokens Node) = expressionOver (nested expression) :=
  funext ((expressionBy_refines _).run_eq Routine.expression.progresses)

/-- The reader of statements is what stands in statements, one level deeper. -/
theorem statement_eq :
    (statement : Reading tokens Node)
      = statementAround (nested (statementBody statement expression)) :=
  funext ((statementBy_refines _).run_eq Routine.statement.progresses)

/-! ## Loops -/

/-- A statement costs a token, so blocks loop. -/
theorem loops_nextStatement : Loops (nextStatement (statement : Reading tokens Node)) :=
  loops_of_progresses
    (progresses_of_follows fun h => ⟨_, nextStatement_follows (statement_follows h)⟩)
    (progresses_of_follows fun h => ⟨_, statements_follows (statement_follows h)⟩)

/-- A link costs its operator, so chains loop. -/
theorem Routine.loops_nextLink (operand : Routine) (kinds : List TokenKind) :
    Loops (nextLink kinds (operand.reader : Reading tokens Node)) :=
  loops_of_progresses
    (progresses_of_follows fun h =>
      let ⟨_, hoperand⟩ := operand.exists_follows h
      ⟨_, nextLink_follows hoperand⟩)
    (progresses_of_follows fun h =>
      let ⟨_, hoperand⟩ := operand.exists_follows h
      ⟨_, links_follows hoperand⟩)

/-- A token that is accepted has been read, so runs of operators loop. -/
theorem loops_accept? (kinds : List TokenKind) :
    Loops (accept? kinds : Reading tokens (Option Token)) :=
  loops_of_progresses (progresses_of_follows fun _ => ⟨_, follows_accept?⟩)
    (progresses_of_follows fun _ => ⟨_, follows_acceptRun⟩)

/-! ## Programs -/

/-- From the start on, what is read is the program or a part of it, and no level is left open. -/
theorem program_ends (tokens : List Token) :
    program.Ends (.atStart tokens.toArray)
      (fun tree after => parse tokens = .ok tree ∧ after.position = tokens.length ∧ after.depth = 0)
      (fun error after => parse tokens = .error error.diagnostic ∧ after.position ≤ tokens.length ∧
        after.depth = 0) := by
  have hends := program_follows (Bookmark.atStart tokens.toArray) rfl
  unfold FollowsAt Ends at hends
  unfold Ends parse
  rcases hrun : program.run.run (Bookmark.atStart tokens.toArray) with _ | ⟨error | tree, after⟩ <;>
    rw [hrun] at hends
  · exact hends
  · obtain ⟨-, hdepth, -⟩ := hends
    exact ⟨rfl, after.position_le, hdepth⟩
  · obtain ⟨hruns, hdepth, -⟩ := hends
    obtain ⟨content, -, hrest, -⟩ := runs_program.mp hruns
    -- no token is left behind a program
    have hleft : tokens.length - after.position = 0 := by
      simpa [hrest] using after.length_rest_cursor.symm
    have hle : after.position ≤ tokens.length := after.position_le
    exact ⟨rfl, by omega, hdepth⟩

/-- **Parsing comes to an end.** The parser only goes forward, counts out all levels that it counts,
and reads a token wherever it answers a tree that is no block and no program. So its loops and its
recursion come to an end, whatever the tokens are and however deep it already is, with no other
bound than its limit on nesting. If there is a tree, all tokens are read. -/
theorem parse_progress (tokens : List Token) :
    (∀ routine : Routine,
      Progresses (fun _ => routine.least) (routine.reader : Reading tokens.toArray Node)) ∧
    (∀ kinds, Progresses (fun token? => token?.toList.length)
      (accept? kinds : Reading tokens.toArray (Option Token))) ∧
    (∀ kind, Progresses (fun _ => 1) (expect kind : Reading tokens.toArray Token)) ∧
    Loops (nextStatement (statement : Reading tokens.toArray Node)) ∧
    (∀ kinds (operand : Routine),
      Loops (nextLink kinds (operand.reader : Reading tokens.toArray Node))) ∧
    (∀ kinds, Loops (accept? kinds : Reading tokens.toArray (Option Token))) ∧
    (expression : Reading tokens.toArray Node) = expressionOver (nested expression) ∧
    (statement : Reading tokens.toArray Node)
      = statementAround (nested (statementBody statement expression)) ∧
    program.Ends (.atStart tokens.toArray)
      (fun tree after => parse tokens = .ok tree ∧ after.position = tokens.length ∧ after.depth = 0)
      (fun error after => parse tokens = .error error.diagnostic ∧ after.position ≤ tokens.length ∧
        after.depth = 0) := by
  refine ⟨Routine.progresses, fun kinds => ?_, fun kind => ?_, loops_nextStatement,
    fun kinds operand => operand.loops_nextLink kinds, loops_accept?, expression_eq, statement_eq,
    program_ends tokens⟩
  · exact progresses_of_follows fun _ => ⟨_, follows_accept?⟩
  · exact progresses_of_follows fun _ => ⟨_, follows_expect⟩

end Reading

end Census
