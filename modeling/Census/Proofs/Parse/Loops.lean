import Census.Proofs.Parse.Runs

/-!
# Loops of readers

A reader that repeats something takes the number of tokens left as its fuel. Each round moves it
forward, so the fuel never runs out before the tokens do, and the loop is the one that its body
says: a round, and then the loop again.

- `Parser.Takes`: a reader that moves forward.
- `Parser.Guarded`: a body that moves forward before it goes on with the loop.
- `Parser.loop_eq`: a loop over such a body.
- `Parser.allLinks_eq`, `Parser.allStatements_eq`: the two loops of the language.
-/

namespace Census.Parser

variable {α β : Type} {cursor : Cursor}

/-- Behind an answer, only what is done with it at its cursor matters. -/
theorem bind_congr_of_runs {parser : Parser α} {next next' : α → Parser β}
    (h : ∀ answer between, Runs parser cursor answer between →
      next answer between = next' answer between) :
    (parser >>= next) cursor = (parser >>= next') cursor := by
  show (parser cursor >>= fun step => next step.1 step.2)
    = (parser cursor >>= fun step => next' step.1 step.2)
  cases hrun : parser cursor with
  | error error => rfl
  | ok step => exact h step.1 step.2 hrun

theorem bind_congr_left {parser parser' : Parser α} {next : α → Parser β}
    (h : parser cursor = parser' cursor) :
    (parser >>= next) cursor = (parser' >>= next) cursor := by
  show (parser cursor >>= fun step => next step.1 step.2) = _
  rw [h]
  rfl

/-- Wherever the reader answers, it has taken so many tokens or more. -/
def Takes (count : Nat) (reader : Parser Node) : Prop :=
  ∀ ⦃cursor tree after⦄, Runs reader cursor tree after →
    after.rest.length + count ≤ cursor.rest.length

/-- The body goes on with the loop only where fewer tokens are left. -/
def Guarded (body : Parser β → Parser β) : Prop :=
  ∀ ⦃again again' : Parser β⦄ ⦃cursor : Cursor⦄,
    (∀ after : Cursor, after.rest.length < cursor.rest.length → again after = again' after) →
    body again cursor = body again' cursor

section Loop

variable {loop : Nat → Parser β} {body : Parser β → Parser β} (hguarded : Guarded body)
  (hsucc : ∀ fuel, loop (fuel + 1) = body (loop fuel))
  (hzero : ∀ {cursor : Cursor} (again : Parser β), cursor.rest = [] →
    loop 0 cursor = body again cursor)
include hguarded hsucc hzero

/-- With fuel for all tokens left, it does not matter how much there is. -/
theorem loop_fuel {fuel fuel' : Nat} {cursor : Cursor} (h : cursor.rest.length ≤ fuel)
    (h' : cursor.rest.length ≤ fuel') : loop fuel cursor = loop fuel' cursor := by
  induction fuel generalizing fuel' cursor with
  | zero =>
    have hnil := List.length_eq_zero_iff.mp (Nat.le_zero.mp h)
    cases fuel' with
    | zero => rfl
    | succ fuel' => rw [hsucc, hzero _ hnil]
  | succ fuel ih =>
    cases fuel' with
    | zero => rw [hsucc, hzero _ (List.length_eq_zero_iff.mp (Nat.le_zero.mp h'))]
    | succ fuel' =>
      rw [hsucc, hsucc]
      exact hguarded fun after hafter => ih (by omega) (by omega)

/-- The loop is a round of its body and then the loop again. -/
theorem loop_eq : remaining >>= loop = body (remaining >>= loop) := by
  funext cursor
  have hall (cursor : Cursor) : (remaining >>= loop) cursor = loop cursor.rest.length cursor := rfl
  rw [hall, loop_fuel hguarded hsucc hzero (Nat.le_refl _) (Nat.le_succ _), hsucc]
  refine hguarded fun after hafter => ?_
  rw [hall, loop_fuel hguarded hsucc hzero (Nat.le_of_lt hafter) (Nat.le_refl _)]

end Loop

/-! ## Operators and operands -/

section Links

variable {operand : Parser Node}

/-- Pairs of an operator and an operand, as many as follow. -/
def allLinks (operators : List TokenKind) (operand : Parser Node) : Parser (List (String × Node)) :=
  remaining >>= links operators operand

/-- One pair, if an operator follows, and then what `again` reads. -/
def link (operators : List TokenKind) (operand : Parser Node)
    (again : Parser (List (String × Node))) : Parser (List (String × Node)) := do
  let some operator ← accept? operators | return []
  let content ← operand
  return (operator.text, content) :: (← again)

theorem allLinks_eq (operators : List TokenKind) (hoperand : Takes 0 operand) :
    allLinks operators operand = link operators operand (allLinks operators operand) := by
  refine loop_eq (fun again again' cursor h => ?_) (links_succ operators operand)
    fun {cursor} again hnil => ?_
  · refine bind_congr_of_runs fun token? between hrun => ?_
    cases token? with
    | none => rfl
    | some operator =>
      -- the operator is what a round always reads
      obtain ⟨-, hone⟩ := runs_accept?_some.mp hrun
      refine bind_congr_of_runs fun content after hcontent => ?_
      have hshorter := hoperand hcontent
      have hrest : cursor.rest.length = between.rest.length + 1 := by simp [hone.rest]
      exact bind_congr_left (h after (by omega))
  · have hnone : Runs (accept? operators) cursor none cursor :=
      runs_accept?_none.mpr ⟨by simp [hnil], rfl⟩
    rw [link, bind_of_runs hnone]
    rfl

theorem chain_eq (operators : List TokenKind) (kind : List String → NodeKind)
    (operand : Parser Node) :
    chain operators kind operand = do
      let first ← operand
      let others ← allLinks operators operand
      return ⟨kind (others.map Prod.fst), first :: others.map Prod.snd,
        first.span.merge ((others.map Prod.snd).getLastD first).span⟩ :=
  rfl

end Links

/-! ## Statements -/

section Statements

variable {statement : Parser Node}

/-- Statements, as many as follow. -/
def allStatements (statement : Parser Node) : Parser (List Node) :=
  remaining >>= statements statement

/-- One statement, unless the block is over, and then what `again` reads. -/
def oneStatement (statement : Parser Node) (again : Parser (List Node)) : Parser (List Node) := do
  match ← nextKind? with
  | none => return []
  | some .rightBrace => return []
  | some _ =>
    let first ← statement
    return first :: (← again)

theorem allStatements_eq (hstatement : Takes 1 statement) :
    allStatements statement = oneStatement statement (allStatements statement) := by
  refine loop_eq (fun again again' cursor h => ?_) (statements_succ statement)
    fun {cursor} again hnil => ?_
  · show oneStatement statement again cursor = oneStatement statement again' cursor
    refine bind_congr_of_runs fun kind? between hrun => ?_
    obtain ⟨-, rfl⟩ := runs_nextKind?.mp hrun
    split
    · rfl
    · rfl
    · refine bind_congr_of_runs fun first after hfirst => ?_
      exact bind_congr_left (h after (hstatement hfirst))
  · have hnone : Runs nextKind? cursor none cursor :=
      runs_nextKind?.mpr ⟨by simp [hnil], rfl⟩
    rw [oneStatement, bind_of_runs hnone]
    rfl

theorem block_eq (statement : Parser Node) :
    block statement = do
      let start ← nextSpan
      let parts ← allStatements statement
      return ⟨.block, parts,
        match parts.head?, parts.getLast? with
        | some first, some last => first.span.merge last.span
        | _, _ => .emptyAt start.start⟩ :=
  rfl

end Statements

end Census.Parser
