import Census.Proofs.Grammar.NearestElse
import Census.Proofs.Parse.Completeness
import Census.Proofs.Parse.Lookahead
import Census.Proofs.Parse.Loops

/-!
# Where programs are refused

What is no program is refused at the first token with which no program goes on: the tokens in front
of it are the beginning of a program, and with it they no longer are. Only the limit on nesting
stops a reader earlier.

A reader is compared with the readers of the same construct that may nest deeper. They do as it
does up to a refusal. But of tokens that a program begins with, one of them reads the whole
program, so there is none that goes on with the refused token.

- `Parser.statement_prompt`: statements are read promptly. There is a lemma for each reader, which
  goes along the production that the reader follows.
- `Parser.program_fails_viable`: the refusals of programs.
- `parse_error_at_first_impossible`: where an error points.
-/

namespace Census

namespace Parser

variable {ι κ : Type} {levels : Nat} {cursor : Cursor}
  {inner operand statement expression : Parser Node}
  {inners operands statements expressions : κ → Parser Node}

/-- A refusal for nesting says nothing about the token, and is left out of the comparison. -/
theorem refuseNesting_prompt (readers : κ → Parser Node) (category : Category) :
    Prompt refuseNesting readers category :=
  fun _ _ _ => promptAt_refuseNesting

/-- What a sound reader answers is derived from the tokens that it took. -/
theorem Sound.takes {reader : Parser Node} {category : Category}
    (h : Sound reader category levels) : Takes 0 reader := by
  intro cursor tree after hrun
  obtain ⟨tokens, hmoved, -⟩ := h hrun
  simp [hmoved.rest]

/-- A statement has a token. -/
theorem Sound.takes_one {reader : Parser Node} (h : Sound reader .statement levels) :
    Takes 1 reader := by
  intro cursor tree after hrun
  obtain ⟨tokens, hmoved, hreading⟩ := h hrun
  obtain ⟨token, others, rfl, -⟩ := hreading.derives.statement_head
  rw [hmoved.rest, List.length_append, List.length_cons]
  omega

/-! ## Expressions -/

/-- Who refuses here does so since the next token is no identifier, and another reader would too. -/
theorem identifier_promptAt :
    PromptAt cursor identifier (fun _ : ι => identifier) (Category.language .identifier) := by
  refine .accept? (fun _ => promptAt_refuse (Category.writable _)) fun token between hkind _ => ?_
  refine promptAt_pure ((Production.identifier "").language_le ?_)
  rw [List.mem_singleton.mp hkind]
  exact Item.cons_mem_language_word (Item.language_nil ▸ Language.nil_mem_one)

/-- Some tokens are values on their own. -/
theorem leaf_mem_value {kind : TokenKind}
    (h : kind ∈ [.identifier, .integer, .trueKeyword, .falseKeyword]) :
    [kind] ∈ Category.language .value := by
  obtain ⟨leaf, hleaf⟩ : ∃ leaf, Token.leaf? ⟨kind, "", {}⟩ = some leaf := by
    simp only [List.mem_cons, List.not_mem_nil, or_false] at h
    rcases h with rfl | rfl | rfl | rfl <;> exact ⟨_, rfl⟩
  obtain ⟨hcategory, hderives⟩ := derives_leaf hleaf
  refine (Production.plain hcategory).language_le ?_
  rw [Item.language_single]
  exact ⟨_, _, hderives, rfl⟩

/-- The next token starts a leaf or parentheses or is refused, and then starts no value. Between
parentheses it is up to the inner readers, and to the closing one behind them. -/
theorem value_prompt (hinner : Prompt inner inners .expression) :
    Prompt (value inner) (fun choice => value (inners choice)) .value := by
  intro ι cursor choice
  unfold value
  refine .nextSpan fun start => .accept? (fun _ => ?_) fun token between hkind _ => ?_
  · exact promptAt_refuse (Category.writable _)
  -- the others meet a token of the same kind
  have hsame (token' : { token' : Token // token'.kind = token.kind }) :
      token'.val.kind = token.kind := token'.2
  simp only [List.mem_cons, List.not_mem_nil, or_false] at hkind
  rcases hkind with hkind | hkind | hkind | hkind | hkind <;> simp only [hsame, hkind, pure_bind]
  · exact .previousSpan fun _ => promptAt_pure (leaf_mem_value (by decide))
  · exact .previousSpan fun _ => promptAt_pure (leaf_mem_value (by decide))
  · exact .previousSpan fun _ => promptAt_pure (leaf_mem_value (by decide))
  · exact .previousSpan fun _ => promptAt_pure (leaf_mem_value (by decide))
  · have hlanguage : Item.language [.part .expression, .mark .rightParen]
        ≤ { row | TokenKind.leftParen :: row ∈ Category.language .value } := fun row hrow =>
      Production.parentheses.language_le (Item.cons_mem_language_mark hrow)
    refine PromptAt.mono ((hinner _ _ _).part fun content _ => .mark fun _ _ => ?_) hlanguage
    exact .previousSpan fun stop => promptAt_finish

/-- Readers agree on the run of operators, so the rest is up to the operands. -/
theorem stacked_prompt {kinds : List TokenKind} {kind : List String → NodeKind}
    {category category' : Category}
    (production : ∀ {operators : Operators}, operators.Among kinds →
      Production (kind operators.texts) (operators.stacked ++ [.part category']))
    (hcategory : ∀ texts, (kind texts).category = category)
    (hoperand : Prompt operand operands category') :
    Prompt (stacked kinds kind operand) (fun choice => stacked kinds kind (operands choice))
      category := by
  intro ι cursor choice
  unfold stacked
  refine .nextSpan fun start => PromptAt.mono (promptAt_acceptRun.bind
    (Item.writable [.part category']) fun run between _ => (hoperand _ _ _).part fun content _ =>
      promptAt_finish) ?_
  -- whatever stands in front of an operand stands there by a production
  rintro _ ⟨run, hrun, back, hback, rfl⟩
  rw [Item.language_single] at hback
  obtain ⟨operators, hamong, hmem⟩ := Operators.append_mem_stacked hrun hback
  exact hcategory operators.texts ▸ (production hamong).language_le hmem

/-- By induction on the tokens that are left, since every operator takes one of them. -/
theorem allLinks_promptAt {kinds : List TokenKind} {category : Category}
    (hoperand : Prompt operand operands category) (htakes : Takes 0 operand)
    (htakes' : ∀ choice, Takes 0 (operands choice)) (choice : ι → κ) :
    PromptAt cursor (allLinks kinds operand) (fun index => allLinks kinds (operands (choice index)))
      (Operators.linked kinds category) := by
  -- on the number of tokens left, as every round takes one
  induction hlength : cursor.rest.length using Nat.strongRecOn generalizing ι cursor with
  | _ length ih =>
  rw [allLinks_eq kinds htakes, funext fun index => allLinks_eq kinds (htakes' (choice index))]
  refine .accept? (fun _ => promptAt_pure Operators.nil_mem_linked)
    fun operator between hkind hone => ?_
  have hwritable : ∃ row, row ∈ Operators.linked kinds category := ⟨[], Operators.nil_mem_linked⟩
  refine ((hoperand _ between _).bind hwritable fun content after hcontent => ?_).mono ?_
  · have hshorter := htakes hcontent
    have hrest : cursor.rest.length = between.rest.length + 1 := by simp [hone.rest]
    exact (ih _ (by omega) _ rfl).finish
  · rintro _ ⟨front, hfront, back, hback, rfl⟩
    exact Operators.cons_mem_linked hkind hfront hback

/-- A refusal is one of the first operand, or one behind an operator of the chain. -/
theorem chain_prompt {kinds : List TokenKind} {kind : List String → NodeKind}
    {category category' : Category}
    (production : ∀ {operators : Operators}, operators.Among kinds →
      Production (kind operators.texts) (.part category' :: operators.links category'))
    (hcategory : ∀ texts, (kind texts).category = category)
    (hoperand : Prompt operand operands category') (htakes : Takes 0 operand)
    (htakes' : ∀ choice, Takes 0 (operands choice)) :
    Prompt (chain kinds kind operand) (fun choice => chain kinds kind (operands choice))
      category := by
  intro ι cursor choice
  simp only [chain_eq]
  have hwritable : ∃ row, row ∈ Operators.linked kinds category' := ⟨[], Operators.nil_mem_linked⟩
  refine ((hoperand _ cursor _).bind hwritable fun first between _ =>
    (allLinks_promptAt hoperand htakes htakes' _).finish).mono ?_
  rintro _ ⟨front, hfront, back, ⟨operators, hamong, hback⟩, rfl⟩
  refine hcategory operators.texts ▸ (production hamong).language_le ?_
  rw [Item.language_part]
  exact Language.append_mem_mul hfront hback

/-- Behind an operator the right operand is missing or refused; without one the comparison is over.
-/
theorem comparison_prompt (hoperand : Prompt operand operands .sum) :
    Prompt (comparison operand) (fun choice => comparison (operands choice)) .comparison := by
  intro ι cursor choice
  -- behind the first operand there may be an operator with another one
  let rest : Language TokenKind := { row | row = [] ∨
    ∃ kind ∈ TokenKind.comparisons, ∃ back ∈ Category.language .sum, row = kind :: back }
  have hwritable : ∃ row, row ∈ rest := ⟨[], .inl rfl⟩
  have hrest : Category.language .sum * rest ≤ Category.language .comparison := by
    rintro _ ⟨front, hfront, _, rfl | ⟨kind, hkind, back, hback, rfl⟩, rfl⟩
    · exact Production.operand.language_le (by simpa [Item.language_single] using hfront)
    · refine (show Production (.comparison (some "")) _ from .comparison hkind).language_le ?_
      rw [Item.language_part]
      exact Language.append_mem_mul hfront
        (Item.cons_mem_language_word (Item.language_single ▸ hback))
  refine ((hoperand _ cursor _).bind hwritable fun left between _ => ?_).mono hrest
  refine .accept? (fun _ => promptAt_pure (Or.inl rfl)) fun operator after hkind _ => ?_
  exact (hoperand _ after _).finish.mono fun back hback => .inr ⟨_, hkind, back, hback, rfl⟩

/-- The ladder of levels: each is prompt because the one below it is. -/
theorem expressionOver_prompt {level : Nat} {level' : κ → Nat}
    (hinner : Prompt inner inners .expression) (hsound : Sound inner .expression level)
    (hsounds : ∀ choice, Sound (inners choice) .expression (level' choice)) :
    Prompt (expressionOver inner) (fun choice => expressionOver (inners choice)) .expression := by
  have hnegation : Prompt (negation inner) (fun choice => negation (inners choice)) .negation :=
    stacked_prompt .negation (fun _ => rfl) (value_prompt hinner)
  have hsigned : Prompt (signed inner) (fun choice => signed (inners choice)) .signed :=
    stacked_prompt .signed (fun _ => rfl) hnegation
  have hproduct : Prompt (product inner) (fun choice => product (inners choice)) .product :=
    chain_prompt .product (fun _ => rfl) hsigned (Sound.takes (signed_sound hsound))
      fun choice => Sound.takes (signed_sound (hsounds choice))
  have hsum : Prompt (sum inner) (fun choice => sum (inners choice)) .sum :=
    chain_prompt .sum (fun _ => rfl) hproduct (Sound.takes (product_sound hsound))
      fun choice => Sound.takes (product_sound (hsounds choice))
  have hlogical : Prompt (logical inner) (fun choice => logical (inners choice)) .logical :=
    chain_prompt .logical (fun _ => rfl) (comparison_prompt hsum)
      (Sound.takes (comparison_sound (sum_sound hsound)))
      fun choice => Sound.takes (comparison_sound (sum_sound (hsounds choice)))
  intro ι cursor choice
  unfold expressionOver
  exact ((hlogical _ _ _).part fun _ _ => promptAt_finish).mono Production.expression.language_le

/-- What an expression reads in parentheses. -/
def parenthesized : (levels : Nat) → Parser Node
  | 0 => refuseNesting
  | levels + 1 => Parser.expression levels

/-- At every level an expression is read over what parentheses may hold. -/
theorem expression_eq (levels : Nat) :
    Parser.expression levels = expressionOver (parenthesized levels) := by
  cases levels <;> rfl

theorem parenthesized_sound (levels : Nat) : Sound (parenthesized levels) .expression levels := by
  cases levels with
  | zero => exact refuseNesting_sound _ _
  | succ levels => exact expression_sound levels

/-- A level less on both sides. -/
private theorem exists_less {deeper : κ → Nat} (h : ∀ choice, levels + 1 ≤ deeper choice) :
    ∃ less : κ → Nat, deeper = (fun choice => less choice + 1) ∧
      ∀ choice, levels ≤ less choice :=
  ⟨fun choice => deeper choice - 1, funext fun choice =>
      (Nat.sub_add_cancel (Nat.le_trans (Nat.le_add_left 1 levels) (h choice))).symm,
    fun choice => Nat.le_sub_one_of_lt (h choice)⟩

/-- At the limit the reader only refuses to nest; below it the readers of expressions are compared.
-/
theorem parenthesized_prompt {deeper : κ → Nat} (h : ∀ choice, levels ≤ deeper choice) :
    Prompt (parenthesized levels) (fun choice => parenthesized (deeper choice)) .expression := by
  induction levels generalizing deeper with
  | zero => exact refuseNesting_prompt _ _
  | succ levels ih =>
    obtain ⟨less, rfl, hless⟩ := exists_less h
    show Prompt (Parser.expression levels) (fun choice => Parser.expression (less choice)) _
    simp only [expression_eq]
    exact expressionOver_prompt (ih hless) (parenthesized_sound levels)
      fun choice => parenthesized_sound (less choice)

/-- Expressions that may nest deeper are read the same, as far as the lower limit lets them. -/
theorem expression_prompt {deeper : κ → Nat} (h : ∀ choice, levels ≤ deeper choice) :
    Prompt (Parser.expression levels) (fun choice => Parser.expression (deeper choice))
      .expression := by
  simp only [expression_eq]
  exact expressionOver_prompt (parenthesized_prompt h) (parenthesized_sound levels)
    fun choice => parenthesized_sound (deeper choice)

/-! ## Declarations and assignments -/

/-- Readers that have accepted different tokens expect the same next. -/
theorem declared_promptAt {kind : String → NodeKind} {keyword : Token} {keywords : ι → Token} :
    PromptAt cursor (declared kind keyword) (fun index => declared kind (keywords index))
      (Item.language [.part .identifier]) := by
  unfold declared
  exact identifier_promptAt.part fun _ _ => promptAt_finish

theorem scalarDeclaration_promptAt :
    PromptAt cursor scalarDeclaration (fun _ : ι => scalarDeclaration)
      (Category.language .scalarDeclaration) := by
  unfold scalarDeclaration
  refine .accept? (fun _ => promptAt_refuse (Category.writable _)) fun keyword between hkind _ => ?_
  refine PromptAt.mono declared_promptAt fun row hrow => ?_
  exact (show Production (.scalarDeclaration "") _ from .scalarDeclaration hkind).language_le
    (Item.cons_mem_language_word hrow)

/-- A token that is no keyword starts neither kind of declaration. -/
theorem declaration_promptAt :
    PromptAt cursor declaration (fun _ : ι => declaration) (Category.language .declaration) := by
  unfold declaration
  refine .accept? (fun _ => ?_) fun keyword between hkind _ => ?_
  · exact (scalarDeclaration_promptAt.part fun _ _ => promptAt_finish).mono
      (Production.declaration (by decide)).language_le
  · have hlanguage : Item.language [.part .identifier]
        ≤ { row | keyword.kind :: row ∈ Category.language .declaration } := by
      intro row hrow
      refine (Production.declaration (by decide : Category.listDeclaration ∈ _)).language_le ?_
      rw [Item.language_single]
      exact (show Production (.listDeclaration "") _ from .listDeclaration hkind).language_le
        (Item.cons_mem_language_word hrow)
    exact declared_promptAt.finish.mono hlanguage

/-- The refused token stands in place of the variable, of the sign, or within the expression. -/
theorem assignment_prompt (hexpression : Prompt expression expressions .expression) :
    Prompt (assignment expression) (fun choice => assignment (expressions choice))
      .assignment := by
  intro ι cursor choice
  refine PromptAt.mono ?_ Production.assignment.language_le
  unfold assignment
  exact identifier_promptAt.part fun _ _ => .mark fun _ _ => (hexpression _ _ _).part fun _ _ =>
    promptAt_finish

/-! ## Statements -/

/-- By induction on the tokens that are left. Statements are read until a brace or the end, so a
refusal is one of a statement. -/
theorem allStatements_promptAt (hstatement : Prompt statement statements .statement)
    (htakes : Takes 1 statement) (htakes' : ∀ choice, Takes 1 (statements choice))
    (choice : ι → κ) :
    PromptAt cursor (allStatements statement)
      (fun index => allStatements (statements (choice index))) (Category.language .block) := by
  -- on the number of tokens left, as every statement takes one
  induction hlength : cursor.rest.length using Nat.strongRecOn generalizing ι cursor with
  | _ length ih =>
  rw [allStatements_eq htakes, funext fun index => allStatements_eq (htakes' (choice index))]
  refine .nextKind? ?_
  split
  · exact promptAt_pure Category.nil_mem_block
  · exact promptAt_pure Category.nil_mem_block
  · have hwritable : ∃ row, row ∈ Category.language .block := ⟨[], Category.nil_mem_block⟩
    refine ((hstatement _ cursor _).bind hwritable fun first after hfirst => ?_).mono ?_
    · exact (ih _ (hlength ▸ htakes hfirst) _ rfl).finish
    · rintro _ ⟨front, hfront, back, hback, rfl⟩
      exact Category.append_mem_block hfront hback

/-- A block is its statements. -/
theorem block_prompt (hstatement : Prompt statement statements .statement)
    (htakes : Takes 1 statement) (htakes' : ∀ choice, Takes 1 (statements choice)) :
    Prompt (block statement) (fun choice => block (statements choice)) .block := by
  intro ι cursor choice
  simp only [block_eq]
  exact .nextSpan fun start => (allStatements_promptAt hstatement htakes htakes' _).finish

/-- A refusal is one of a parenthesis or one within the expression. -/
theorem condition_promptAt (hexpression : Prompt expression expressions .expression)
    (choice : ι → κ) :
    PromptAt cursor (condition expression) (fun index => condition (expressions (choice index)))
      (Item.language [.mark .leftParen, .part .expression, .mark .rightParen]) := by
  unfold condition
  exact .mark fun _ _ => (hexpression _ _ _).part fun _ _ => .mark fun _ _ => promptAt_finish

/-- Each part of the production is read in turn, and the first that is refused decides. -/
theorem conditional_prompt (hstatement : Prompt statement statements .statement)
    (hexpression : Prompt expression expressions .expression) :
    Prompt (conditional statement expression)
      (fun choice => conditional (statements choice) (expressions choice)) .conditional := by
  intro ι cursor choice
  -- behind the branch there may be another one
  let other : Language TokenKind := 1 + Item.language [.mark .elseKeyword, .part .statement]
  have hother : ∃ row, row ∈ other := ⟨[], .inl rfl⟩
  have hbranch : ∃ row, row ∈ Category.language .statement * other :=
    exists_mem_mul (Category.writable _) hother
  have hlanguage : {[TokenKind.ifKeyword]} *
      (Item.language [.mark .leftParen, .part .expression, .mark .rightParen] *
        (Category.language .statement * other)) ≤ Category.language .conditional := by
    have hconditional := Production.conditional.language_le
    have halternative := Production.alternative.language_le
    simp only [other, Item.language_mark, Item.language_part, Item.language_nil, mul_one, mul_add,
      mul_assoc] at hconditional halternative ⊢
    exact add_le hconditional halternative
  refine (promptAt_expect.bind (exists_mem_mul (Item.writable _) hbranch) fun start _ _ =>
    (condition_promptAt hexpression _).bind hbranch fun test _ _ =>
    (hstatement _ _ _).bind hother fun branch after _ => ?_).mono hlanguage
  refine .accept? (fun _ => ?_) fun _ _ hkind _ => ?_
  · simp only [pure_bind]
    refine .previousSpan fun _ => ?_
    exact promptAt_pure (Or.inl rfl)
  · simp only [pure_bind]
    have hpart : Item.language [.part .statement] ≤ { row | .elseKeyword :: row ∈ other } :=
      fun row hrow => .inr (Item.cons_mem_language_mark hrow)
    rw [List.mem_singleton.mp hkind]
    refine ((hstatement _ _ _).part fun _ _ => ?_).mono hpart
    exact .previousSpan fun _ => promptAt_finish

theorem whileLoop_prompt (hstatement : Prompt statement statements .statement)
    (hexpression : Prompt expression expressions .expression) :
    Prompt (whileLoop statement expression)
      (fun choice => whileLoop (statements choice) (expressions choice)) .whileLoop := by
  intro ι cursor choice
  refine PromptAt.mono ?_ Production.whileLoop.language_le
  unfold whileLoop condition
  simp only [bind_assoc, pure_bind]
  exact .mark fun _ _ => .mark fun _ _ => (hexpression _ _ _).part fun _ _ => .mark fun _ _ =>
    (hstatement _ _ _).part fun _ _ => promptAt_finish

/-- The production is longer, and each of its items is read in turn as well. -/
theorem forLoop_prompt (hstatement : Prompt statement statements .statement)
    (hexpression : Prompt expression expressions .expression) :
    Prompt (forLoop statement expression)
      (fun choice => forLoop (statements choice) (expressions choice)) .forLoop := by
  intro ι cursor choice
  have hassignment := assignment_prompt hexpression
  refine PromptAt.mono ?_ Production.forLoop.language_le
  unfold forLoop
  exact .mark fun _ _ => .mark fun _ _ => (hassignment _ _ _).part fun _ _ => .mark fun _ _ =>
    (hexpression _ _ _).part fun _ _ => .mark fun _ _ => (hassignment _ _ _).part fun _ _ =>
    .mark fun _ _ => (hstatement _ _ _).part fun _ _ => promptAt_finish

theorem foreachLoop_prompt (hstatement : Prompt statement statements .statement) :
    Prompt (foreachLoop statement) (fun choice => foreachLoop (statements choice))
      .foreachLoop := by
  intro ι cursor choice
  refine PromptAt.mono ?_ Production.foreachLoop.language_le
  unfold foreachLoop
  exact .mark fun _ _ => .mark fun _ _ => scalarDeclaration_promptAt.part fun _ _ =>
    .mark fun _ _ => identifier_promptAt.part fun _ _ => .mark fun _ _ =>
    (hstatement _ _ _).part fun _ _ => promptAt_finish

/-- A construct and the token that closes it. -/
theorem PromptAt.closed {close : TokenKind} {category : Category} {readers : ι → Parser Node}
    (h : PromptAt cursor inner readers category.language) :
    PromptAt cursor (closed close inner) (fun index => closed close (readers index))
      (Item.language [.part category, .mark close]) := by
  unfold Parser.closed
  exact h.part fun _ _ => .mark fun _ _ => promptAt_finish

/-- The construct of a statement, whichever its first token tells. -/
theorem construct_promptAt (hstatement : Prompt statement statements .statement)
    (hblock : Prompt (block statement) (fun choice => block (statements choice)) .block)
    (hexpression : Prompt expression expressions .expression) (choice : ι → κ)
    (kind? : Option TokenKind) :
    PromptAt cursor (construct statement expression kind?)
      (fun index => construct (statements (choice index)) (expressions (choice index)) kind?)
      (Category.language .statement) := by
  have hcompound {category : Category}
      (hcategory : category ∈ [.conditional, .whileLoop, .forLoop, .foreachLoop]) :
      category.language ≤ Category.language .statement :=
    Item.language_single ▸ (Production.compound hcategory).language_le
  -- one case for each first token a statement can have
  unfold construct
  split
  · exact (conditional_prompt hstatement hexpression _ _ _).mono (hcompound (by decide))
  · exact (whileLoop_prompt hstatement hexpression _ _ _).mono (hcompound (by decide))
  · exact (forLoop_prompt hstatement hexpression _ _ _).mono (hcompound (by decide))
  · exact (foreachLoop_prompt hstatement _ _ _).mono (hcompound (by decide))
  · refine PromptAt.mono (.mark fun _ _ => ?_) Production.braces.language_le
    exact (hblock _ _ _).closed
  · exact declaration_promptAt.closed.mono (Production.simple (by decide)).language_le
  · exact declaration_promptAt.closed.mono (Production.simple (by decide)).language_le
  · exact declaration_promptAt.closed.mono (Production.simple (by decide)).language_le
  · exact declaration_promptAt.closed.mono (Production.simple (by decide)).language_le
  · exact (assignment_prompt hexpression _ _ _).closed.mono
      (Production.simple (by decide)).language_le
  · exact promptAt_refuse (Category.writable _)

/-- The constructs of a statement start with different tokens, so one of them decides. -/
theorem statementOver_prompt (hstatement : Prompt statement statements .statement)
    (hblock : Prompt (block statement) (fun choice => block (statements choice)) .block)
    (hexpression : Prompt expression expressions .expression) :
    Prompt (statementOver statement expression)
      (fun choice => statementOver (statements choice) (expressions choice)) .statement := by
  intro ι cursor choice
  have hbody {ι : Type} (choice : ι → κ) : PromptAt cursor (statementBody statement expression)
      (fun index => statementBody (statements (choice index)) (expressions (choice index)))
      (Category.language .statement) :=
    .nextKind? (construct_promptAt hstatement hblock hexpression _ _)
  unfold statementOver
  rw [← mul_one (Category.language .statement)]
  refine .nextSpan fun start => (hbody _).bind ⟨[], Language.nil_mem_one⟩ fun content _ _ => ?_
  exact .previousSpan fun stop => promptAt_pure Language.nil_mem_one

/-- Statements that may nest deeper are read the same, as far as the lower limit lets them. -/
theorem statement_prompt {deeper : κ → Nat} (h : ∀ choice, levels ≤ deeper choice) :
    Prompt (Parser.statement levels) (fun choice => Parser.statement (deeper choice))
      .statement := by
  induction levels generalizing deeper with
  | zero => exact refuseNesting_prompt _ _
  | succ levels ih =>
    obtain ⟨less, rfl, hless⟩ := exists_less h
    have hblock := block_prompt (ih hless) (Sound.takes_one (statement_sound levels))
      fun choice => Sound.takes_one (statement_sound (less choice))
    exact statementOver_prompt (ih hless) hblock (expression_prompt hless)

/-- The same for the statements of a whole program. -/
theorem block_statement_prompt {deeper : κ → Nat} (h : ∀ choice, levels ≤ deeper choice) :
    Prompt (block (Parser.statement levels))
      (fun choice => block (Parser.statement (deeper choice))) .block :=
  block_prompt (statement_prompt h) (Sound.takes_one (statement_sound levels))
    fun choice => Sound.takes_one (statement_sound (deeper choice))

/-! ## Programs -/

/-- The levels that a program may need. -/
abbrev Deeper : Type := { levels : Nat // nestingLimit ≤ levels }

/-- A row that begins a program is seen by a reader that reads the program to its end, with as many
levels as it takes. -/
theorem exists_runs_of_viable {front : List Token} {between : Cursor} {next : Token}
    (hnext : next ∈ between.rest.head?) (h : Viable ((front ++ [next]).map Token.kind)) :
    ∃ (levels : Deeper) (other : Cursor), other.Glimpses front between ∧
      ∃ answer after, Runs (block (Parser.statement levels)) other answer after ∧
        after.rest = [] := by
  obtain ⟨row, hrow, hprefix⟩ := h
  rw [Category.language_program] at hrow
  obtain ⟨_, tokens, hderives, rfl⟩ := hrow
  -- the reader builds the tree with every `else` at its nearest conditional
  obtain ⟨tree, hderives, hnearest⟩ := hderives.exists_nearestElse
  let levels : Deeper := ⟨max nestingLimit tree.nesting, Nat.le_max_left _ _⟩
  have hreads := block_complete (statement_complete levels) [] hderives hnearest (by simp)
  obtain ⟨answer, after, hrun, hmoved, -⟩ := (hreads (.atStart tokens) (by simp [Cursor.atStart])).1
    (Nat.lt_succ_of_le (Nat.le_max_right _ _))
  refine ⟨levels, .atStart tokens, ⟨next, hnext, hprefix⟩, answer, after, hrun, ?_⟩
  simpa [Cursor.atStart] using hmoved.rest

/-- A program is refused behind the beginning of one, and no program goes on with the next
token. -/
theorem program_fails_viable {tokens : List Token} {error : ParseError}
    (hfail : Fails program (.atStart tokens) error) (hfault : error.fault ≠ .nestingExceeded) :
    ∃ front between, (Cursor.atStart tokens).Advances front between ∧ error.span = between.span ∧
      Viable (front.map Token.kind) ∧
      ∀ next ∈ between.rest.head?, ¬ Viable ((front ++ [next]).map Token.kind) := by
  have hprompt :=
    block_statement_prompt (fun levels : Deeper => levels.2) Deeper (.atStart tokens) id
  rcases fails_bind.mp hfail with hblock | ⟨content, between, hblock, hend⟩
  · -- inside the statements
    obtain ⟨front, between, hmoved, hspan, ⟨row, hrow, hprefix⟩, hothers⟩ :=
      hprompt.fails hblock hfault
    refine ⟨front, between, hmoved, hspan,
      ⟨row, Category.language_program ▸ hrow, hprefix⟩, fun next hnext hviable => ?_⟩
    obtain ⟨levels, other, hglimpse, answer, after, hrun, -⟩ := exists_runs_of_viable hnext hviable
    obtain ⟨error', hfail'⟩ := hothers levels other hglimpse
    cases hrun.symm.trans hfail'
  · -- behind the statements, where a program is over
    obtain ⟨front, hmoved, hmem, hothers⟩ := hprompt.runs hblock
    refine ⟨front, between, hmoved, ?_, ⟨_, Category.language_program ▸ hmem, List.prefix_rfl⟩,
      fun next hnext hviable => ?_⟩
    · obtain hfinish | ⟨_, _, _, hpure⟩ := fails_bind.mp hend
      · obtain ⟨-, rfl⟩ := fails_finish.mp hfinish
        rfl
      · cases hpure
    · obtain ⟨levels, other, hglimpse, answer, after, hrun, hafter⟩ :=
        exists_runs_of_viable hnext hviable
      obtain ⟨answer', between', hrun', hsame⟩ := hothers levels other hglimpse
      obtain ⟨-, rfl⟩ := Prod.mk.inj (Except.ok.inj (hrun.symm.trans hrun'))
      -- nothing is left where the next token should be
      rw [← List.append_nil front] at hglimpse
      obtain ⟨_, -, hprefix⟩ := hglimpse.drop hsame
      simp [hafter] at hprefix

end Parser

variable {tokens : List Token}

/-- Where a cursor stands between tokens, told by the number of those in front of it. -/
theorem Cursor.Advances.span_atStart {front : List Token} {between : Cursor}
    (h : (Cursor.atStart tokens).Advances front between) (hsome : tokens ≠ []) :
    (∀ token, tokens[front.length]? = some token → between.span = token.span) ∧
      (front.length = tokens.length →
        ∃ last, tokens.getLast? = some last ∧ between.span = .emptyAt last.span.stop) := by
  have hrest : tokens = front ++ between.rest := h.rest
  refine ⟨fun token htoken => ?_, fun hlength => ?_⟩
  · rw [hrest, List.getElem?_append_right (Nat.le_refl _), Nat.sub_self] at htoken
    obtain ⟨others, hothers⟩ := List.head?_eq_some_iff.mp (List.head?_eq_getElem? ▸ htoken)
    rw [Cursor.span, hothers]
  · have hnil : between.rest = [] := by
      have := congrArg List.length hrest
      rw [List.length_append] at this
      exact List.length_eq_zero_iff.mp (by omega)
    rw [hnil, List.append_nil] at hrest
    obtain ⟨last, hlast⟩ : ∃ last, tokens.getLast? = some last :=
      ⟨_, List.getLast?_eq_some_getLast hsome⟩
    refine ⟨last, hlast, ?_⟩
    rw [Cursor.span, hnil, h.previous, ← hrest, hlast]
    rfl

/-- **First impossible token**. If tokens are refused, though not for their nesting, then at a token
in front of which they are the beginning of a program, and with which they no longer are, or behind
all of them while they still are the beginning of a program. -/
theorem parse_error_at_first_impossible {text : String} {span : Span}
    (h : parse tokens = .error (.grammatical text span))
    (hnesting : text ≠ ParseFault.nestingExceeded.message) :
    ∃ index ≤ tokens.length,
      (∀ token, tokens[index]? = some token → span = token.span) ∧
      (index = tokens.length →
        ∃ last, tokens.getLast? = some last ∧ span = .emptyAt last.span.stop) ∧
      Viable ((tokens.take index).map Token.kind) ∧
      (index < tokens.length → ¬ Viable ((tokens.take (index + 1)).map Token.kind)) := by
  have hsome : tokens ≠ [] := by
    rintro rfl
    cases h
  obtain ⟨error, hfail, rfl, rfl⟩ : ∃ error, Parser.Fails Parser.program (.atStart tokens) error ∧
      text = error.fault.message ∧ span = error.span := by
    rw [parse_eq] at h
    split at h <;> cases h
    exact ⟨_, by assumption, rfl, rfl⟩
  obtain ⟨front, between, hmoved, hspan, hviable, hnext⟩ :=
    Parser.program_fails_viable hfail fun hfault => hnesting (by rw [hfault])
  obtain ⟨hat, hbehind⟩ := hmoved.span_atStart hsome
  have hrest : tokens = front ++ between.rest := hmoved.rest
  have htake : tokens.take front.length = front := by rw [hrest, List.take_left]
  rw [hspan]
  refine ⟨front.length, by rw [hrest, List.length_append]; omega, hat, hbehind, ?_, fun hlt => ?_⟩
  · rwa [htake]
  · obtain ⟨next, others, hothers⟩ : ∃ next others, between.rest = next :: others := by
      refine List.exists_cons_of_ne_nil fun hnil => ?_
      rw [hrest, hnil, List.append_nil] at hlt
      exact Nat.lt_irrefl _ hlt
    have htake' : tokens.take (front.length + 1) = front ++ [next] := by
      rw [hrest, hothers, List.take_append]
      simp
    rw [htake']
    exact hnext next (by rw [hothers]; rfl)

/-- A second comparison behind a first one is refused at its operator. -/
theorem parse_error_at_second_comparison :
    let tokens : List Token := [TokenKind.identifier, .assign, .identifier, .less, .identifier,
      .less, .identifier, .semicolon].zipIdx.map fun (kind, place) =>
        ⟨kind, kind.spelling, .ofOffset place, .ofOffset (place + 1)⟩
    let span : Span := ⟨.ofOffset 5, .ofOffset 6⟩
    parse tokens = .error (.grammatical "Expected ';', found '<'" span) ∧
      "Expected ';', found '<'" ≠ ParseFault.nestingExceeded.message ∧
      ∃ index ≤ tokens.length,
        (∀ token, tokens[index]? = some token → span = token.span) ∧
        (index = tokens.length →
          ∃ last, tokens.getLast? = some last ∧ span = .emptyAt last.span.stop) ∧
        Viable ((tokens.take index).map Token.kind) ∧
        (index < tokens.length → ¬ Viable ((tokens.take (index + 1)).map Token.kind)) := by
  intro tokens span
  have hrefused : parse tokens = .error (.grammatical "Expected ';', found '<'" span) :=
    (parse_eq tokens).trans rfl
  have hnesting : "Expected ';', found '<'" ≠ ParseFault.nestingExceeded.message := by decide
  exact ⟨hrefused, hnesting, parse_error_at_first_impossible hrefused hnesting⟩

end Census
