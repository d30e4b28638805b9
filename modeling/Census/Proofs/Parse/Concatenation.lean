import Census.Proofs.Parse.Loops
import Census.Proofs.Parse.Places
import Census.Proofs.Token.Spelling

/-!
# Programs one behind the other

Two programs that are written one behind the other are one program, and its statements are those of
the first one and then those of the second one.

A reader looks at the token behind what it reads, and asks where the token in front of it ends. But
no statement starts with a token that goes on with another one, and before a reader asks for the
token behind it, it has read one. So what is read within a row of tokens is read alike where other
tokens come before and behind the row.

- `Separate`: tokens that go on with nothing in front of them.
- `Parser.Embeds`: a reader that reads alike in a longer row. There is a lemma for each reader.
- `parse_append`: two programs in a row.
-/

namespace Census

/-- The kinds of tokens that go on with what may be over in front of them: operators behind an
operand, and `else` behind a branch. -/
def TokenKind.resuming : List TokenKind :=
  [elseKeyword, bang, plus, minus, star, slash, percent, conjunction, disjunction] ++ comparisons

/-- The tokens go on with nothing that stands in front of them. -/
def Separate (tokens : List Token) : Prop :=
  ∀ token ∈ tokens.head?, token.kind ∉ TokenKind.resuming

theorem Separate.not_mem {tokens : List Token} (h : Separate tokens) {kinds : List TokenKind}
    (hkinds : kinds ⊆ TokenKind.resuming) : ∀ token ∈ tokens.head?, token.kind ∉ kinds :=
  fun token htoken hkind => h token htoken (hkinds hkind)

/-- Nothing follows behind the last program. -/
theorem separate_nil : Separate [] := nofun

namespace Cursor

variable {cursor wider after after' : Cursor} {tokens more : List Token}

/-- What is next is seen in a longer row as well. -/
theorem head?_of_wider {P : Token → Prop} (hwider : wider.rest = cursor.rest ++ more)
    (h : ∀ token ∈ cursor.rest.head?, P token) (hmore : ∀ token ∈ more.head?, P token) :
    ∀ token ∈ wider.rest.head?, P token := by
  rw [hwider]
  cases hrest : cursor.rest with
  | nil => exact hmore
  | cons token others => simpa [hrest] using h

namespace Advances

/-- Moving over the same tokens leaves the same ones before those that were added. -/
theorem rest_of_wider (h : cursor.Advances tokens after) (h' : wider.Advances tokens after')
    (hwider : wider.rest = cursor.rest ++ more) : after'.rest = after.rest ++ more := by
  rw [h'.rest, h.rest, List.append_assoc] at hwider
  exact List.append_cancel_left hwider

/-- A cursor in a longer row can be moved over the same tokens. -/
theorem exists_of_wider (h : cursor.Advances tokens after)
    (hwider : wider.rest = cursor.rest ++ more) : ∃ after', wider.Advances tokens after' :=
  ⟨⟨tokens.getLast?.or wider.previous, after.rest ++ more⟩,
    by rw [hwider, h.rest, List.append_assoc], rfl⟩

/-- Where the tokens begin and end does not depend on the row they stand in. -/
theorem spans_of_wider (h : cursor.Advances tokens after) (h' : wider.Advances tokens after')
    (hsome : tokens ≠ []) :
    wider.span = cursor.span ∧ after'.previousSpan = after.previousSpan := by
  obtain ⟨first, others, rfl⟩ := List.exists_cons_of_ne_nil hsome
  obtain ⟨last, hlast⟩ : ∃ last, (first :: others).getLast? = some last :=
    ⟨_, List.getLast?_eq_some_getLast hsome⟩
  rw [h.span_eq, h'.span_eq, h.previousSpan_eq hlast, h'.previousSpan_eq hlast]
  exact ⟨rfl, rfl⟩

end Advances

end Cursor

namespace Parser

variable {α β : Type} {more : List Token}

/-- What the parser reads at the cursor it reads alike, with the same answer, where other tokens
were read before and where `more` follows behind all tokens left. -/
def EmbedsAt (more : List Token) (cursor : Cursor) (parser : Parser α) : Prop :=
  ∀ ⦃answer after⦄, Runs parser cursor answer after →
    ∃ tokens, cursor.Advances tokens after ∧
      ∀ wider : Cursor, wider.rest = cursor.rest ++ more →
        ∃ after', Runs parser wider answer after' ∧ wider.Advances tokens after'

/-- What the parser reads it reads alike in a longer row. -/
def Embeds (more : List Token) (parser : Parser α) : Prop :=
  ∀ cursor, EmbedsAt more cursor parser

/-! ## Steps -/

section Steps

variable {parser : Parser α} {kinds : List TokenKind} {kind : TokenKind}

/-- Who reads nothing does not see what is added. -/
theorem embeds_pure {answer : α} : Embeds more (pure answer : Parser α) := by
  intro cursor answer' after hrun
  obtain ⟨rfl, rfl⟩ := runs_pure.mp hrun
  exact ⟨[], .refl _, fun wider _ => ⟨wider, runs_pure.mpr ⟨rfl, rfl⟩, .refl _⟩⟩

/-- Refusals read nothing; only what is read has to be read alike. -/
theorem embeds_refuse {what : Expectation} : Embeds more (refuse what : Parser α) :=
  fun _ _ _ hrun => absurd hrun not_runs_refuse

theorem embeds_refuseNesting : Embeds more (refuseNesting : Parser α) :=
  fun _ _ _ hrun => absurd hrun not_runs_refuseNesting

/-- The second of two parsers in a row starts where the first one ends. -/
theorem EmbedsAt.bind {cursor : Cursor} {next : α → Parser β} (h : EmbedsAt more cursor parser)
    (hnext : ∀ answer between, Runs parser cursor answer between →
      EmbedsAt more between (next answer)) : EmbedsAt more cursor (parser >>= next) := by
  intro answer after hrun
  obtain ⟨first, between, hfirst, hrest⟩ := runs_bind.mp hrun
  obtain ⟨front, hmoved, hwide⟩ := h hfirst
  obtain ⟨back, hmoved', hwide'⟩ := hnext first between hfirst hrest
  refine ⟨front ++ back, hmoved.trans hmoved', fun wider hwider => ?_⟩
  obtain ⟨between', hfirst', hwideMoved⟩ := hwide wider hwider
  obtain ⟨after', hrest', hwideMoved'⟩ := hwide' between' (hmoved.rest_of_wider hwideMoved hwider)
  exact ⟨after', runs_bind.mpr ⟨first, between', hfirst', hrest'⟩, hwideMoved.trans hwideMoved'⟩

/-- The second reader starts where the first one ends, in both rows. -/
theorem Embeds.bind {next : α → Parser β} (h : Embeds more parser)
    (hnext : ∀ answer, Embeds more (next answer)) : Embeds more (parser >>= next) :=
  fun cursor => (h cursor).bind fun answer between _ => hnext answer between

/-- A choice by the next token, if no token that follows would be taken for it. -/
theorem embeds_accept? (hmore : ∀ token ∈ more.head?, token.kind ∉ kinds) :
    Embeds more (accept? kinds) := by
  intro cursor token? after hrun
  cases token? with
  | none =>
    obtain ⟨hnone, rfl⟩ := runs_accept?_none.mp hrun
    refine ⟨[], .refl _, fun wider hwider => ⟨wider, ?_, .refl _⟩⟩
    exact runs_accept?_none.mpr ⟨Cursor.head?_of_wider hwider hnone hmore, rfl⟩
  | some token =>
    obtain ⟨hkind, hone⟩ := runs_accept?_some.mp hrun
    refine ⟨[token], hone, fun wider hwider => ?_⟩
    obtain ⟨after', hone'⟩ := hone.exists_of_wider hwider
    exact ⟨after', runs_accept?_some.mpr ⟨hkind, hone'⟩, hone'⟩

/-- A choice by the next token, if what is read without it needs a token as well. -/
theorem embeds_accept?_bind {next : Option Token → Parser β}
    (hnone : ∀ ⦃cursor answer after⦄, Runs (next none) cursor answer after → cursor.rest ≠ [])
    (hnext : ∀ token?, Embeds more (next token?)) : Embeds more (accept? kinds >>= next) := by
  intro cursor answer after hrun
  rcases runs_accept?_bind.mp hrun with ⟨hother, hrest⟩ | ⟨token, between, hkind, hone, hrest⟩
  · obtain ⟨tokens, hmoved, hwide⟩ := hnext none _ hrest
    refine ⟨tokens, hmoved, fun wider hwider => ?_⟩
    obtain ⟨after', hrest', hmoved'⟩ := hwide wider hwider
    have hhead : wider.rest.head? = cursor.rest.head? := by
      obtain ⟨first, others, hfirst⟩ := List.exists_cons_of_ne_nil (hnone hrest)
      rw [hwider, hfirst]
      rfl
    exact ⟨after', runs_accept?_bind.mpr (.inl ⟨hhead ▸ hother, hrest'⟩), hmoved'⟩
  · obtain ⟨tokens, hmoved, hwide⟩ := hnext (some token) _ hrest
    refine ⟨token :: tokens, hone.cons hmoved, fun wider hwider => ?_⟩
    obtain ⟨between', hone'⟩ := hone.exists_of_wider hwider
    obtain ⟨after', hrest', hmoved'⟩ := hwide between' (hone.rest_of_wider hone' hwider)
    exact ⟨after', runs_accept?_bind.mpr (.inr ⟨token, between', hkind, hone', hrest'⟩),
      hone'.cons hmoved'⟩

/-- A token of some kind has to be next. -/
theorem embeds_required {what : Expectation} {next : Token → Parser β}
    (hnext : ∀ token, Embeds more (next token)) : Embeds more (do
      let some token ← accept? kinds | refuse what
      next token) := by
  refine embeds_accept?_bind (fun _ _ _ hrun => absurd hrun not_runs_refuse) fun token? => ?_
  cases token? with
  | none => exact embeds_refuse
  | some token => exact hnext token

/-- A token that is expected has been read, so it is the same token in the longer row. -/
theorem embeds_expect : Embeds more (expect kind) :=
  embeds_required fun _ => embeds_pure

theorem embeds_identifier : Embeds more identifier :=
  embeds_required fun _ => embeds_pure

end Steps

variable {inner operand statement expression : Parser Node} {kinds : List TokenKind}

/-- Readers do not give tokens back, since in a longer row they move over the same ones. -/
theorem Embeds.takes (h : Embeds more operand) : Takes 0 operand := by
  intro cursor tree after hrun
  obtain ⟨tokens, hmoved, -⟩ := h _ hrun
  simp [hmoved.rest]

/-- A statement has a token or more, as its tree stands on them. -/
theorem Places.takes (h : Places statement) : Takes 1 statement := by
  intro cursor tree after hrun
  obtain ⟨tokens, hmoved, hplaced⟩ := h hrun
  have hsome := List.length_pos_iff.mpr hplaced.covers.nonempty
  rw [hmoved.rest, List.length_append]
  omega

/-! ## Expressions -/

/-- A value ends with a token it has read, so it never looks at what is added. -/
theorem value_embeds (hinner : Embeds more inner) : Embeds more (value inner) := by
  intro cursor tree after h
  obtain ⟨token, between, hone, h⟩ := runs_value.mp h
  rcases h with ⟨kind, hleaf, rfl, rfl⟩ |
    ⟨hkind, content, inside, close, hcontent, hclose, hlast, rfl⟩
  · refine ⟨[token], hone, fun wider hwider => ?_⟩
    obtain ⟨after', hone'⟩ := hone.exists_of_wider hwider
    obtain ⟨hstart, hstop⟩ := hone.spans_of_wider hone' (by simp)
    exact ⟨after', runs_value.mpr ⟨token, after', hone', .inl ⟨kind, hleaf,
      by rw [hstart, hstop], rfl⟩⟩, hone'⟩
  · obtain ⟨tokens, hmoved, hwide⟩ := hinner _ hcontent
    have hall := hone.cons (hmoved.trans hlast)
    refine ⟨_, hall, fun wider hwider => ?_⟩
    obtain ⟨between', hone'⟩ := hone.exists_of_wider hwider
    have hbetween := hone.rest_of_wider hone' hwider
    obtain ⟨inside', hcontent', hmoved'⟩ := hwide between' hbetween
    obtain ⟨after', hlast'⟩ := hlast.exists_of_wider (hmoved.rest_of_wider hmoved' hbetween)
    have hall' := hone'.cons (hmoved'.trans hlast')
    obtain ⟨hstart, hstop⟩ := hall.spans_of_wider hall' (by simp)
    exact ⟨after', runs_value.mpr ⟨token, between', hone', .inr ⟨hkind, content, inside', close,
      hcontent', hclose, hlast', by rw [hstart, hstop]⟩⟩, hall'⟩

/-- A run of operators is over where no more of them follow, also at the end of the row if what is
added starts with none. -/
theorem stacked_embeds {kind : List String → NodeKind}
    (hmore : ∀ token ∈ more.head?, token.kind ∉ kinds) (hoperand : Embeds more operand) :
    Embeds more (stacked kinds kind operand) := by
  intro cursor tree after h
  obtain ⟨run, between, content, hrun, hkinds, hstop, hcontent, rfl⟩ := runs_stacked.mp h
  obtain ⟨tokens, hmoved, hwide⟩ := hoperand _ hcontent
  refine ⟨run ++ tokens, hrun.trans hmoved, fun wider hwider => ?_⟩
  obtain ⟨between', hrun'⟩ := hrun.exists_of_wider hwider
  have hbetween := hrun.rest_of_wider hrun' hwider
  obtain ⟨after', hcontent', hmoved'⟩ := hwide between' hbetween
  refine ⟨after', runs_stacked.mpr ⟨run, between', content, hrun', hkinds,
    Cursor.head?_of_wider hbetween hstop hmore, hcontent', ?_⟩, hrun'.trans hmoved'⟩
  -- without an operator the span is that of the operand
  cases run with
  | nil => rfl
  | cons token others => rw [hrun.span_eq, hrun'.span_eq]

/-- By induction on the tokens that are left. The last look is at the token behind the chain, which
must not go on with it. -/
theorem allLinks_embeds (hmore : ∀ token ∈ more.head?, token.kind ∉ kinds)
    (hoperand : Embeds more operand) : Embeds more (allLinks kinds operand) := by
  intro cursor
  -- on the number of tokens left, as an operator takes one
  induction hlength : cursor.rest.length using Nat.strongRecOn generalizing cursor with
  | _ length ih =>
  rw [allLinks_eq kinds hoperand.takes]
  refine (embeds_accept? hmore cursor).bind fun token? between hrun => ?_
  cases token? with
  | none => exact embeds_pure _
  | some operator =>
    obtain ⟨-, hone⟩ := runs_accept?_some.mp hrun
    refine (hoperand between).bind fun content after hcontent => ?_
    have hfewer : after.rest.length < length := by
      have htaken := hoperand.takes hcontent
      rw [← hlength, hone.rest]
      simp only [List.cons_append, List.nil_append, List.length_cons]
      omega
    exact (ih _ hfewer after rfl).bind fun _ _ _ => embeds_pure _

/-- What is added must not start with an operator of the chain. -/
theorem chain_embeds {kind : List String → NodeKind}
    (hmore : ∀ token ∈ more.head?, token.kind ∉ kinds) (hoperand : Embeds more operand) :
    Embeds more (chain kinds kind operand) := by
  rw [chain_eq]
  exact hoperand.bind fun _ => (allLinks_embeds hmore hoperand).bind fun _ => embeds_pure

/-- What is added must not start with a comparison. -/
theorem comparison_embeds (hmore : ∀ token ∈ more.head?, token.kind ∉ TokenKind.comparisons)
    (hoperand : Embeds more operand) : Embeds more (comparison operand) := by
  refine hoperand.bind fun _ => (embeds_accept? hmore).bind fun token? => ?_
  cases token? with
  | none => exact embeds_pure
  | some operator => exact hoperand.bind fun _ => embeds_pure

/-- The ladder of levels. -/
theorem expressionOver_embeds (hmore : Separate more) (hinner : Embeds more inner) :
    Embeds more (expressionOver inner) := by
  have hnegation : Embeds more (negation inner) :=
    stacked_embeds (hmore.not_mem (by decide)) (value_embeds hinner)
  have hsigned : Embeds more (signed inner) :=
    stacked_embeds (hmore.not_mem (by decide)) hnegation
  have hproduct : Embeds more (product inner) := chain_embeds (hmore.not_mem (by decide)) hsigned
  have hsum : Embeds more (sum inner) := chain_embeds (hmore.not_mem (by decide)) hproduct
  have hlogical : Embeds more (logical inner) := chain_embeds (hmore.not_mem (by decide))
    (comparison_embeds (hmore.not_mem (by decide)) hsum)
  exact hlogical.bind fun _ => embeds_pure

/-- By induction on the levels. Between parentheses the last token is a parenthesis, but an
expression may end with the row. -/
theorem expression_embeds (hmore : Separate more) (levels : Nat) :
    Embeds more (Parser.expression levels) := by
  induction levels with
  | zero => exact expressionOver_embeds hmore embeds_refuseNesting
  | succ levels ih => exact expressionOver_embeds hmore ih

/-! ## Declarations and assignments -/

/-- A declaration ends with its identifier. -/
theorem declared_embeds {kind : String → NodeKind} {keyword : Token} :
    Embeds more (declared kind keyword) :=
  embeds_identifier.bind fun _ => embeds_pure

theorem scalarDeclaration_embeds : Embeds more scalarDeclaration :=
  embeds_required fun _ => declared_embeds

theorem declaration_embeds : Embeds more declaration := by
  refine embeds_accept?_bind (fun cursor tree after hrun => ?_) fun token? => ?_
  · obtain ⟨content, between, hcontent, -⟩ := runs_bind.mp hrun
    obtain ⟨keyword, _, -, hone, -⟩ := runs_scalarDeclaration.mp hcontent
    simp [hone.rest]
  · cases token? with
    | none => exact scalarDeclaration_embeds.bind fun _ => embeds_pure
    | some keyword => exact declared_embeds.bind fun _ => embeds_pure

/-- An assignment ends where its expression does. -/
theorem assignment_embeds (hexpression : Embeds more expression) :
    Embeds more (assignment expression) :=
  embeds_identifier.bind fun _ => embeds_expect.bind fun _ =>
    hexpression.bind fun _ => embeds_pure

/-! ## Statements -/

/-- A row of statements ends before a closing brace or where no tokens are left, and goes on
everywhere else. -/
theorem runs_allStatements (htakes : Takes 1 statement) {cursor after : Cursor}
    {trees : List Node} :
    Runs (allStatements statement) cursor trees after ↔
      ((∀ token ∈ cursor.rest.head?, token.kind = .rightBrace) ∧ trees = [] ∧ after = cursor) ∨
      ((∃ token ∈ cursor.rest.head?, token.kind ≠ .rightBrace) ∧
        ∃ first between others, Runs statement cursor first between ∧
          Runs (allStatements statement) between others after ∧ trees = first :: others) := by
  have hround : Runs (allStatements statement) cursor trees after ↔
      Runs (oneStatement statement (allStatements statement)) cursor trees after := by
    rw [← allStatements_eq htakes]
  rw [hround, oneStatement, runs_nextKind?_bind]
  cases h : cursor.rest.head? with
  | none => simp
  | some token => by_cases hkind : token.kind = .rightBrace <;> simp [hkind]

/-- Statements that are read up to a brace or the end are the first ones of those that are read in
a longer row. -/
theorem allStatements_of_wider (hstatement : Embeds more statement) (htakes : Takes 1 statement)
    {cursor after : Cursor} {trees : List Node}
    (h : Runs (allStatements statement) cursor trees after) :
    ∃ tokens, cursor.Advances tokens after ∧
      ∀ wider : Cursor, wider.rest = cursor.rest ++ more →
        ∃ after', wider.Advances tokens after' ∧
          ∀ {others last}, Runs (allStatements statement) after' others last →
            Runs (allStatements statement) wider (trees ++ others) last := by
  induction trees generalizing cursor with
  | nil =>
    rcases (runs_allStatements htakes).mp h with ⟨-, -, rfl⟩ | ⟨-, _, _, _, -, -, ⟨⟩⟩
    exact ⟨[], .refl _, fun wider _ => ⟨wider, .refl _, id⟩⟩
  | cons tree trees ih =>
    obtain ⟨-, ⟨⟩, -⟩ | ⟨⟨token, htoken, hkind⟩, _, between, _, hfirst, hrest, ⟨⟩⟩ :=
      (runs_allStatements htakes).mp h
    obtain ⟨front, hmoved, hwide⟩ := hstatement cursor hfirst
    obtain ⟨back, hmoved', hwide'⟩ := ih hrest
    refine ⟨front ++ back, hmoved.trans hmoved', fun wider hwider => ?_⟩
    obtain ⟨between', hfirst', hwideMoved⟩ := hwide wider hwider
    obtain ⟨after', hwideMoved', hgo⟩ :=
      hwide' between' (hmoved.rest_of_wider hwideMoved hwider)
    refine ⟨after', hwideMoved.trans hwideMoved', fun hothers => ?_⟩
    have hhead : token ∈ wider.rest.head? := by
      rw [hwider, List.head?_append, Option.mem_def.mp htoken]
      rfl
    exact (runs_allStatements htakes).mpr
      (.inr ⟨⟨token, hhead, hkind⟩, tree, between', _, hfirst', hgo hothers, rfl⟩)

theorem condition_embeds (hexpression : Embeds more expression) :
    Embeds more (condition expression) :=
  embeds_expect.bind fun _ => hexpression.bind fun _ => embeds_expect.bind fun _ => embeds_pure

/-- What is added must not start with `else`, which would belong to a conditional at the end of the
row. -/
theorem conditional_embeds (hmore : Separate more) (hstatement : Embeds more statement)
    (hexpression : Embeds more expression) : Embeds more (conditional statement expression) := by
  intro cursor tree after h
  obtain ⟨start, started, test, tested, branch, branched, hstart, hone, htest, hbranch, h⟩ :=
    runs_conditional.mp h
  -- what is read up to the end of the branch
  obtain ⟨front, hmoved, hwide⟩ := condition_embeds hexpression started htest
  obtain ⟨back, hmoved', hwide'⟩ := hstatement tested hbranch
  have hopening := hone.cons (hmoved.trans hmoved')
  have hwiden (wider : Cursor) (hwider : wider.rest = cursor.rest ++ more) :
      ∃ started' tested' branched', wider.Advances [start] started' ∧
        Runs (condition expression) started' test tested' ∧
        Runs statement tested' branch branched' ∧
        wider.Advances (start :: (front ++ back)) branched' := by
    obtain ⟨started', hone'⟩ := hone.exists_of_wider hwider
    have hstarted := hone.rest_of_wider hone' hwider
    obtain ⟨tested', htest', hwideMoved⟩ := hwide started' hstarted
    obtain ⟨branched', hbranch', hwideMoved'⟩ :=
      hwide' tested' (hmoved.rest_of_wider hwideMoved hstarted)
    exact ⟨started', tested', branched', hone', htest', hbranch',
      hone'.cons (hwideMoved.trans hwideMoved')⟩
  rcases h with ⟨hnone, rfl, rfl⟩ | ⟨other, between, otherwise, helse, hone', hotherwise, rfl⟩
  · refine ⟨_, hopening, fun wider hwider => ?_⟩
    obtain ⟨started', tested', branched', hfirst, htest', hbranch', hall⟩ := hwiden wider hwider
    have hnone' := Cursor.head?_of_wider (hopening.rest_of_wider hall hwider) hnone
      fun token htoken hkind => hmore token htoken (hkind ▸ by decide)
    obtain ⟨-, hstop⟩ := hopening.spans_of_wider hall (by simp)
    exact ⟨branched', runs_conditional.mpr ⟨start, started', test, tested', branch, branched',
      hstart, hfirst, htest', hbranch', .inl ⟨hnone', by rw [hstop], rfl⟩⟩, hall⟩
  · obtain ⟨last, hmoved'', hwide''⟩ := hstatement between hotherwise
    have hclosing := hopening.trans (hone'.cons hmoved'')
    refine ⟨_, hclosing, fun wider hwider => ?_⟩
    obtain ⟨started', tested', branched', hfirst, htest', hbranch', hall⟩ := hwiden wider hwider
    have hbranched := hopening.rest_of_wider hall hwider
    obtain ⟨between', hnext⟩ := hone'.exists_of_wider hbranched
    obtain ⟨after', hotherwise', hwideMoved⟩ :=
      hwide'' between' (hone'.rest_of_wider hnext hbranched)
    have hall' := hall.trans (hnext.cons hwideMoved)
    obtain ⟨-, hstop⟩ := hclosing.spans_of_wider hall' (by simp)
    exact ⟨after', runs_conditional.mpr ⟨start, started', test, tested', branch, branched',
      hstart, hfirst, htest', hbranch', .inr ⟨other, between', otherwise, helse, hnext,
      hotherwise', by rw [hstop]⟩⟩, hall'⟩

/-- A loop ends with its body. -/
theorem whileLoop_embeds (hstatement : Embeds more statement)
    (hexpression : Embeds more expression) : Embeds more (whileLoop statement expression) :=
  embeds_expect.bind fun _ => (condition_embeds hexpression).bind fun _ =>
    hstatement.bind fun _ => embeds_pure

theorem forLoop_embeds (hstatement : Embeds more statement)
    (hexpression : Embeds more expression) : Embeds more (forLoop statement expression) :=
  embeds_expect.bind fun _ => embeds_expect.bind fun _ =>
    (assignment_embeds hexpression).bind fun _ => embeds_expect.bind fun _ =>
    hexpression.bind fun _ => embeds_expect.bind fun _ =>
    (assignment_embeds hexpression).bind fun _ => embeds_expect.bind fun _ =>
    hstatement.bind fun _ => embeds_pure

theorem foreachLoop_embeds (hstatement : Embeds more statement) :
    Embeds more (foreachLoop statement) :=
  embeds_expect.bind fun _ => embeds_expect.bind fun _ =>
    scalarDeclaration_embeds.bind fun _ => embeds_expect.bind fun _ =>
    embeds_identifier.bind fun _ => embeds_expect.bind fun _ =>
    hstatement.bind fun _ => embeds_pure

/-- Behind the token that closes a construct nothing is looked at. -/
theorem closed_embeds {close : TokenKind} (hinner : Embeds more inner) :
    Embeds more (closed close inner) :=
  hinner.bind fun _ => embeds_expect.bind fun _ => embeds_pure

/-- Within its braces a block is read up to the closing one, whatever follows. -/
theorem braces_embeds (hstatement : Embeds more statement) (htakes : Takes 1 statement) :
    Embeds more (do
      let _ ← expect .leftBrace
      closed .rightBrace (block statement)) := by
  refine embeds_expect.bind fun _ cursor tree after h => ?_
  obtain ⟨inside, close, hcontent, hclose, hlast⟩ := runs_closed.mp h
  obtain ⟨parts, hparts, rfl⟩ := runs_block.mp hcontent
  obtain ⟨tokens, hmoved, hwide⟩ :=
    allStatements_of_wider hstatement htakes (runs_remaining_bind.mpr hparts)
  have hall := hmoved.trans hlast
  refine ⟨_, hall, fun wider hwider => ?_⟩
  obtain ⟨inside', hmoved', hgo⟩ := hwide wider hwider
  obtain ⟨after', hlast'⟩ := hlast.exists_of_wider (hmoved.rest_of_wider hmoved' hwider)
  have hall' := hmoved'.trans hlast'
  have hend : Runs (allStatements statement) inside' [] inside' :=
    (runs_allStatements htakes).mpr (.inl ⟨by simp [hlast'.rest, hclose], rfl, rfl⟩)
  have hparts' := runs_remaining_bind.mp (hgo hend)
  rw [List.append_nil] at hparts'
  obtain ⟨hstart, -⟩ := hall.spans_of_wider hall' (by simp)
  exact ⟨after', runs_closed.mpr ⟨inside', close,
    runs_block.mpr ⟨parts, hparts', by rw [hstart]⟩, hclose, hlast'⟩, hall'⟩

/-- The cases are the constructs; which one it is was decided by a token within the row. -/
theorem construct_embeds (hmore : Separate more) (hstatement : Embeds more statement)
    (htakes : Takes 1 statement) (hexpression : Embeds more expression)
    (kind? : Option TokenKind) : Embeds more (construct statement expression kind?) := by
  -- one case for each first token a statement can have
  unfold construct
  split
  · exact conditional_embeds hmore hstatement hexpression
  · exact whileLoop_embeds hstatement hexpression
  · exact forLoop_embeds hstatement hexpression
  · exact foreachLoop_embeds hstatement
  · exact braces_embeds hstatement htakes
  · exact closed_embeds declaration_embeds
  · exact closed_embeds declaration_embeds
  · exact closed_embeds declaration_embeds
  · exact closed_embeds declaration_embeds
  · exact closed_embeds (assignment_embeds hexpression)
  · exact embeds_refuse

/-- A statement looks at its first token, which is within the row since there is one. -/
theorem statementOver_embeds (hmore : Separate more) (hstatement : Embeds more statement)
    (hexpression : Embeds more expression)
    (hplaces : Places statement) (hplaces' : Places expression) :
    Embeds more (statementOver statement expression) := by
  intro cursor tree after h
  obtain ⟨content, hcontent, rfl⟩ := runs_statementOver.mp h
  obtain ⟨tokens, hmoved, hwide⟩ :=
    construct_embeds hmore hstatement hplaces.takes hexpression _ cursor hcontent
  have hsome : tokens ≠ [] := by
    obtain ⟨_, hmoved', hsome, -⟩ := construct_places hplaces hplaces' _ hcontent
    rwa [List.append_cancel_right (hmoved.rest.symm.trans hmoved'.rest)]
  refine ⟨tokens, hmoved, fun wider hwider => ?_⟩
  obtain ⟨after', hcontent', hmoved'⟩ := hwide wider hwider
  obtain ⟨hstart, hstop⟩ := hmoved.spans_of_wider hmoved' hsome
  have hhead : wider.rest.head? = cursor.rest.head? := by
    obtain ⟨first, others, rfl⟩ := List.exists_cons_of_ne_nil hsome
    rw [hmoved.rest, hmoved'.rest]
    rfl
  exact ⟨after', runs_statementOver.mpr ⟨content, hhead ▸ hcontent', by rw [hstart, hstop]⟩,
    hmoved'⟩

/-- By induction on the levels that statements are nested in. -/
theorem statement_embeds (hmore : Separate more) (levels : Nat) :
    Embeds more (Parser.statement levels) := by
  induction levels with
  | zero => exact embeds_refuseNesting
  | succ levels ih =>
    exact statementOver_embeds hmore ih (expression_embeds hmore levels) (statement_places levels)
      (expression_places levels)

/-! ## Programs -/

/-- No statement goes on with what stands in front of it. -/
theorem construct_resuming {kind : TokenKind} (h : kind ∈ TokenKind.resuming) :
    construct statement expression (some kind) = refuse .statement := by
  simp only [TokenKind.resuming, TokenKind.comparisons, List.cons_append, List.nil_append,
    List.mem_cons, List.not_mem_nil, or_false] at h
  rcases h with rfl | rfl | rfl | rfl | rfl | rfl | rfl | rfl | rfl | rfl | rfl | rfl | rfl | rfl |
    rfl <;> rfl

/-- What a statement starts with goes on with nothing. -/
theorem separate_of_runs {levels : Nat} {cursor after : Cursor} {tree : Node}
    (h : Runs (Parser.statement levels) cursor tree after) : Separate cursor.rest := by
  cases levels with
  | zero => exact absurd h not_runs_refuseNesting
  | succ levels =>
    obtain ⟨content, hcontent, -⟩ := runs_statementOver.mp h
    intro token htoken hkind
    rw [Option.mem_def.mp htoken, Option.map_some, construct_resuming hkind] at hcontent
    exact not_runs_refuse hcontent

end Parser

/-- The tree of a program with the given statements. -/
def Node.ofStatements (parts : List Node) (span : Span) : Node :=
  ⟨.program, [⟨.block, parts, span⟩], span⟩

section Programs

open Census.Parser

variable {tokens tokens' : List Token} {tree tree' : Node} {parts : List Node}

/-- The statements of a program are read from all its tokens. -/
theorem exists_statements_of_parse (h : parse tokens = .ok tree) :
    ∃ parts span after,
      Runs (allStatements (statement nestingLimit)) (.atStart tokens) parts after ∧
        after.rest = [] ∧ tree = .ofStatements parts span := by
  obtain ⟨after, hrun⟩ := parse_eq_ok_iff.mp h
  obtain ⟨content, hcontent, hend, rfl⟩ := runs_program.mp hrun
  obtain ⟨parts, hparts, rfl⟩ := runs_block.mp hcontent
  exact ⟨parts, _, after, runs_remaining_bind.mpr hparts, hend, rfl⟩

/-- A row of statements up to the end of all tokens is a program. -/
theorem parse_of_statements {after : Cursor}
    (h : Runs (allStatements (statement nestingLimit)) (.atStart tokens) parts after)
    (hend : after.rest = []) : ∃ span, parse tokens = .ok (.ofStatements parts span) :=
  ⟨_, parse_eq_ok_iff.mpr ⟨after, runs_program.mpr
    ⟨_, runs_block.mpr ⟨parts, runs_remaining_bind.mp h, rfl⟩, hend, rfl⟩⟩⟩

/-- A program goes on with nothing that stands in front of it. -/
theorem separate_of_parse (h : parse tokens = .ok tree) : Separate tokens := by
  obtain ⟨parts, _, after, hparts, hend, -⟩ := exists_statements_of_parse h
  rcases (runs_allStatements (statement_places _).takes).mp hparts with
    ⟨-, -, rfl⟩ | ⟨-, first, between, others, hfirst, -, -⟩
  · rw [show tokens = [] from hend]
    exact separate_nil
  · exact separate_of_runs hfirst

/-- **Programs in a row**. Two programs one behind the other are a program, whose statements are
those of the first one and then those of the second one. -/
theorem parse_append (h : parse tokens = .ok tree) (h' : parse tokens' = .ok tree') :
    ∃ parts parts' span span' hull, tree = .ofStatements parts span ∧
      tree' = .ofStatements parts' span' ∧
      parse (tokens ++ tokens') = .ok (.ofStatements (parts ++ parts') hull) := by
  have htakes : Takes 1 (statement nestingLimit) := (statement_places _).takes
  obtain ⟨parts, span, after, hparts, hend, rfl⟩ := exists_statements_of_parse h
  obtain ⟨parts', span', after', hparts', hend', rfl⟩ := exists_statements_of_parse h'
  -- the first program stands in a longer row because the second one follows,
  obtain ⟨read, hmoved, hwide⟩ :=
    allStatements_of_wider (statement_embeds (separate_of_parse h') _) htakes hparts
  obtain ⟨between, hmiddle, hgo⟩ := hwide (.atStart (tokens ++ tokens')) rfl
  have hbetween := hmoved.rest_of_wider hmiddle rfl
  rw [hend, List.nil_append] at hbetween
  -- and the second one because the first one was read before
  obtain ⟨read', hmoved', hwide'⟩ :=
    allStatements_of_wider (statement_embeds separate_nil _) htakes hparts'
  have hbehind : between.rest = (Cursor.atStart tokens').rest ++ [] := by
    rw [hbetween, List.append_nil]
    rfl
  obtain ⟨last, hlast, hgo'⟩ := hwide' between hbehind
  have hnone : last.rest = [] := by simpa [hend'] using hmoved'.rest_of_wider hlast hbehind
  have hstop : Runs (allStatements (statement nestingLimit)) last [] last :=
    (runs_allStatements htakes).mpr (.inl ⟨by simp [hnone], rfl, rfl⟩)
  have hall := hgo (hgo' hstop)
  rw [List.append_nil] at hall
  obtain ⟨hull, hparse⟩ := parse_of_statements hall hnone
  exact ⟨parts, parts', span, span', hull, rfl, rfl, hparse⟩

/-- A conditional that an `else` could follow, and an assignment whose tokens have odd texts and
places. -/
theorem parse_append_conditional :
    let tokens := [.ifKeyword, .leftParen, .trueKeyword, .rightParen, .leftBrace,
      .rightBrace].map TokenKind.token
    let tokens' : List Token := [⟨.identifier, "else", .ofOffsets 7 9⟩,
      ⟨.assign, "", .ofOffsets 3 1⟩, ⟨.integer, "one", .ofOffsets 2 2⟩,
      ⟨.semicolon, ";", .ofOffsets 0 4⟩]
    ∃ tree tree', parse tokens = .ok tree ∧ parse tokens' = .ok tree' ∧
      ∃ parts parts' span span' hull, tree = .ofStatements parts span ∧
        tree' = .ofStatements parts' span' ∧
        parse (tokens ++ tokens') = .ok (.ofStatements (parts ++ parts') hull) :=
  ⟨_, _, rfl, rfl, parse_append rfl rfl⟩

end Programs

end Census
