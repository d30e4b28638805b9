import Census.Proofs.Parse.Following

/-!
# Runs of the readers of the language

For each reader, what it means that it answers a tree: which readers ran inside it, over which
tokens the cursor moved, and what tree was made of the answers. Nothing else opens a reader.

- `Token.leaf?`: the kind of the tree that a token makes on its own as a value.
-/

namespace Census

/-- The kind of the leaf that a token makes on its own where a value is expected. -/
def Token.leaf? (token : Token) : Option NodeKind :=
  match token.kind with
  | .identifier => some (.identifier token.text)
  | .integer => some (.integer token.text)
  | .trueKeyword => some (.boolean true)
  | .falseKeyword => some (.boolean false)
  | _ => none

namespace Parser

variable {cursor cursor' : Cursor} {tree : Node} {statement expression inner operand : Parser Node}

/-! ## Expressions -/

/-- A leaf is read at its token; otherwise there are parentheses, and the inner reader ran between
them. -/
theorem runs_value :
    Runs (value inner) cursor tree cursor' ↔
      ∃ token between, cursor.Advances [token] between ∧
        ((∃ kind, token.leaf? = some kind ∧
            tree = ⟨.value, [literal kind token], cursor.span.merge cursor'.previousSpan⟩ ∧
            cursor' = between) ∨
          (token.kind = .leftParen ∧ ∃ content inside close, Runs inner between content inside ∧
            close.kind = .rightParen ∧ inside.Advances [close] cursor' ∧
            tree = ⟨.value, [content], cursor.span.merge cursor'.previousSpan⟩)) := by
  simp only [value, runs_nextSpan_bind, runs_accept?_bind]
  constructor
  · rintro (⟨-, h⟩ | ⟨token, between, hkind, hone, h⟩)
    · simp at h
    · refine ⟨token, between, hone, ?_⟩
      simp only [List.mem_cons, List.not_mem_nil, or_false] at hkind
      rcases hkind with hkind | hkind | hkind | hkind | hkind <;> rw [hkind] at h <;>
        simp [Token.leaf?, hkind, and_assoc] at h ⊢
      all_goals grind
  · rintro ⟨token, between, hone, ⟨kind, hleaf, rfl, rfl⟩ | ⟨hkind, h⟩⟩
    · refine .inr ⟨token, cursor', ?_, hone, ?_⟩ <;> unfold Token.leaf? at hleaf <;>
        split at hleaf <;> simp_all
    · refine .inr ⟨token, between, by simp [hkind], hone, ?_⟩
      simp [hkind, and_assoc]
      grind

/-- The run of operators was as long as it could be, and the operand was read behind it. -/
theorem runs_stacked {kinds : List TokenKind} {kind : List String → NodeKind} :
    Runs (stacked kinds kind operand) cursor tree cursor' ↔
      ∃ run between content, cursor.Advances run between ∧ (∀ token ∈ run, token.kind ∈ kinds) ∧
        (∀ token ∈ between.rest.head?, token.kind ∉ kinds) ∧
        Runs operand between content cursor' ∧
        tree = ⟨kind (run.map Token.text), [content],
          if run.isEmpty then content.span else cursor.span.merge content.span⟩ := by
  simp [stacked, and_assoc]

theorem runs_links_zero {kinds : List TokenKind} {pairs : List (String × Node)} :
    Runs (links kinds operand 0) cursor pairs cursor' ↔ pairs = [] ∧ cursor' = cursor :=
  runs_pure

/-- A link was read behind an operator, or there is no operator and no further link. -/
theorem runs_links_succ {kinds : List TokenKind} {fuel : Nat} {pairs : List (String × Node)} :
    Runs (links kinds operand (fuel + 1)) cursor pairs cursor' ↔
      ((∀ token ∈ cursor.rest.head?, token.kind ∉ kinds) ∧ pairs = [] ∧ cursor' = cursor) ∨
      ∃ operator between content between' others, operator.kind ∈ kinds ∧
        cursor.Advances [operator] between ∧ Runs operand between content between' ∧
        Runs (links kinds operand fuel) between' others cursor' ∧
        pairs = (operator.text, content) :: others := by
  simp [links_succ]

/-- The fuel is the number of tokens left behind the first operand. -/
theorem runs_chain {kinds : List TokenKind} {kind : List String → NodeKind} :
    Runs (chain kinds kind operand) cursor tree cursor' ↔
      ∃ first between others, Runs operand cursor first between ∧
        Runs (links kinds operand between.rest.length) between others cursor' ∧
        tree = ⟨kind (others.map Prod.fst), first :: others.map Prod.snd,
          first.span.merge ((others.map Prod.snd).getLastD first).span⟩ := by
  simp [chain, repeated_nextLink]

/-- The right operand was read if and only if an operator followed the left one. -/
theorem runs_comparison :
    Runs (comparison operand) cursor tree cursor' ↔
      ∃ left between, Runs operand cursor left between ∧
        (((∀ token ∈ between.rest.head?, token.kind ∉ TokenKind.comparisons) ∧
            tree = ⟨.comparison none, [left], left.span⟩ ∧ cursor' = between) ∨
          ∃ operator between' right, operator.kind ∈ TokenKind.comparisons ∧
            between.Advances [operator] between' ∧ Runs operand between' right cursor' ∧
            tree = ⟨.comparison (some operator.text), [left, right],
              left.span.merge right.span⟩) := by
  simp [comparison]

/-- An expression is a node around what was read as a logical one. -/
theorem runs_expressionOver :
    Runs (expressionOver inner) cursor tree cursor' ↔
      ∃ content, Runs (logical inner) cursor content cursor' ∧
        tree = ⟨.expression, [content], content.span⟩ := by
  simp [expressionOver]

/-! ## Declarations and assignments -/

/-- The node is made of the keyword read before and of the identifier behind it. -/
theorem runs_declared {kind : String → NodeKind} {keyword : Token} :
    Runs (declared kind keyword) cursor tree cursor' ↔
      ∃ target, Runs identifier cursor target cursor' ∧
        tree = ⟨kind keyword.text, [target], keyword.span.merge target.span⟩ := by
  simp [declared, -runs_identifier]

theorem runs_scalarDeclaration :
    Runs scalarDeclaration cursor tree cursor' ↔
      ∃ keyword between, keyword.kind ∈ TokenKind.scalarKeywords ∧
        cursor.Advances [keyword] between ∧
        Runs (declared .scalarDeclaration keyword) between tree cursor' := by
  simp [scalarDeclaration]

/-- A keyword for lists decides; without it the reader of scalar declarations ran. -/
theorem runs_declaration :
    Runs declaration cursor tree cursor' ↔
      ∃ content, (((∀ token ∈ cursor.rest.head?, token.kind ∉ TokenKind.listKeywords) ∧
          Runs scalarDeclaration cursor content cursor') ∨
        ∃ keyword between, keyword.kind ∈ TokenKind.listKeywords ∧
          cursor.Advances [keyword] between ∧
          Runs (declared .listDeclaration keyword) between content cursor') ∧
        tree = ⟨.declaration, [content], content.span⟩ := by
  rw [declaration, runs_accept?_bind]
  simp only [runs_bind, runs_pure]
  constructor
  · rintro (⟨hnone, content, _, hrun, rfl, rfl⟩ |
      ⟨keyword, between, hkind, hone, content, _, hrun, rfl, rfl⟩)
    · exact ⟨content, .inl ⟨hnone, hrun⟩, rfl⟩
    · exact ⟨content, .inr ⟨keyword, between, hkind, hone, hrun⟩, rfl⟩
  · rintro ⟨content, ⟨hnone, hrun⟩ | ⟨keyword, between, hkind, hone, hrun⟩, rfl⟩
    · exact .inl ⟨hnone, content, cursor', hrun, rfl, rfl⟩
    · exact .inr ⟨keyword, between, hkind, hone, content, cursor', hrun, rfl, rfl⟩

/-- Target, sign and expression were read in this order. -/
theorem runs_assignment :
    Runs (assignment expression) cursor tree cursor' ↔
      ∃ target named sign signed content, Runs identifier cursor target named ∧
        sign.kind = .assign ∧ named.Advances [sign] signed ∧
        Runs expression signed content cursor' ∧
        tree = ⟨.assignment, [target, content], target.span.merge content.span⟩ := by
  simp [assignment, and_assoc, -runs_identifier]

/-! ## Statements -/

/-- The answer is what was read between the parentheses. -/
theorem runs_condition :
    Runs (condition expression) cursor tree cursor' ↔
      ∃ left opened inside right, left.kind = .leftParen ∧ cursor.Advances [left] opened ∧
        Runs expression opened tree inside ∧
        right.kind = .rightParen ∧ inside.Advances [right] cursor' := by
  simp only [condition, runs_bind, runs_expect, runs_pure]
  constructor
  · rintro ⟨left, opened, ⟨hleft, hone⟩, _, inside, hrun, right, _, ⟨hright, hlast⟩, rfl, rfl⟩
    exact ⟨left, opened, inside, right, hleft, hone, hrun, hright, hlast⟩
  · rintro ⟨left, opened, inside, right, hleft, hone, hrun, hright, hlast⟩
    exact ⟨left, opened, ⟨hleft, hone⟩, tree, inside, hrun, right, cursor', ⟨hright, hlast⟩, rfl,
      rfl⟩

theorem runs_statements_zero {trees : List Node} :
    Runs (statements statement 0) cursor trees cursor' ↔ trees = [] ∧ cursor' = cursor :=
  runs_pure

/-- A statement was read unless a closing brace or the end came next. -/
theorem runs_statements_succ {fuel : Nat} {trees : List Node} :
    Runs (statements statement (fuel + 1)) cursor trees cursor' ↔
      ((∀ token ∈ cursor.rest.head?, token.kind = .rightBrace) ∧ trees = [] ∧ cursor' = cursor) ∨
      ((∃ token ∈ cursor.rest.head?, token.kind ≠ .rightBrace) ∧
        ∃ first between others, Runs statement cursor first between ∧
          Runs (statements statement fuel) between others cursor' ∧ trees = first :: others) := by
  rw [statements_succ, runs_nextKind?_bind]
  cases h : cursor.rest.head? with
  | none => simp
  | some token => by_cases hkind : token.kind = .rightBrace <;> simp [hkind]

/-- The span depends on whether there are statements at all. -/
theorem runs_block :
    Runs (block statement) cursor tree cursor' ↔
      ∃ parts, Runs (statements statement cursor.rest.length) cursor parts cursor' ∧
        tree = ⟨.block, parts,
          match parts.head?, parts.getLast? with
          | some first, some last => first.span.merge last.span
          | _, _ => .emptyAt cursor.span.start⟩ := by
  rw [block, runs_nextSpan_bind, repeated_nextStatement, bind_assoc, runs_remaining_bind]
  simp only [runs_bind, runs_pure]
  constructor
  · rintro ⟨parts, _, hparts, rfl, rfl⟩
    exact ⟨parts, hparts, rfl⟩
  · rintro ⟨parts, hparts, rfl⟩
    exact ⟨parts, cursor', hparts, rfl, rfl⟩

/-- A second branch was read if and only if `else` followed the first one. -/
theorem runs_conditional :
    Runs (conditional statement expression) cursor tree cursor' ↔
      ∃ start started test tested branch branched, start.kind = .ifKeyword ∧
        cursor.Advances [start] started ∧ Runs (condition expression) started test tested ∧
        Runs statement tested branch branched ∧
        (((∀ token ∈ branched.rest.head?, token.kind ≠ .elseKeyword) ∧
            tree = ⟨.conditional, [test, branch], start.span.merge cursor'.previousSpan⟩ ∧
            cursor' = branched) ∨
          ∃ other between otherwise, other.kind = .elseKeyword ∧
            branched.Advances [other] between ∧ Runs statement between otherwise cursor' ∧
            tree = ⟨.conditional, [test, branch, otherwise],
              start.span.merge cursor'.previousSpan⟩) := by
  simp [conditional, and_assoc]

theorem runs_whileLoop :
    Runs (whileLoop statement expression) cursor tree cursor' ↔
      ∃ start started test tested body, start.kind = .whileKeyword ∧
        cursor.Advances [start] started ∧ Runs (condition expression) started test tested ∧
        Runs statement tested body cursor' ∧
        tree = ⟨.whileLoop, [test, body], start.span.merge body.span⟩ := by
  simp [whileLoop, and_assoc]

/-- The four parts and the tokens between them were read in order. -/
theorem runs_forLoop :
    Runs (forLoop statement expression) cursor tree cursor' ↔
      ∃ start c₁ left c₂ first c₃ mark c₄ test c₅ mark' c₆ step c₇ right c₈ body,
        start.kind = .forKeyword ∧ cursor.Advances [start] c₁ ∧
        left.kind = .leftParen ∧ c₁.Advances [left] c₂ ∧
        Runs (assignment expression) c₂ first c₃ ∧
        mark.kind = .semicolon ∧ c₃.Advances [mark] c₄ ∧ Runs expression c₄ test c₅ ∧
        mark'.kind = .semicolon ∧ c₅.Advances [mark'] c₆ ∧
        Runs (assignment expression) c₆ step c₇ ∧
        right.kind = .rightParen ∧ c₇.Advances [right] c₈ ∧ Runs statement c₈ body cursor' ∧
        tree = ⟨.forLoop, [first, test, step, body], start.span.merge body.span⟩ := by
  simp only [forLoop, runs_bind, runs_expect, runs_pure]
  constructor
  · rintro ⟨start, c₁, ⟨hstart, h₁⟩, left, c₂, ⟨hleft, h₂⟩, first, c₃, hfirst, mark, c₄,
      ⟨hmark, h₄⟩, test, c₅, htest, mark', c₆, ⟨hmark', h₆⟩, step, c₇, hstep, right, c₈,
      ⟨hright, h₈⟩, body, _, hbody, rfl, rfl⟩
    exact ⟨start, c₁, left, c₂, first, c₃, mark, c₄, test, c₅, mark', c₆, step, c₇, right, c₈, body,
      hstart, h₁, hleft, h₂, hfirst, hmark, h₄, htest, hmark', h₆, hstep, hright, h₈, hbody, rfl⟩
  · rintro ⟨start, c₁, left, c₂, first, c₃, mark, c₄, test, c₅, mark', c₆, step, c₇, right, c₈,
      body, hstart, h₁, hleft, h₂, hfirst, hmark, h₄, htest, hmark', h₆, hstep, hright, h₈, hbody,
      rfl⟩
    exact ⟨start, c₁, ⟨hstart, h₁⟩, left, c₂, ⟨hleft, h₂⟩, first, c₃, hfirst, mark, c₄,
      ⟨hmark, h₄⟩, test, c₅, htest, mark', c₆, ⟨hmark', h₆⟩, step, c₇, hstep, right, c₈,
      ⟨hright, h₈⟩, body, _, hbody, rfl, rfl⟩

/-- Declaration, list and body were read in order, with the tokens between them. -/
theorem runs_foreachLoop :
    Runs (foreachLoop statement) cursor tree cursor' ↔
      ∃ start c₁ left c₂ element c₃ colon c₄ array c₅ right c₆ body,
        start.kind = .foreachKeyword ∧ cursor.Advances [start] c₁ ∧
        left.kind = .leftParen ∧ c₁.Advances [left] c₂ ∧
        Runs scalarDeclaration c₂ element c₃ ∧
        colon.kind = .colon ∧ c₃.Advances [colon] c₄ ∧ Runs identifier c₄ array c₅ ∧
        right.kind = .rightParen ∧ c₅.Advances [right] c₆ ∧ Runs statement c₆ body cursor' ∧
        tree = ⟨.foreachLoop, [element, array, body], start.span.merge body.span⟩ := by
  simp only [foreachLoop, runs_bind, runs_expect, runs_pure]
  constructor
  · rintro ⟨start, c₁, ⟨hstart, h₁⟩, left, c₂, ⟨hleft, h₂⟩, element, c₃, helement, colon, c₄,
      ⟨hcolon, h₄⟩, array, c₅, harray, right, c₆, ⟨hright, h₆⟩, body, _, hbody, rfl, rfl⟩
    exact ⟨start, c₁, left, c₂, element, c₃, colon, c₄, array, c₅, right, c₆, body, hstart, h₁,
      hleft, h₂, helement, hcolon, h₄, harray, hright, h₆, hbody, rfl⟩
  · rintro ⟨start, c₁, left, c₂, element, c₃, colon, c₄, array, c₅, right, c₆, body, hstart, h₁,
      hleft, h₂, helement, hcolon, h₄, harray, hright, h₆, hbody, rfl⟩
    exact ⟨start, c₁, ⟨hstart, h₁⟩, left, c₂, ⟨hleft, h₂⟩, element, c₃, helement, colon, c₄,
      ⟨hcolon, h₄⟩, array, c₅, harray, right, c₆, ⟨hright, h₆⟩, body, _, hbody, rfl, rfl⟩

theorem runs_closed {close : TokenKind} :
    Runs (closed close inner) cursor tree cursor' ↔
      ∃ between last, Runs inner cursor tree between ∧ last.kind = close ∧
        between.Advances [last] cursor' := by
  simp only [closed, runs_bind, runs_expect, runs_pure]
  constructor
  · rintro ⟨_, between, hinner, last, _, ⟨hlast, hone⟩, rfl, rfl⟩
    exact ⟨between, last, hinner, hlast, hone⟩
  · rintro ⟨between, last, hinner, hlast, hone⟩
    exact ⟨tree, between, hinner, last, cursor', ⟨hlast, hone⟩, rfl, rfl⟩

/-- The reader of the construct that starts with a token of the given kind. -/
def construct (statement expression : Parser Node) : Option TokenKind → Parser Node
  | some .ifKeyword => conditional statement expression
  | some .whileKeyword => whileLoop statement expression
  | some .forKeyword => forLoop statement expression
  | some .foreachKeyword => foreachLoop statement
  | some .leftBrace => do
    let _ ← expect .leftBrace
    closed .rightBrace (block statement)
  | some .numKeyword => closed .semicolon declaration
  | some .boolKeyword => closed .semicolon declaration
  | some .listNumKeyword => closed .semicolon declaration
  | some .listBoolKeyword => closed .semicolon declaration
  | some .identifier => closed .semicolon (assignment expression)
  | _ => refuse .statement

/-- The construct is up to the kind of the next token, which is looked at and not read. -/
theorem statementBody_eq :
    statementBody statement expression = nextKind? >>= construct statement expression := rfl

/-- What ran inside is the reader of the construct that the next token asks for. -/
theorem runs_statementOver :
    Runs (statementOver statement expression) cursor tree cursor' ↔
      ∃ content, Runs (construct statement expression (cursor.rest.head?.map Token.kind)) cursor
          content cursor' ∧
        tree = ⟨.statement, [content], cursor.span.merge cursor'.previousSpan⟩ := by
  simp [statementOver, statementAround, statementBody_eq]

/-- A block was read, and no token is left. -/
theorem runs_program :
    Runs program cursor tree cursor' ↔
      ∃ content, Runs (block (Parser.statement nestingLimit)) cursor content cursor' ∧
        cursor'.rest = [] ∧ tree = ⟨.program, [content], content.span⟩ := by
  simp only [program, programOver, runs_bind, runs_finish, runs_pure]
  constructor
  · rintro ⟨content, between, hcontent, _, _, ⟨hrest, rfl⟩, rfl, rfl⟩
    exact ⟨content, hcontent, hrest, rfl⟩
  · rintro ⟨content, hcontent, hrest, rfl⟩
    exact ⟨content, cursor', hcontent, (), cursor', ⟨hrest, rfl⟩, rfl, rfl⟩

end Parser

/-- A row of tokens is a program if the reader of programs reads it. -/
theorem parse_eq_ok_iff {tokens : List Token} {tree : Node} :
    parse tokens = .ok tree ↔
      ∃ cursor', Parser.Runs Parser.program (.atStart tokens) tree cursor' := by
  rw [parse_eq]
  unfold Parser.Runs
  cases Parser.program (.atStart tokens) with
  | error error => simp
  | ok answer =>
    obtain ⟨found, after⟩ := answer
    simp

end Census
