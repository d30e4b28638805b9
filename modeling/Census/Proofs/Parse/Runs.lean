import Census.Proofs.Parse.Cursor

/-!
# Runs of parsers

What it means that a parser answers or refuses at a cursor, step by step: a parser made of steps
answers exactly when its steps do, and refuses exactly when one of them does after the others
before it answered.

- `Cursor.Advances`: one cursor is another one moved over some tokens.
- `Parser.Runs`, `Parser.Fails`: the two outcomes of a parser at a cursor.
-/

namespace Census

/-- The second cursor is the first one moved forward over `tokens`. -/
structure Cursor.Advances (cursor : Cursor) (tokens : List Token) (cursor' : Cursor) : Prop where
  rest : cursor.rest = tokens ++ cursor'.rest
  previous : cursor'.previous = tokens.getLast?.or cursor.previous

/-- In front of its first token a cursor can be moved over it. -/
theorem Cursor.exists_advances {cursor : Cursor} {token : Token} {rest : List Token}
    (h : cursor.rest = token :: rest) : ∃ cursor', cursor.Advances [token] cursor' := by
  obtain ⟨previous, _⟩ := cursor
  exact ⟨⟨some token, rest⟩, h, rfl⟩

namespace Cursor.Advances

variable {cursor cursor' cursor'' : Cursor} {front back : List Token}

theorem refl (cursor : Cursor) : cursor.Advances [] cursor := ⟨rfl, rfl⟩

theorem one (previous : Option Token) (token : Token) (rest : List Token) :
    Advances ⟨previous, token :: rest⟩ [token] ⟨some token, rest⟩ := ⟨rfl, rfl⟩

/-- Moving over some tokens and then over others is moving over all of them. -/
theorem trans (h : cursor.Advances front cursor') (h' : cursor'.Advances back cursor'') :
    cursor.Advances (front ++ back) cursor'' := by
  refine ⟨?_, ?_⟩
  · rw [h.rest, h'.rest, List.append_assoc]
  · rw [h'.previous, h.previous, List.getLast?_append, Option.or_assoc]

theorem cons {token : Token} (h : cursor.Advances [token] cursor')
    (h' : cursor'.Advances back cursor'') : cursor.Advances (token :: back) cursor'' :=
  h.trans h'

/-- A cursor and the tokens it is moved over say where it ends. -/
theorem eq_mk (h : cursor.Advances front cursor') (rest : List Token)
    (hrest : cursor.rest = front ++ rest) :
    cursor' = ⟨front.getLast?.or cursor.previous, rest⟩ := by
  have hsame : cursor'.rest = rest := List.append_cancel_left (h.rest.symm.trans hrest)
  rw [← h.previous, ← hsame]

end Cursor.Advances

namespace Parser

variable {α β : Type} {cursor cursor' : Cursor}

/-- The parser answers `answer` and moves the cursor. -/
def Runs (parser : Parser α) (cursor : Cursor) (answer : α) (cursor' : Cursor) : Prop :=
  parser cursor = .ok (answer, cursor')

/-- The parser refuses. -/
def Fails (parser : Parser α) (cursor : Cursor) (error : ParseError) : Prop :=
  parser cursor = .error error

/-! ## Steps in a row -/

/-- An answer without reading leaves the cursor where it is. -/
@[simp] theorem runs_pure {answer answer' : α} :
    Runs (pure answer) cursor answer' cursor' ↔ answer' = answer ∧ cursor' = cursor := by
  show Except.ok (answer, cursor) = Except.ok (answer', cursor') ↔ _
  simp only [Except.ok.injEq, Prod.mk.injEq, eq_comm]

/-- The second of two parsers in a row starts where the first one ends. -/
@[simp] theorem runs_bind {parser : Parser α} {next : α → Parser β} {answer : β} :
    Runs (parser >>= next) cursor answer cursor' ↔
      ∃ first between, Runs parser cursor first between ∧
        Runs (next first) between answer cursor' := by
  show (parser cursor >>= fun step => next step.1 step.2) = _ ↔ _
  cases h : parser cursor with
  | error error => simp [Runs, h, bind, Except.bind]
  | ok step =>
    obtain ⟨first, between⟩ := step
    simp only [Runs, h, bind, Except.bind, Except.ok.injEq, Prod.mk.injEq]
    constructor
    · intro hnext
      exact ⟨first, between, ⟨rfl, rfl⟩, hnext⟩
    · rintro ⟨_, _, ⟨rfl, rfl⟩, hnext⟩
      exact hnext

/-- Behind a step that answers, the rest goes on. -/
theorem bind_of_runs {parser : Parser α} {next : α → Parser β} {answer : α}
    (h : Runs parser cursor answer cursor') : (parser >>= next) cursor = next answer cursor' := by
  show (parser cursor >>= fun step => next step.1 step.2) = _
  rw [show parser cursor = .ok (answer, cursor') from h]
  rfl

/-- A row of parsers refuses where one does, behind the answers of those before it. -/
@[simp] theorem fails_bind {parser : Parser α} {next : α → Parser β} {error : ParseError} :
    Fails (parser >>= next) cursor error ↔
      Fails parser cursor error ∨
        ∃ first between, Runs parser cursor first between ∧ Fails (next first) between error := by
  show (parser cursor >>= fun step => next step.1 step.2) = _ ↔ _
  cases h : parser cursor with
  | error error' => simp [Runs, Fails, h, bind, Except.bind]
  | ok step =>
    obtain ⟨first, between⟩ := step
    simp only [Runs, Fails, h, bind, Except.bind, reduceCtorEq, false_or, Except.ok.injEq,
      Prod.mk.injEq]
    constructor
    · intro hnext
      exact ⟨first, between, ⟨rfl, rfl⟩, hnext⟩
    · rintro ⟨_, _, ⟨rfl, rfl⟩, hnext⟩
      exact hnext

@[simp] theorem runs_map {parser : Parser α} {f : α → β} {answer : β} :
    Runs (f <$> parser) cursor answer cursor' ↔
      ∃ first, Runs parser cursor first cursor' ∧ answer = f first := by
  rw [← bind_pure_comp]
  simp only [runs_bind, runs_pure]
  constructor
  · rintro ⟨first, between, h, rfl, rfl⟩
    exact ⟨first, h, rfl⟩
  · rintro ⟨first, h, rfl⟩
    exact ⟨first, cursor', h, rfl, rfl⟩

/-! ## Steps that read no token -/

/-- Refusals answer nothing. -/
@[simp] theorem not_runs_refuse {what : Expectation} {answer : α} :
    ¬ Runs (refuse what) cursor answer cursor' := nofun

@[simp] theorem not_runs_refuseNesting {answer : α} :
    ¬ Runs refuseNesting cursor answer cursor' := nofun

/-- Too deep nesting is told at the next token. -/
@[simp] theorem fails_refuseNesting {error : ParseError} :
    Fails (refuseNesting (α := α)) cursor error ↔ error = ⟨.nestingExceeded, cursor.span⟩ := by
  show Except.error _ = Except.error _ ↔ _
  simp only [Except.error.injEq, eq_comm]

@[simp] theorem runs_nextSpan {span : Span} :
    Runs nextSpan cursor span cursor' ↔ span = cursor.span ∧ cursor' = cursor :=
  runs_pure

@[simp] theorem runs_previousSpan {span : Span} :
    Runs previousSpan cursor span cursor' ↔ span = cursor.previousSpan ∧ cursor' = cursor :=
  runs_pure

/-- Looking at the next token does not read it. -/
@[simp] theorem runs_nextKind? {kind? : Option TokenKind} :
    Runs nextKind? cursor kind? cursor' ↔
      kind? = cursor.rest.head?.map Token.kind ∧ cursor' = cursor :=
  runs_pure

@[simp] theorem runs_remaining {count : Nat} :
    Runs remaining cursor count cursor' ↔ count = cursor.rest.length ∧ cursor' = cursor :=
  runs_pure

/-- Only at the end there is nothing to refuse. -/
@[simp] theorem runs_finish {answer : Unit} :
    Runs finish cursor answer cursor' ↔ cursor.rest = [] ∧ cursor' = cursor := by
  obtain ⟨previous, _ | ⟨token, rest⟩⟩ := cursor
  · show Except.ok ((), _) = Except.ok ((), cursor') ↔ _
    simp [eq_comm]
  · show Except.error _ = Except.ok _ ↔ _
    simp

/-- A token that is left is told by its text, at its place. -/
theorem fails_finish {error : ParseError} :
    Fails finish cursor error ↔
      cursor.rest ≠ [] ∧ error = ⟨.unexpected cursor.found, cursor.span⟩ := by
  obtain ⟨previous, _ | ⟨token, rest⟩⟩ := cursor
  · show Except.ok _ = Except.error _ ↔ _
    simp
  · show Except.error _ = Except.error _ ↔ _
    simp [eq_comm]

/-! Behind such a step the rest runs at the same cursor. -/

/-- Looks ahead may be answered right away. -/
@[simp high] theorem runs_nextSpan_bind {next : Span → Parser β} {answer : β} :
    Runs (nextSpan >>= next) cursor answer cursor' ↔
      Runs (next cursor.span) cursor answer cursor' := by
  simp [and_assoc]

@[simp high] theorem runs_nextKind?_bind {next : Option TokenKind → Parser β} {answer : β} :
    Runs (nextKind? >>= next) cursor answer cursor' ↔
      Runs (next (cursor.rest.head?.map Token.kind)) cursor answer cursor' := by
  simp [and_assoc]

@[simp high] theorem runs_remaining_bind {next : Nat → Parser β} {answer : β} :
    Runs (remaining >>= next) cursor answer cursor' ↔
      Runs (next cursor.rest.length) cursor answer cursor' := by
  simp [and_assoc]

@[simp high] theorem runs_map_previousSpan {f : Span → β} {answer : β} :
    Runs (f <$> previousSpan) cursor answer cursor' ↔
      answer = f cursor'.previousSpan ∧ cursor' = cursor := by
  simp only [runs_map, runs_previousSpan]
  constructor
  · rintro ⟨_, ⟨rfl, rfl⟩, rfl⟩
    exact ⟨rfl, rfl⟩
  · rintro ⟨rfl, rfl⟩
    exact ⟨_, ⟨rfl, rfl⟩, rfl⟩

/-! ## Steps that read tokens -/

/-- A token is left where it is if it is of none of the kinds, and so is the end. -/
@[simp] theorem runs_accept?_none {kinds : List TokenKind} :
    Runs (accept? kinds) cursor none cursor' ↔
      (∀ token ∈ cursor.rest.head?, token.kind ∉ kinds) ∧ cursor' = cursor := by
  obtain ⟨previous, _ | ⟨token, rest⟩⟩ := cursor
  · simp [Runs, accept?, eq_comm]
  · by_cases h : token.kind ∈ kinds <;> simp [Runs, accept?, h, eq_comm]

/-- A token that is accepted is of one of the kinds and has been moved over. -/
@[simp] theorem runs_accept?_some {kinds : List TokenKind} {token : Token} :
    Runs (accept? kinds) cursor (some token) cursor' ↔
      token.kind ∈ kinds ∧ cursor.Advances [token] cursor' := by
  obtain ⟨previous, _ | ⟨next, rest⟩⟩ := cursor
  · constructor
    · nofun
    · rintro ⟨-, ⟨hrest, -⟩⟩
      cases hrest
  · constructor
    · intro h
      by_cases hkind : next.kind ∈ kinds <;> simp [Runs, accept?, hkind] at h
      obtain ⟨rfl, rfl⟩ := h
      exact ⟨hkind, .one previous next rest⟩
    · rintro ⟨hkind, h⟩
      have hcursor := h.eq_mk rest
      obtain ⟨hrest, -⟩ := h
      cases hrest
      rw [hcursor rfl]
      simp [Runs, accept?, hkind]

/-- A choice by the next token does not refuse. -/
@[simp] theorem not_fails_accept? {kinds : List TokenKind} {error : ParseError} :
    ¬ Fails (accept? kinds) cursor error := by
  obtain ⟨previous, _ | ⟨token, rest⟩⟩ := cursor
  · nofun
  · by_cases h : token.kind ∈ kinds <;> simp [Fails, accept?, h]

/-- A choice by the next token reads it or leaves it. -/
@[simp high] theorem runs_accept?_bind {kinds : List TokenKind} {next : Option Token → Parser β}
    {answer : β} :
    Runs (accept? kinds >>= next) cursor answer cursor' ↔
      ((∀ token ∈ cursor.rest.head?, token.kind ∉ kinds) ∧
        Runs (next none) cursor answer cursor') ∨
      ∃ token between, token.kind ∈ kinds ∧ cursor.Advances [token] between ∧
        Runs (next (some token)) between answer cursor' := by
  simp [Option.exists, and_assoc]

/-- The longest run at the front of a list is the one behind which no element goes on. -/
private theorem takeWhile_append_eq {p : α → Bool} {run back : List α} (hrun : ∀ x ∈ run, p x)
    (hback : ∀ x ∈ back.head?, ¬ p x) : (run ++ back).takeWhile p = run := by
  rw [List.takeWhile_append_of_pos hrun]
  cases back with
  | nil => simp
  | cons next others => simp [hback next rfl]

private theorem drop_length_takeWhile (p : α → Bool) (l : List α) :
    l.drop (l.takeWhile p).length = l.dropWhile p := by
  induction l with
  | nil => rfl
  | cons next others ih => by_cases h : p next <;> simp [h, ih, -List.drop_eq_nil_iff]

/-- A run is as long as it can be. -/
@[simp] theorem runs_acceptRun {kinds : List TokenKind} {run : List Token} :
    Runs (acceptRun kinds) cursor run cursor' ↔
      cursor.Advances run cursor' ∧ (∀ token ∈ run, token.kind ∈ kinds) ∧
        ∀ token ∈ cursor'.rest.head?, token.kind ∉ kinds := by
  constructor
  · intro h
    simp only [Runs, acceptRun_eq, Except.ok.injEq, Prod.mk.injEq] at h
    obtain ⟨rfl, rfl⟩ := h
    refine ⟨⟨(List.prefix_iff_eq_append.mp (List.takeWhile_prefix _)).symm, rfl⟩, ?_, ?_⟩
    · intro token htoken
      simpa using List.all_eq_true.mp List.all_takeWhile token htoken
    · intro token htoken
      have hstop := List.head?_dropWhile_not (fun token => decide (token.kind ∈ kinds)) cursor.rest
      rw [drop_length_takeWhile] at htoken
      rw [htoken] at hstop
      simpa using hstop
  · rintro ⟨h, hrun, hstop⟩
    have hfront : cursor.rest.takeWhile (fun token => decide (token.kind ∈ kinds)) = run := by
      rw [h.rest]
      exact takeWhile_append_eq (by simpa using hrun) (by simpa using hstop)
    have hback : cursor.rest.drop run.length = cursor'.rest := by
      rw [h.rest, List.drop_left]
    rw [Runs, acceptRun_eq, hfront]
    dsimp only
    rw [hback, ← h.previous]

/-- Without tokens of the kinds the run is empty. -/
@[simp] theorem not_fails_acceptRun {kinds : List TokenKind} {error : ParseError} :
    ¬ Fails (acceptRun kinds) cursor error := by
  simp [Fails, acceptRun_eq]

/-- An expected token is of the kind and has been moved over. -/
@[simp] theorem runs_expect {kind : TokenKind} {token : Token} :
    Runs (expect kind) cursor token cursor' ↔
      token.kind = kind ∧ cursor.Advances [token] cursor' := by
  simp [expect]

/-- An identifier is the leaf of its token. -/
@[simp] theorem runs_identifier {node : Node} :
    Runs identifier cursor node cursor' ↔
      ∃ token, token.kind = .identifier ∧ cursor.Advances [token] cursor' ∧
        node = ⟨.identifier token.text, [], token.span⟩ := by
  simp [identifier]

end Parser

end Census
