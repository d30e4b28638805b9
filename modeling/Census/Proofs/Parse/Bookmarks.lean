import Census.Proofs.Parse.Runs

/-!
# Bookmarks

The parser keeps a place in an array and counts its depth. Whatever it does, it comes to an end, the
place only moves forward, and the depth is in the end what it was. So a parser that does not count
can do the same, if it is told how many levels are left.

- `Bookmark.cursor`: the bookmark of a parser that does not count.
- `Reading.Ends`: how a reading ends.
- `Reading.Follows`: a reading does what a parser without counting does, comes to an end, and reads
  so many tokens or more. There is a lemma for each step.
- `Reading.Follows.repeated`: so does a loop, if its rounds do.
-/

namespace Census

open Census.Parser

variable {tokens : Array Token} {α β : Type}

namespace Bookmark

variable {bookmark : Bookmark tokens}

/-- The bookmark without its counts. -/
def cursor (bookmark : Bookmark tokens) : Cursor where
  previous := (tokens.toList.take bookmark.position).getLast?
  rest := tokens.toList.drop bookmark.position

@[simp] theorem depth_leave : bookmark.leave.depth = bookmark.depth - 1 := rfl

@[simp] theorem depth_advance : bookmark.advance.depth = bookmark.depth := by
  unfold advance
  split <;> rfl

/-- The next token is the first of those that are left. -/
theorem next?_eq (bookmark : Bookmark tokens) : bookmark.next? = bookmark.cursor.rest.head? := by
  simp [next?, cursor, List.head?_drop]

/-- The tokens left are those from the position on. -/
theorem length_rest_cursor (bookmark : Bookmark tokens) :
    bookmark.cursor.rest.length = tokens.size - bookmark.position := by
  simp [cursor]

theorem rest_cursor_of_some {token : Token} (h : bookmark.next? = some token) :
    bookmark.cursor.rest = token :: tokens.toList.drop (bookmark.position + 1) := by
  obtain ⟨hlt, rfl⟩ := Array.getElem?_eq_some_iff.mp h
  exact List.drop_eq_getElem_cons hlt

/-- No token is next only behind the last one. -/
theorem position_eq_size_of_none (h : bookmark.next? = none) :
    bookmark.position = tokens.size :=
  Nat.le_antisymm bookmark.position_le (Array.getElem?_eq_none_iff.mp h)

theorem rest_cursor_of_none (h : bookmark.next? = none) : bookmark.cursor.rest = [] :=
  List.drop_eq_nil_of_le (Nat.le_of_eq (position_eq_size_of_none h).symm)

/-- In front of a token, advancing reads it. -/
theorem advance_of_some {token : Token} (h : bookmark.next? = some token) :
    bookmark.advance.position = bookmark.position + 1 ∧
      bookmark.cursor.Advances [token] bookmark.advance.cursor := by
  obtain ⟨hlt, htoken⟩ := Array.getElem?_eq_some_iff.mp h
  have hposition : bookmark.advance.position = bookmark.position + 1 := by
    rw [advance, dif_pos hlt]
  have hlast : tokens.toList[bookmark.position]? = some token := by
    rw [Array.getElem?_toList]
    exact h
  refine ⟨hposition, ?_, ?_⟩
  · rw [rest_cursor_of_some h, cursor, hposition, List.singleton_append]
  · simp [cursor, hposition, List.take_add_one, hlast]

theorem found_eq (bookmark : Bookmark tokens) : bookmark.found = bookmark.cursor.found := by
  unfold found Cursor.found
  cases h : bookmark.next? with
  | none => rw [rest_cursor_of_none h]
  | some token => rw [rest_cursor_of_some h]

/-- Both take the span of the next token, or the end of the last one. -/
theorem span_eq (bookmark : Bookmark tokens) : bookmark.span = bookmark.cursor.span := by
  unfold span Cursor.span
  cases h : bookmark.next? with
  | none =>
    -- all tokens are read, so the last one is the one just read
    have hprevious : bookmark.cursor.previous = tokens.back? := by
      simp [cursor, position_eq_size_of_none h, List.take_of_length_le]
    rw [rest_cursor_of_none h, hprevious]
    cases tokens.back? <;> rfl
  | some token => rw [rest_cursor_of_some h]

/-- Both take the span of the token just read, or that of the next one at the start. -/
theorem previousSpan_eq (bookmark : Bookmark tokens) :
    bookmark.previousSpan = bookmark.cursor.previousSpan := by
  have hle := bookmark.position_le
  unfold previousSpan Cursor.previousSpan
  split
  · next hpos =>
    have hprevious : bookmark.cursor.previous = some tokens[bookmark.position - 1] := by
      have hlt : bookmark.position - 1 < tokens.size := by omega
      simp [cursor, List.getLast?_take, Nat.ne_of_gt hpos, hlt]
    rw [hprevious]
  · next hzero =>
    have hstart : bookmark.position = 0 := by omega
    simp [cursor, hstart, span_eq]

end Bookmark

namespace Reading

/-! ## Ends -/

/-- The reading comes to an end, with an answer of the first kind or a refusal of the second. -/
def Ends (reading : Reading tokens α) (bookmark : Bookmark tokens)
    (answers : α → Bookmark tokens → Prop) (refuses : ParseError → Bookmark tokens → Prop) : Prop :=
  match reading.run.run bookmark with
  | some (.ok answer, after) => answers answer after
  | some (.error error, after) => refuses error after
  | none => False

section Ends

variable {reading : Reading tokens α} {bookmark after : Bookmark tokens}
  {answers answers' : α → Bookmark tokens → Prop}
  {refuses refuses' : ParseError → Bookmark tokens → Prop}

/-- What ends has an outcome. -/
theorem Ends.ne_none (h : reading.Ends bookmark answers refuses) :
    reading.run.run bookmark ≠ none := by
  intro hnone
  unfold Ends at h
  rwa [hnone] at h

theorem Ends.of_answer {answer : α} (h : reading.Ends bookmark answers refuses)
    (hrun : reading.run.run bookmark = some (.ok answer, after)) : answers answer after := by
  unfold Ends at h
  rwa [hrun] at h

theorem Ends.imp (h : reading.Ends bookmark answers refuses)
    (hanswers : ∀ answer after, answers answer after → answers' answer after)
    (hrefuses : ∀ error after, refuses error after → refuses' error after) :
    reading.Ends bookmark answers' refuses' := by
  revert h
  unfold Ends
  rcases reading.run.run bookmark with _ | ⟨error | answer, after⟩
  · exact id
  · exact hrefuses error after
  · exact hanswers answer after

/-- The second of two readings in a row starts where the first one ends. -/
theorem ends_bind_iff {next : β → Reading tokens α} {reading : Reading tokens β} :
    Ends (reading >>= next) bookmark answers refuses ↔
      Ends reading bookmark (fun first between => Ends (next first) between answers refuses)
        refuses := by
  unfold Ends
  rw [ExceptT.run_bind, StateT.run_bind]
  rcases reading.run.run bookmark with _ | ⟨_ | _, _⟩ <;> rfl

theorem ends_get_bind_iff {next : Bookmark tokens → Reading tokens α} :
    Ends (get >>= next) bookmark answers refuses ↔ Ends (next bookmark) bookmark answers refuses :=
  .rfl

end Ends

/-! ## Following -/

/-- Here the reading does what the parser does, and comes back to the depth. If it answers, it has
read as many tokens as the answer costs, or more. -/
def FollowsAt (bookmark : Bookmark tokens) (cost : α → Nat) (reading : Reading tokens α)
    (parser : Parser α) : Prop :=
  reading.Ends bookmark
    (fun answer after => Runs parser bookmark.cursor answer after.cursor ∧
      after.depth = bookmark.depth ∧ bookmark.position + cost answer ≤ after.position)
    fun error after => Fails parser bookmark.cursor error ∧ after.depth = bookmark.depth ∧
      bookmark.position ≤ after.position

/-- The same wherever so many levels are open. -/
def Follows (depth : Nat) (cost : α → Nat) (reading : Reading tokens α) (parser : Parser α) :
    Prop :=
  ∀ bookmark : Bookmark tokens, bookmark.depth = depth → FollowsAt bookmark cost reading parser

section Steps

variable {depth : Nat} {bookmark : Bookmark tokens} {cost : α → Nat} {kinds : List TokenKind}
  {reading : Reading tokens α} {parser : Parser α}

/-- A reading may be said to cost less than it does. -/
theorem Follows.mono {cost' : α → Nat} (h : Follows depth cost reading parser)
    (hcost : ∀ answer, cost' answer ≤ cost answer) : Follows depth cost' reading parser := by
  intro bookmark hdepth
  refine (h bookmark hdepth).imp (fun answer after ⟨hrun, hafter, hread⟩ => ?_) fun _ _ => id
  have hle := hcost answer
  exact ⟨hrun, hafter, by omega⟩

/-- What the first step has read, the others need not read any more. -/
theorem FollowsAt.bind {total : β → Nat} {next : α → Reading tokens β} {next' : α → Parser β}
    (h : FollowsAt bookmark cost reading parser)
    (hnext : ∀ answer (between : Bookmark tokens), between.depth = bookmark.depth →
      bookmark.position + cost answer ≤ between.position →
      FollowsAt between (fun answer' => total answer' - cost answer) (next answer)
        (next' answer)) :
    FollowsAt bookmark total (reading >>= next) (parser >>= next') := by
  refine ends_bind_iff.mpr (Ends.imp h ?_ ?_)
  · rintro first between ⟨hrun, hbetween, hread⟩
    refine (hnext first between hbetween hread).imp ?_ ?_
    · rintro answer after ⟨hrun', hafter, hread'⟩
      dsimp only at hread'
      exact ⟨runs_bind.mpr ⟨first, _, hrun, hrun'⟩, hafter.trans hbetween, by omega⟩
    · rintro error after ⟨hfail, hafter, hread'⟩
      exact ⟨fails_bind.mpr (.inr ⟨first, _, hrun, hfail⟩), hafter.trans hbetween, by omega⟩
  · rintro error after ⟨hfail, hafter, hread⟩
    exact ⟨fails_bind.mpr (.inl hfail), hafter, hread⟩

/-- Costs add up: what the first reading has cost, the rest of the reading need not. -/
theorem Follows.bind {total : β → Nat} {next : α → Reading tokens β} {next' : α → Parser β}
    (h : Follows depth cost reading parser)
    (hnext : ∀ answer, Follows depth (fun answer' => total answer' - cost answer) (next answer)
      (next' answer)) :
    Follows depth total (reading >>= next) (parser >>= next') :=
  fun bookmark hdepth => (h bookmark hdepth).bind fun answer between hbetween _ =>
    hnext answer between (hbetween.trans hdepth)

theorem followsAt_pure {answer : α} (h : cost answer = 0) :
    FollowsAt bookmark cost (pure answer) (pure answer) :=
  ⟨runs_pure.mpr ⟨rfl, rfl⟩, rfl, Nat.le_of_eq (by rw [h, Nat.add_zero])⟩

/-- An answer without reading is free. -/
theorem follows_pure {answer : α} (h : cost answer = 0) :
    Follows depth cost (pure answer : Reading tokens α) (pure answer) :=
  fun _ _ => followsAt_pure h

theorem follows_pure_bind {answer : α} {total : β → Nat} {next : α → Reading tokens β}
    {next' : α → Parser β} (h : Follows depth total (next answer) (next' answer)) :
    Follows depth total (pure answer >>= next) (pure answer >>= next') := by
  rwa [pure_bind, pure_bind]

/-- Refusals cost nothing, and the place is that of the next token for both. -/
theorem followsAt_fail {fault : Bookmark tokens → ParseFault}
    (h : Fails parser bookmark.cursor ⟨fault bookmark, bookmark.cursor.span⟩) :
    FollowsAt bookmark cost (fail fault) parser := by
  rw [← bookmark.span_eq] at h
  exact ⟨h, rfl, Nat.le_refl _⟩

theorem follows_refuse {what : Expectation} :
    Follows depth cost (refuse what : Reading tokens α) (refuse what) :=
  fun bookmark _ => followsAt_fail (by rw [bookmark.found_eq]; rfl)

/-- Nothing comes behind a refusal. -/
theorem follows_refuse_bind {what : Expectation} {total : β → Nat} {next : α → Reading tokens β}
    {next' : α → Parser β} :
    Follows depth total (refuse what >>= next) (refuse what >>= next') :=
  fun bookmark _ => followsAt_fail (fails_bind.mpr (.inl (by rw [bookmark.found_eq]; rfl)))

theorem follows_nextSpan :
    Follows depth (fun _ => 0) (nextSpan : Reading tokens Span) nextSpan :=
  fun bookmark _ => ⟨runs_nextSpan.mpr ⟨bookmark.span_eq, rfl⟩, rfl, Nat.le_refl _⟩

theorem follows_previousSpan :
    Follows depth (fun _ => 0) (previousSpan : Reading tokens Span) previousSpan :=
  fun bookmark _ => ⟨runs_previousSpan.mpr ⟨bookmark.previousSpan_eq, rfl⟩, rfl, Nat.le_refl _⟩

theorem follows_nextKind? :
    Follows depth (fun _ => 0) (nextKind? : Reading tokens (Option TokenKind)) nextKind? :=
  fun bookmark _ => ⟨runs_nextKind?.mpr ⟨by rw [bookmark.next?_eq], rfl⟩, rfl, Nat.le_refl _⟩

/-- A token that is accepted is paid for; one that is left costs nothing. -/
theorem follows_accept? :
    Follows depth (fun token? => token?.toList.length)
      (accept? kinds : Reading tokens (Option Token)) (accept? kinds) := by
  intro bookmark hdepth
  refine ends_get_bind_iff.mpr ?_
  cases h : bookmark.next? with
  | none =>
    have hrest := Bookmark.rest_cursor_of_none h
    exact ⟨runs_accept?_none.mpr ⟨by simp [hrest], rfl⟩, rfl, Nat.le_refl _⟩
  | some token =>
    dsimp only
    split
    · next hkind =>
      obtain ⟨hposition, hmoved⟩ := Bookmark.advance_of_some h
      exact ⟨runs_accept?_some.mpr ⟨hkind, hmoved⟩, bookmark.depth_advance,
        Nat.le_of_eq hposition.symm⟩
    · next hkind =>
      have hrest := Bookmark.rest_cursor_of_some h
      exact ⟨runs_accept?_none.mpr ⟨by simpa [hrest] using hkind, rfl⟩, rfl, Nat.le_refl _⟩

/-- Tokens are left for both or for neither. -/
theorem follows_finish : Follows depth (fun _ => 0) (finish : Reading tokens Unit) finish := by
  intro bookmark hdepth
  refine ends_get_bind_iff.mpr ?_
  have hlength := bookmark.length_rest_cursor
  split
  · next hlt =>
    have hrest : bookmark.cursor.rest ≠ [] := List.length_pos_iff.mp (by omega)
    exact followsAt_fail (fails_finish.mpr ⟨hrest, by rw [bookmark.found_eq]⟩)
  · next hend =>
    have hrest : bookmark.cursor.rest = [] := List.length_eq_zero_iff.mp (by omega)
    exact ⟨runs_finish.mpr ⟨hrest, rfl⟩, rfl, Nat.le_refl _⟩

/-- A token that was expected has been read. -/
theorem follows_expect {kind : TokenKind} :
    Follows depth (fun _ => 1) (expect kind : Reading tokens Token) (expect kind) := by
  refine follows_accept?.bind fun token? => ?_
  cases token? with
  | none => exact follows_refuse
  | some token => exact follows_pure rfl

theorem follows_identifier :
    Follows depth (fun _ => 1) (identifier : Reading tokens Node) identifier := by
  refine follows_accept?.bind fun token? => ?_
  cases token? with
  | none => exact follows_refuse
  | some token => exact follows_pure rfl

/-! ## Loops -/

section Loop

variable {round : Reading tokens (Option α)} {round' : Parser (Option α)}
  (hround : Follows depth (fun answer? => answer?.toList.length) round round')
  (hend : ∀ cursor, cursor.rest = [] → Runs round' cursor none cursor)
include hround hend

/-- If every round reads a token, and none goes on behind all tokens, there is a round that does not
go on before the fuel is used up. -/
theorem followsAt_rounds {fuel : Nat} {bookmark : Bookmark tokens} (hdepth : bookmark.depth = depth)
    (hfuel : tokens.size - bookmark.position ≤ fuel) :
    FollowsAt bookmark List.length (rounds round (fuel + 1)) (Parser.rounds round' fuel) := by
  induction fuel generalizing bookmark with
  | zero =>
    have hrest : bookmark.cursor.rest = [] :=
      List.length_eq_zero_iff.mp (by rw [bookmark.length_rest_cursor]; omega)
    have hstop := hend _ hrest
    refine ends_bind_iff.mpr (Ends.imp (hround bookmark hdepth) ?_ ?_)
    · rintro first? between ⟨hrun, hbetween, hread⟩
      obtain ⟨rfl, hsame⟩ : first? = none ∧ between.cursor = bookmark.cursor := by
        simpa [eq_comm] using hstop.symm.trans hrun
      exact ⟨runs_pure.mpr ⟨rfl, hsame⟩, hbetween, hread⟩
    · rintro error between ⟨hfail, -⟩
      cases hstop.symm.trans hfail
  | succ fuel ih =>
    refine (hround bookmark hdepth).bind fun first? between hbetween hread => ?_
    cases first? with
    | none => exact followsAt_pure rfl
    | some first =>
      simp only [Option.toList_some, List.length_singleton] at hread
      refine (ih (hbetween.trans hdepth) (by omega)).bind fun others after _ _ => ?_
      exact followsAt_pure (by simp)

/-- If each round costs what it answers, there are no more rounds than tokens, and the fuel is
enough. -/
theorem Follows.repeated :
    Follows depth List.length (repeated round) (repeated round') := by
  intro bookmark hdepth
  have h := followsAt_rounds hround hend hdepth (Nat.le_refl _)
  show Ends (rounds round (tokens.size - bookmark.position + 1)) bookmark _ _
  rw [← bookmark.length_rest_cursor] at h ⊢
  exact h

end Loop

end Steps

end Reading

end Census
