import Census.Proofs.Source.Slices
import Census.Proofs.Token.Boundaries

/-!
# Where reading stops

A text that has no tokens has a first character at which nothing stands. What comes before it is a
row of blanks, comments and tokens, each as long as it can be in the whole text: the character is
part of none of them. Nothing of this depends on what comes behind, so the text before has tokens.

- `Lexeme.Row`: rows of lexemes in front of a text.
- `InvalidToken.FirstIn`: the first character of a text at which nothing stands.
- `tokensFrom_eq_error_iff`: it is what is reported.
- `tokenize_stops`: texts without tokens.
-/

namespace Census

open Location

/-! ## Rows of lexemes -/

namespace Lexeme

/-- The text consists of blanks, comments and tokens, each of them whole in front of what follows
up to the end of `rest`. -/
inductive Row (rest : List Char) : List Char → Prop where
  | nil : Row rest []
  | cons {kind? : Option TokenKind} {text others : List Char}
      (hstands : Stands (others ++ rest) kind? text) (hothers : Row rest others) :
      Row rest (text ++ others)

variable {here : Location} {text front back rest : List Char} {kind : TokenKind}
  {kind? : Option TokenKind}

/-- What stands in front of a text does so if the text ends earlier. -/
theorem Stands.of_append (h : Stands (front ++ back) kind? text) : Stands front kind? text := by
  cases h with
  | blank hblank => exact .blank hblank
  | comment hcomment hline =>
    refine .comment hcomment fun c hc => hline c ?_
    obtain ⟨others, rfl⟩ := List.head?_eq_some_iff.mp hc
    rfl
  | token hreads =>
    refine .token ⟨hreads.fits, fun other hother => hreads.longest other ?_, hreads.keyword⟩
    rw [← List.append_assoc]
    exact hother.trans (List.prefix_append _ _)

/-- A row of lexemes has tokens. -/
theorem Row.exists_tokens (h : Row rest text) : ∃ tokens, tokensFrom here text = .ok tokens := by
  induction h generalizing here with
  | nil => exact ⟨[], tokensFrom_nil⟩
  | @cons kind? text others hstands _ ih =>
    obtain ⟨tokens, htokens⟩ := @ih (here.advanceAll text)
    exact ⟨_, by rw [tokensFrom_stands hstands.of_append, htokens]; rfl⟩

/-- Where reading comes to behind a row of lexemes, it is stuck if the text is. -/
theorem Row.tokensFrom_append {stray : InvalidToken} (h : Row rest text)
    (hrest : tokensFrom (here.advanceAll text) rest = .error stray) :
    tokensFrom here (text ++ rest) = .error stray := by
  induction h generalizing here with
  | nil => exact hrest
  | @cons kind? text others hstands _ ih =>
    rw [advanceAll_append] at hrest
    rw [List.append_assoc, tokensFrom_stands hstands, ih hrest]
    rfl

end Lexeme

/-- A text is not read if it is stuck behind a row of lexemes. -/
theorem exists_row_of_tokensFrom {here : Location} {text : List Char} {stray : InvalidToken}
    (h : tokensFrom here text = .error stray) : ∃ before c after, text = before ++ c :: after ∧
      Lexeme.Row (c :: after) before ∧ Lexeme.Stuck c after ∧
        stray = ⟨c, here.advanceAll before, here.advanceAll (before ++ [c])⟩ := by
  induction text using Lexeme.induction generalizing here with
  | nil =>
    rw [tokensFrom_nil] at h
    cases h
  | stuck c rest hstuck =>
    rw [tokensFrom_stuck hstuck] at h
    exact ⟨[], c, rest, rfl, .nil, hstuck, (Except.error.inj h).symm⟩
  | lexeme kind? text rest hstands ih =>
    rw [tokensFrom_stands hstands] at h
    cases hrest : tokensFrom (here.advanceAll text) rest with
    | ok others =>
      rw [hrest] at h
      cases h
    | error found =>
      rw [hrest] at h
      obtain rfl := Except.error.inj h
      obtain ⟨before, c, after, rfl, hrow, hstuck, rfl⟩ := ih hrest
      refine ⟨text ++ before, c, after, (List.append_assoc _ _ _).symm, .cons hstands hrow, hstuck,
        ?_⟩
      rw [List.append_assoc, advanceAll_append here text before,
        advanceAll_append here text (before ++ [c])]

/-! ## The first stray character -/

/-- The character is the first one of the text at which nothing stands. -/
structure InvalidToken.FirstIn (source : String) (stray : InvalidToken) : Prop where
  points : stray.span.PointsInto source
  slice : stray.span.slice source = String.singleton stray.character
  length : stray.span.length = stray.character.utf8Size
  /-- What comes before has tokens. -/
  before : ∃ tokens, tokenize (Span.slice source ⟨origin, stray.span.start⟩) = .ok tokens
  /-- It is whole in front of the character: no comment and no token of it goes on there. -/
  row : Lexeme.Row (Span.slice source ⟨stray.span.start, endOf source⟩).toList
    (Span.slice source ⟨origin, stray.span.start⟩).toList
  stuck : Lexeme.Stuck stray.character (Span.slice source ⟨stray.span.stop, endOf source⟩).toList

/-- The first character at which nothing stands is what is reported, and nothing else is. -/
theorem tokensFrom_eq_error_iff {source : String} {stray : InvalidToken} :
    tokensFrom origin source.toList = .error stray ↔ stray.FirstIn source := by
  constructor
  · intro h
    obtain ⟨before, c, after, hsource, hrow, hstuck, rfl⟩ := exists_row_of_tokensFrom h
    have hwhole : source.toList = before ++ [c] ++ after := by simp [hsource]
    have hlength : (origin.advanceAll (before ++ [c])).offset
        = (origin.advanceAll before).offset + c.utf8Size := by
      simp [advanceAll_append]
    refine {
      points := Span.pointsInto_of_standsIn ⟨before, _, hsource, rfl⟩ ⟨_, after, hwhole, rfl⟩ ?_
      slice := Span.slice_eq hwhole
      length := ?_
      before := ?_
      row := ?_
      stuck := ?_ }
    · rw [hlength]
      exact Nat.le_add_right _ _
    · rw [Span.length, hlength, Nat.add_sub_cancel_left]
    · obtain ⟨tokens, htokens⟩ := hrow.exists_tokens
      refine ⟨tokens, tokenize_eq_ok_iff.mpr ?_⟩
      rw [Span.slice_origin hsource, String.toList_ofList, htokens]
    · rwa [Span.slice_origin hsource, Span.slice_endOf hsource, String.toList_ofList,
        String.toList_ofList]
    · rwa [Span.slice_endOf hwhole, String.toList_ofList]
  · intro h
    obtain ⟨character, span⟩ := stray
    obtain ⟨before, text, after, hwhole, rfl⟩ := h.points.exists_split
    have hsource : source.toList = before ++ (text ++ after) := by simp [hwhole]
    obtain rfl : text = [character] := by
      have hslice := h.slice
      rw [Span.slice_eq hwhole] at hslice
      simpa using congrArg String.toList hslice
    have hrow := h.row
    have hstuck := h.stuck
    rw [Span.slice_origin hsource, Span.slice_endOf hsource, String.toList_ofList,
      String.toList_ofList] at hrow
    rw [Span.slice_endOf hwhole, String.toList_ofList] at hstuck
    rw [hsource]
    refine hrow.tokensFrom_append ?_
    rw [List.singleton_append, tokensFrom_stuck hstuck, advanceAll_append]
    rfl

/-- **Reading stops at the first stray character**. When a text has no tokens, there is one
character in it that is the first at which neither a blank nor a comment nor a token stands, and
that character with its line is what is reported. -/
theorem tokenize_stops {source : String} {problem : Diagnostic}
    (h : tokenize source = .error problem) : ∃ stray : InvalidToken,
      problem = .lexical s!"Invalid token '{stray.character}' at line {stray.span.start.line}"
        stray.span ∧
      stray.FirstIn source ∧ ∀ other : InvalidToken, other.FirstIn source → other = stray := by
  obtain ⟨stray, hstray, rfl⟩ := tokenize_eq_error_iff.mp h
  refine ⟨stray, rfl, tokensFrom_eq_error_iff.mp hstray, fun other hother => ?_⟩
  exact Except.error.inj ((tokensFrom_eq_error_iff.mpr hother).symm.trans hstray)

/-- A character of two bytes, behind one that is in a comment and in front of half a sign. -/
theorem tokenize_stops_comment :
    let problem := Diagnostic.lexical "Invalid token 'é' at line 2" ⟨⟨2, 3, 6⟩, ⟨2, 5, 8⟩⟩
    tokenize "//#\nx=é&" = .error problem ∧ ∃ stray : InvalidToken,
      problem = .lexical s!"Invalid token '{stray.character}' at line {stray.span.start.line}"
        stray.span ∧
      stray.FirstIn "//#\nx=é&" ∧
        ∀ other : InvalidToken, other.FirstIn "//#\nx=é&" → other = stray := by
  intro problem
  have hfails : tokenize "//#\nx=é&" = .error problem := by decide +kernel
  exact ⟨hfails, tokenize_stops hfails⟩

end Census
