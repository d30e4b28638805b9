import Census.Proofs.Source.Slices
import Census.Proofs.Token.Boundaries

/-!
# How tokens cover a text

The tokens of a text and what is skipped between them make up the whole text, without a loss and
without an overlap.

- `Skipped`: blanks and comments.
- `Tiled`: tokens that cover a text along its characters. `tokenize_spelled`: their texts are
  spellings of their kinds.
- `Tokenization`: the same in terms of the spans of the tokens.
- `tokenize_tokenization`: the tokens of a text cover it.
-/

namespace Census

open Location

/-! ## Along the characters -/

/-- Blanks and comments that have `rest` behind them. A comment takes all of its line. -/
inductive Skipped (rest : List Char) : List Char → Prop where
  | nil : Skipped rest []
  | blank {c : Char} {gap : List Char} (hblank : Lexeme.isBlank c = true)
      (hgap : Skipped rest gap) : Skipped rest (c :: gap)
  | comment {text gap : List Char} (hcomment : Lexeme.IsComment text)
      (hline : ∀ c ∈ (gap ++ rest).head?, c = '\n') (hgap : Skipped rest gap) :
      Skipped rest (text ++ gap)

/-- The tokens cover the text that starts at a place. Each of them is the longest lexeme where it
stands, and what is between them is skipped. -/
inductive Tiled : Location → List Char → List Token → Prop where
  | finish {here : Location} {gap : List Char} (hgap : Skipped [] gap) : Tiled here gap []
  | token {here : Location} {gap taken rest : List Char} {kind : TokenKind} {tokens : List Token}
      (hgap : Skipped (taken ++ rest) gap) (hreads : Lexeme.Reads kind taken rest)
      (hrest : Tiled (here.advanceAll (gap ++ taken)) rest tokens) :
      Tiled here (gap ++ (taken ++ rest))
        (⟨kind, .ofList taken, here.advanceAll gap, here.advanceAll (gap ++ taken)⟩ :: tokens)

/-- More is skipped in front of the first token. -/
theorem Tiled.skip {here : Location} {taken text : List Char} {tokens : List Token}
    (h : Tiled (here.advanceAll taken) text tokens)
    (hskip : ∀ gap rest, text = gap ++ rest → Skipped rest gap → Skipped rest (taken ++ gap)) :
    Tiled here (taken ++ text) tokens := by
  cases h with
  | finish hgap => exact .finish (hskip _ _ (List.append_nil _).symm hgap)
  | token hgap hreads hrest =>
    rw [← advanceAll_append] at hrest
    simp only [← advanceAll_append, ← List.append_assoc taken] at hrest ⊢
    exact .token (hskip _ _ rfl hgap) hreads hrest

theorem tokensFrom_tiled {here : Location} {text : List Char} {tokens : List Token}
    (h : tokensFrom here text = .ok tokens) : Tiled here text tokens := by
  induction text using Lexeme.induction generalizing here tokens with
  | nil =>
    rw [tokensFrom_nil] at h
    obtain rfl := Except.ok.inj h
    exact .finish .nil
  | stuck c rest hstuck =>
    rw [tokensFrom_stuck hstuck] at h
    cases h
  | lexeme kind? text rest hstands ih =>
    rw [tokensFrom_stands hstands] at h
    cases hothers : tokensFrom (here.advanceAll text) rest with
    | error stray =>
      rw [hothers] at h
      cases h
    | ok others =>
      rw [hothers] at h
      obtain rfl := Except.ok.inj h
      have hrest := ih hothers
      cases hstands with
      | blank hblank => exact hrest.skip fun gap behind _ hgap => .blank hblank hgap
      | comment hcomment hline =>
        exact hrest.skip fun gap behind hsplit hgap => .comment hcomment (hsplit ▸ hline) hgap
      | token hreads => exact .token .nil hreads hrest

theorem tokenize_tiled {source : String} {tokens : List Token} (h : tokenize source = .ok tokens) :
    Tiled (origin.advanceAll []) source.toList tokens :=
  tokensFrom_tiled (tokenize_eq_ok_iff.mp h)

theorem Tiled.spelled {here : Location} {text : List Char} {tokens : List Token}
    (h : Tiled here text tokens) : ∀ token ∈ tokens, token.Spelled := by
  induction h with
  | finish _ => nofun
  | token _ hreads _ ih => exact List.forall_mem_cons.mpr ⟨hreads.spells, ih⟩

/-- The text of every token of a source is a spelling of the token's kind. -/
theorem tokenize_spelled {source : String} {tokens : List Token}
    (h : tokenize source = .ok tokens) : ∀ token ∈ tokens, token.Spelled :=
  (tokenize_tiled h).spelled

/-! ## In terms of spans -/

/-- The gaps in front of tokens, between them and behind them. -/
def Token.gaps (stop : Location) : (start : Location) → List Token → List Span
  | start, [] => [⟨start, stop⟩]
  | start, token :: tokens => ⟨start, token.span.start⟩ :: gaps stop token.span.stop tokens

/-- The tokens are what the text consists of, but for blanks and comments. -/
structure Tokenization (source : String) (tokens : List Token) : Prop where
  /-- No token is empty, and each one ends before the next one starts. -/
  inOrder : Token.InOrder tokens
  points : ∀ token ∈ tokens, token.span.PointsInto source
  text : ∀ token ∈ tokens, token.text = token.span.slice source
  /-- Each token is the longest one at its place. -/
  reads : ∀ token ∈ tokens, Lexeme.Reads token.kind (token.span.slice source).toList
    (Span.slice source ⟨token.span.stop, endOf source⟩).toList
  /-- All else is skipped. -/
  skipped : ∀ gap ∈ Token.gaps (endOf source) origin tokens,
    Skipped (Span.slice source ⟨gap.stop, endOf source⟩).toList (gap.slice source).toList

section Spans

variable {source : String} {before text : List Char} {tokens : List Token}

/-- What a text has at a place is what its spans from there on cover. -/
theorem Tiled.tokens_spec (h : Tiled (origin.advanceAll before) text tokens)
    (hsource : source.toList = before ++ text) :
    ∀ token ∈ tokens, token.span.start.StandsIn source ∧ token.span.stop.StandsIn source ∧
      token.text = token.span.slice source ∧
      Lexeme.Reads token.kind (token.span.slice source).toList
        (Span.slice source ⟨token.span.stop, endOf source⟩).toList := by
  generalize hhere : origin.advanceAll before = here at h
  induction h generalizing before with
  | finish hgap => nofun
  | @token here gap taken rest kind tokens hgap hreads hrest ih =>
    subst hhere
    have hwhole : source.toList = (before ++ gap) ++ taken ++ rest := by simp [hsource]
    have hslice := Span.slice_eq hwhole
    simp only [← advanceAll_append]
    refine List.forall_mem_cons.mpr ⟨?_, fun token htoken => ?_⟩
    · refine ⟨⟨before ++ gap, taken ++ rest, by simp [hsource], rfl⟩,
        ⟨before ++ (gap ++ taken), rest, by simp [hsource], rfl⟩, ?_, ?_⟩
      · rw [← List.append_assoc]
        exact hslice.symm
      · rw [← List.append_assoc, hslice, Span.slice_endOf hwhole, String.toList_ofList,
          String.toList_ofList]
        exact hreads
    · exact @ih (before ++ gap ++ taken) hwhole (by simp [advanceAll_append]) token htoken

theorem Tiled.gaps_spec (h : Tiled (origin.advanceAll before) text tokens)
    (hsource : source.toList = before ++ text) :
    ∀ gap ∈ Token.gaps (endOf source) (origin.advanceAll before) tokens,
      Skipped (Span.slice source ⟨gap.stop, endOf source⟩).toList (gap.slice source).toList := by
  generalize hhere : origin.advanceAll before = here at h ⊢
  induction h generalizing before with
  | @finish here gap hgap =>
    subst hhere
    have hend : Span.slice source ⟨endOf source, endOf source⟩ = "" := by
      have hnil : source.toList = source.toList ++ [] := (List.append_nil _).symm
      exact Span.slice_endOf hnil
    simpa [Token.gaps, hend, Span.slice_endOf hsource] using hgap
  | @token here gap taken rest kind tokens hgap hreads hrest ih =>
    subst hhere
    have hwhole : source.toList = (before ++ gap) ++ (taken ++ rest) := by simp [hsource]
    refine List.forall_mem_cons.mpr ⟨?_, fun gap' hgap' => ?_⟩
    · simp only [← advanceAll_append]
      rw [Span.slice_eq hwhole, Span.slice_endOf hwhole, String.toList_ofList,
        String.toList_ofList]
      exact hgap
    · exact @ih (before ++ gap ++ taken) (by simp [hwhole]) (by simp [advanceAll_append])
        gap' hgap'

end Spans

/-- The ends of tokens are places of the text, and what stands between them is their text. -/
theorem tokenize_standsIn {source : String} {tokens : List Token}
    (h : tokenize source = .ok tokens) : ∀ token ∈ tokens, token.span.start.StandsIn source ∧
      token.span.stop.StandsIn source ∧ token.text = token.span.slice source := by
  intro token htoken
  obtain ⟨hstart, hstop, htext, -⟩ := (tokenize_tiled h).tokens_spec rfl token htoken
  exact ⟨hstart, hstop, htext⟩

/-- **Tokens cover their text**. When a text has tokens, they are its longest lexemes from left to
right, stand where their spans say, and leave out nothing but blanks and comments. -/
theorem tokenize_tokenization {source : String} {tokens : List Token}
    (h : tokenize source = .ok tokens) : Tokenization source tokens := by
  have htiled := tokenize_tiled h
  have hspec := htiled.tokens_spec rfl
  have horder := tokenize_inOrder h
  exact {
    inOrder := horder
    points := fun token htoken => Span.pointsInto_of_standsIn (hspec token htoken).1
      (hspec token htoken).2.1 (Nat.le_of_lt (horder.nonempty token htoken))
    text := fun token htoken => (hspec token htoken).2.2.1
    reads := fun token htoken => (hspec token htoken).2.2.2
    skipped := htiled.gaps_spec rfl }

/-- A word that starts like a keyword, a comment with a character of two bytes, a sign of two
characters. -/
theorem tokenize_tokenization_comment :
    ∃ tokens, tokenize "foreach1//é\n<=9" = .ok tokens ∧
      tokens.map Token.content
        = [(.identifier, "foreach1"), (.lessEqual, "<="), (.integer, "9")] ∧
      Tokenization "foreach1//é\n<=9" tokens := by
  have hruns : (tokenize "foreach1//é\n<=9").map (List.map Token.content)
      = .ok [(.identifier, "foreach1"), (.lessEqual, "<="), (.integer, "9")] := by
    decide +kernel
  cases htokens : tokenize "foreach1//é\n<=9" with
  | error diagnostic =>
    rw [htokens] at hruns
    cases hruns
  | ok tokens =>
    rw [htokens] at hruns
    exact ⟨tokens, rfl, Except.ok.inj hruns, tokenize_tokenization htokens⟩

end Census
