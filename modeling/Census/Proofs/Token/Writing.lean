import Census.Proofs.Token.Boundaries

/-!
# Tokens that are written down

Any row of tokens can be written down and read again. Each token is written by a text that fits its
kind, and a blank comes right behind it, so that no text grows into the next one; what else is put
between the tokens is skipped.

- `Separator`: blanks, and comments that end with their line.
- `Written`: a token as it is written, with the separator behind it.
- `Lexeme.reads_of_matches`: in front of a blank, the text of a token is the longest lexeme.
- `tokenize_written`: what is written is read again.
-/

namespace Census

/-! ## Separators -/

/-- Blanks, and comments that are each closed by a line feed. -/
inductive Separator : List Char → Prop where
  | nil : Separator []
  | blank {c : Char} {rest : List Char} (hblank : Lexeme.isBlank c = true)
      (hrest : Separator rest) : Separator (c :: rest)
  | comment {text rest : List Char} (hcomment : Lexeme.IsComment text) (hrest : Separator rest) :
      Separator (text ++ '\n' :: rest)

/-- Separators are skipped. -/
theorem Separator.tokensFrom_append {here : Location} {gap rest : List Char} (h : Separator gap) :
    tokensFrom here (gap ++ rest) = tokensFrom (here.advanceAll gap) rest := by
  induction h generalizing here with
  | nil => rfl
  | blank hblank _ ih =>
    rw [List.cons_append, tokensFrom_blank hblank, ih, Location.advanceAll_cons]
  | comment hcomment _ ih =>
    rw [List.append_assoc, List.cons_append, tokensFrom_comment hcomment (by simp),
      tokensFrom_blank (by decide), ih, Location.advanceAll_append, Location.advanceAll_cons]

/-- In front of a blank stands what fits a kind, unless it is a keyword that fits identifiers. -/
theorem Lexeme.reads_of_matches {blank : Char} {text rest : List Char} {kind : TokenKind}
    (hblank : isBlank blank = true) (hfits : kind.Matches text)
    (hproper : kind = .identifier →
      ∀ keyword ∈ TokenKind.keywords, text ≠ keyword.spelling.toList) :
    Reads kind text (blank :: rest) := by
  refine ⟨hfits, fun other hother hfits' => ?_, fun keyword hkeyword => ?_⟩
  · rcases hfits' with hcomment | ⟨kind', hfits'⟩
    · -- a comment does not start with a token
      have hslash : blank ∉ ['/', '/'] := by simp [(of_isBlank hblank).2]
      exact absurd (prefix_of_not_mem (hcomment.slashes.trans hother) hslash) hfits.not_slashes
    · refine (prefix_of_not_mem hother fun hmem => ?_).length_le
      rw [hfits'.isBlank_eq_false blank hmem] at hblank
      cases hblank
  · have hfixed : keyword ∈ TokenKind.fixed := List.mem_append_left _ hkeyword
    constructor
    · rintro rfl
      exact (TokenKind.matches_iff hfixed).mp hfits
    · intro htext
      refine (spells_of_matches hfits hproper).unique ((TokenKind.spells_iff hfixed).mpr ?_)
      rw [htext, String.ofList_toList]

/-! ## Written tokens -/

/-- A token as it is written, and what separates it from the next one. -/
structure Written where
  kind : TokenKind
  text : List Char
  gap : List Char
  fits : kind.Matches text
  /-- An identifier is no keyword. -/
  proper : kind = .identifier →
    ∀ keyword ∈ TokenKind.keywords, text ≠ keyword.spelling.toList
  separates : Separator gap
  /-- A blank comes first. -/
  blank : ∃ c ∈ gap.head?, Lexeme.isBlank c = true

namespace Written

/-- What the token is. -/
def content (word : Written) : TokenKind × String := (word.kind, .ofList word.text)

/-- The token and what separates it from the next one. -/
def chars (word : Written) : List Char := word.text ++ word.gap

/-- What is written is read as the token that it is. -/
theorem tokensFrom_append (word : Written) (here : Location) (rest : List Char) :
    tokensFrom here (word.chars ++ rest)
      = (tokensFrom (here.advanceAll word.chars) rest).map
          (⟨word.kind, .ofList word.text, here, here.advanceAll word.text⟩ :: ·) := by
  have hreads : Lexeme.Reads word.kind word.text (word.gap ++ rest) := by
    obtain ⟨blank, hhead, hblank⟩ := word.blank
    obtain ⟨behind, hgap⟩ := List.head?_eq_some_iff.mp hhead
    rw [hgap]
    exact Lexeme.reads_of_matches hblank word.fits word.proper
  rw [chars, List.append_assoc, tokensFrom_token hreads, word.separates.tokensFrom_append,
    ← Location.advanceAll_append]

end Written

/-- What is written is read again. -/
theorem tokensFrom_written (words : List Written) (here : Location) :
    ∃ tokens, tokensFrom here (words.flatMap Written.chars) = .ok tokens ∧
      tokens.map Token.content = words.map Written.content := by
  induction words generalizing here with
  | nil => exact ⟨[], by rw [List.flatMap_nil, tokensFrom], rfl⟩
  | cons word others ih =>
    obtain ⟨tokens, htokens, hcontent⟩ := ih (here.advanceAll word.chars)
    refine ⟨_, by rw [List.flatMap_cons, word.tokensFrom_append, htokens]; rfl, ?_⟩
    rw [List.map_cons, List.map_cons, hcontent]
    rfl

/-- **Written tokens are read**. Tokens that are written down in a row, each with a blank behind it
and with any blanks and comments before, between and behind them, are the tokens of that text. -/
theorem tokenize_written {before : List Char} (hbefore : Separator before) (words : List Written) :
    ∃ tokens, tokenize (.ofList (before ++ words.flatMap Written.chars)) = .ok tokens ∧
      tokens.map Token.content = words.map Written.content := by
  obtain ⟨tokens, htokens, hcontent⟩ :=
    tokensFrom_written words (Location.origin.advanceAll before)
  refine ⟨tokens, tokenize_eq_ok_iff.mpr ?_, hcontent⟩
  rw [String.toList_ofList, hbefore.tokensFrom_append, htokens]

/-- Slashes of a token and of a comment, and signs that would be one token side by side. -/
theorem tokenize_written_slashes :
    Separator "\t// =\n".toList ∧
      ∃ tokens, tokenize "\t// =\nfor1 / // /\n= = " = .ok tokens ∧
        tokens.map Token.content
          = [(.identifier, "for1"), (.slash, "/"), (.assign, "="), (.assign, "=")] := by
  have hassign : Lexeme.IsComment "// =".toList := ⟨" =".toList, rfl, by decide⟩
  have hslash : Lexeme.IsComment "// /".toList := ⟨" /".toList, rfl, by decide⟩
  have hbefore : Separator "\t// =\n".toList := .blank (by decide) (.comment hassign .nil)
  have hbehind : Separator " // /\n".toList := .blank (by decide) (.comment hslash .nil)
  have hspace : Separator [' '] := .blank (by decide) .nil
  have hword : ∀ c ∈ "or1".toList, Lexeme.continuesWord c = true :=
    List.all_eq_true.mp (by decide)
  exact ⟨hbefore, tokenize_written hbefore
    [⟨.identifier, "for1".toList, [' '], ⟨'f', "or1".toList, rfl, by decide, hword⟩,
        by decide, hspace, ' ', rfl, rfl⟩,
      ⟨.slash, ['/'], " // /\n".toList, rfl, nofun, hbehind, ' ', rfl, rfl⟩,
      ⟨.assign, ['='], [' '], rfl, nofun, hspace, ' ', rfl, rfl⟩,
      ⟨.assign, ['='], [' '], rfl, nofun, hspace, ' ', rfl, rfl⟩]⟩

end Census
