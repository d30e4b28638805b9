import Census.Proofs.Token.Lexemes
import Census.Proofs.Token.Order

/-!
# Where lexemes end

A text is taken apart from its front. What stands there is a blank, a comment or a token, or the
text is stuck at its first character. Which of these it is, and how far it reaches, is a matter of
the patterns alone, so whoever knows what stands in front of a text knows what is read there.

- `Lexeme.Stands`: a blank, a comment or a token in front of a text.
- `Lexeme.Stuck`: a character at which nothing of the kind stands.
- `Lexeme.Reads.unique`: no two tokens stand in front of one text.
- `tokensFrom_stands`, `tokensFrom_stuck`: what is read in front of a text.
- `Lexeme.induction`: texts taken apart from the front.
-/

namespace Census

/-! ## Characters of lexemes -/

namespace Lexeme

/-- A blank is part of no word, and starts no comment. -/
theorem of_isBlank {c : Char} (h : isBlank c = true) : continuesWord c = false ∧ c ≠ '/' := by
  simp only [isBlank, Bool.or_eq_true, beq_iff_eq] at h
  rcases h with (((rfl | rfl) | rfl) | rfl) | rfl <;> decide

theorem isBlank_of_continuesWord {c : Char} (h : continuesWord c = true) : isBlank c = false := by
  refine Bool.eq_false_iff.mpr fun hblank => ?_
  rw [(of_isBlank hblank).1] at h
  cases h

theorem continuesWord_of_startsWord {c : Char} (h : startsWord c = true) :
    continuesWord c = true := by
  simp only [startsWord, continuesWord, Char.isAlphanum, Bool.or_eq_true] at h ⊢
  exact h.imp_left .inl

theorem continuesWord_of_isDigit {c : Char} (h : c.isDigit = true) : continuesWord c = true := by
  simp [continuesWord, Char.isAlphanum, h]

end Lexeme

namespace TokenKind

variable {kind kind' : TokenKind} {text : List Char}

/-- No symbol is empty or has a blank in it, and none starts like a comment. -/
theorem spelling_of_symbol : ∀ kind ∈ symbols, kind.spelling.toList ≠ [] ∧
    (∀ c ∈ kind.spelling.toList, Lexeme.isBlank c = false) ∧
      ¬ ['/', '/'] <+: kind.spelling.toList := by
  have hsigns : ∀ kind ∈ symbols, kind.spelling.toList ≠ [] ∧
      kind.spelling.toList.all (fun c => !Lexeme.isBlank c) = true ∧
        ['/', '/'].isPrefixOf kind.spelling.toList = false := by
    decide
  intro kind hkind
  obtain ⟨hsome, hall, hslashes⟩ := hsigns kind hkind
  refine ⟨hsome, fun c hc => by simpa using List.all_eq_true.mp hall c hc, fun hprefix => ?_⟩
  rw [List.isPrefixOf_iff_prefix.mpr hprefix] at hslashes
  cases hslashes

/-- No token is empty. -/
theorem Matches.ne_nil (h : kind.Matches text) : text ≠ [] := by
  rcases cases_of_matches h with ⟨first, others, rfl, -, -⟩ | ⟨hinteger, -⟩ | ⟨kind, hkind, rfl⟩
  · exact List.cons_ne_nil _ _
  · exact hinteger
  · exact (spelling_of_symbol kind hkind).1

/-- No token has a blank in it. -/
theorem Matches.isBlank_eq_false (h : kind.Matches text) :
    ∀ c ∈ text, Lexeme.isBlank c = false := by
  rcases cases_of_matches h with ⟨first, others, rfl, hfirst, hothers⟩ | ⟨-, hdigits⟩ |
    ⟨kind, hkind, rfl⟩
  · refine List.forall_mem_cons.mpr ⟨?_, fun c hc => Lexeme.isBlank_of_continuesWord (hothers c hc)⟩
    exact Lexeme.isBlank_of_continuesWord (Lexeme.continuesWord_of_startsWord hfirst)
  · exact fun c hc =>
      Lexeme.isBlank_of_continuesWord (Lexeme.continuesWord_of_isDigit (hdigits c hc))
  · exact (spelling_of_symbol kind hkind).2.1

/-- No token starts like a comment. -/
theorem Matches.not_slashes (h : kind.Matches text) : ¬ ['/', '/'] <+: text := by
  rintro ⟨body, rfl⟩
  rcases cases_of_matches h with ⟨first, others, heq, hfirst, -⟩ | ⟨-, hdigits⟩ |
    ⟨kind, hkind, heq⟩
  · cases heq
    cases hfirst
  · cases hdigits '/' (by simp)
  · exact (spelling_of_symbol kind hkind).2.2 ⟨body, heq⟩

/-- No fixed spelling is that of an identifier or of a number. -/
theorem not_spells_of_fixed :
    ∀ kind ∈ fixed, ¬ identifier.Spells kind.spelling ∧ ¬ integer.Spells kind.spelling := by
  have hspelling : ∀ kind ∈ fixed,
      (kind.spelling.toList.head?.any Lexeme.startsWord = false ∨
        Lexeme.wordKind kind.spelling.toList ≠ .identifier) ∧
      kind.spelling.toList.all Char.isDigit = false := by
    decide
  intro kind hkind
  obtain ⟨hword, hdigits⟩ := hspelling kind hkind
  constructor
  · rintro ⟨first, others, heq, hfirst, -, hproper⟩
    rcases hword with hword | hkeyword
    · simp [heq, hfirst] at hword
    · exact hkeyword hproper
  · rintro ⟨-, hall⟩
    rw [List.all_eq_true.mpr hall] at hdigits
    cases hdigits

/-- A text is a spelling of one kind at most. -/
theorem Spells.unique {text : String} (h : kind.Spells text) (h' : kind'.Spells text) :
    kind = kind' := by
  by_cases hfixed : kind ∈ fixed
  · by_cases hfixed' : kind' ∈ fixed
    · exact (ofSpelling_eq hfixed h).symm.trans (ofSpelling_eq hfixed' h')
    · obtain ⟨hidentifier, hinteger⟩ := not_spells_of_fixed kind hfixed
      rw [← (spells_iff hfixed).mp h] at hidentifier hinteger
      cases kind' <;> first | exact absurd (by decide) hfixed' | exact absurd h' ‹_›
  · by_cases hfixed' : kind' ∈ fixed
    · obtain ⟨hidentifier, hinteger⟩ := not_spells_of_fixed kind' hfixed'
      rw [← (spells_iff hfixed').mp h'] at hidentifier hinteger
      cases kind <;> first | exact absurd (by decide) hfixed | exact absurd h ‹_›
    · have hapart : ¬ (identifier.Spells text ∧ integer.Spells text) := by
        rintro ⟨⟨first, others, heq, hfirst, -⟩, -, hdigits⟩
        have hdigit := hdigits first (by simp [heq])
        rw [Lexeme.isDigit_of_startsWord hfirst] at hdigit
        cases hdigit
      cases kind <;> first | exact absurd (by decide) hfixed |
        (cases kind' <;> first | exact absurd (by decide) hfixed' | rfl |
          exact absurd ⟨‹_›, ‹_›⟩ hapart)

end TokenKind

/-! ## The front of a text -/

/-- What does not have the next character in it does not reach it. -/
theorem prefix_of_not_mem {c : Char} {front text rest : List Char}
    (h : front <+: text ++ c :: rest) (hc : c ∉ front) : front <+: text := by
  have hwhole : text ++ [c] <+: text ++ c :: rest := ⟨rest, by simp⟩
  rcases List.prefix_or_prefix_of_prefix h hwhole with hshort | hlong
  · rcases List.prefix_concat_iff.mp hshort with rfl | hprefix
    · exact absurd (by simp) hc
    · exact hprefix
  · exact absurd (hlong.subset (by simp)) hc

namespace Lexeme

/-- In front of `rest` stands a blank, a comment that takes all of its line, or the token of a
kind. -/
inductive Stands (rest : List Char) : Option TokenKind → List Char → Prop where
  | blank {c : Char} (hblank : isBlank c = true) : Stands rest none [c]
  | comment {text : List Char} (hcomment : IsComment text)
      (hline : ∀ c ∈ rest.head?, c = '\n') : Stands rest none text
  | token {kind : TokenKind} {text : List Char} (hreads : Reads kind text rest) :
      Stands rest (some kind) text

/-- At the character stands no blank, no comment and no token. -/
structure Stuck (c : Char) (rest : List Char) : Prop where
  blank : isBlank c = false
  fits : ∀ text, text <+: c :: rest → ¬ Fits text

variable {c : Char} {text rest : List Char} {kind kind' : TokenKind} {kind? : Option TokenKind}

theorem IsComment.slashes (h : IsComment text) : ['/', '/'] <+: text := by
  obtain ⟨body, rfl, -⟩ := h
  exact ⟨body, rfl⟩

theorem Fits.ne_nil (h : Fits text) : text ≠ [] := by
  rcases h with hcomment | ⟨kind, h⟩
  · exact List.ne_nil_of_mem (hcomment.slashes.subset List.mem_cons_self)
  · exact h.ne_nil

theorem Stands.ne_nil (h : Stands rest kind? text) : text ≠ [] := by
  cases h with
  | blank => exact List.cons_ne_nil _ _
  | comment hcomment => exact Fits.ne_nil (.inl hcomment)
  | token hreads => exact hreads.fits.ne_nil

/-- No two tokens stand in front of one text. -/
theorem Reads.unique {text' : List Char} (h : Reads kind text rest) (h' : Reads kind' text' rest')
    (htext : text ++ rest = text' ++ rest') : kind = kind' ∧ text = text' ∧ rest = rest' := by
  have hle : text.length ≤ text'.length := h'.longest text ⟨rest, htext⟩ (.inr ⟨kind, h.fits⟩)
  have hge : text'.length ≤ text.length :=
    h.longest text' ⟨rest', htext.symm⟩ (.inr ⟨kind', h'.fits⟩)
  obtain ⟨rfl, rfl⟩ := List.append_inj htext (Nat.le_antisymm hle hge)
  exact ⟨h.spells.unique h'.spells, rfl, rfl⟩

/-- What starts with two slashes starts with no token. -/
theorem Reads.not_slashes (h : Reads kind text rest) : ¬ ['/', '/'] <+: text ++ rest := by
  intro hslashes
  have hlength := h.longest ['/', '/'] hslashes (.inl ⟨[], rfl, nofun⟩)
  exact h.fits.not_slashes
    (List.prefix_of_prefix_length_le hslashes (List.prefix_append _ _) hlength)

/-- There is no lexeme exactly where nothing stands. -/
theorem first?_eq_none_iff : first? c rest = none ↔ Stuck c rest := by
  constructor
  · intro h
    unfold first? at h
    split_ifs at h with hblank hslashes hword hdigit
    refine ⟨by simpa using hblank, fun text htext hfits => ?_⟩
    obtain ⟨d, others, rfl⟩ := List.exists_cons_of_ne_nil hfits.ne_nil
    obtain ⟨rfl, hothers⟩ := List.cons_prefix_cons.mp htext
    rcases hfits.symbol (by simpa using hword) (by simpa using hdigit) with
      ⟨body, hbody, -⟩ | ⟨kind, hkind, hspelled⟩
    · cases hbody
      obtain ⟨back, rfl⟩ := hothers
      exact hslashes (by simp)
    · have hnot := List.find?_eq_none.mp (Option.map_eq_none_iff.mp h) kind hkind
      rw [List.isPrefixOf_iff_prefix, ← hspelled] at hnot
      exact hnot htext
  · intro h
    cases hfirst : first? c rest with
    | none => rfl
    | some lexeme =>
      obtain ⟨kind?, extra⟩ := lexeme
      have hfront : c :: rest.take extra <+: c :: rest :=
        List.cons_prefix_cons.mpr ⟨rfl, List.take_prefix _ _⟩
      cases kind? with
      | none =>
        rcases first?_skipped hfirst with hblanks | ⟨hcomment, -⟩
        · have hblank := hblanks c List.mem_cons_self
          rw [h.blank] at hblank
          cases hblank
        · exact absurd (.inl hcomment) (h.fits _ hfront)
      | some kind =>
        exact absurd (.inr ⟨kind, (first?_token hfirst).fits⟩) (h.fits _ hfront)

end Lexeme

/-! ## Reading the front of a text -/

open Lexeme

section Reading

variable {here : Location} {c : Char} {text rest : List Char} {kind : TokenKind}
  {kind? : Option TokenKind}

theorem tokensFrom_nil : tokensFrom here [] = .ok [] := by
  rw [tokensFrom]

/-- Reading stops where nothing stands. -/
theorem tokensFrom_stuck (h : Stuck c rest) :
    tokensFrom here (c :: rest) = .error ⟨c, here, here.advance c⟩ := by
  rw [tokensFrom, first?_eq_none_iff.mpr h]

theorem tokensFrom_skip {extra : Nat} (h : first? c rest = some ⟨none, extra⟩) :
    tokensFrom here (c :: rest)
      = tokensFrom (here.advanceAll (c :: rest.take extra)) (rest.drop extra) := by
  rw [tokensFrom, h]

/-- A run of blanks may be skipped one by one. -/
theorem tokensFrom_blank (hc : isBlank c = true) :
    tokensFrom here (c :: rest) = tokensFrom (here.advance c) rest := by
  have hfirst (c : Char) (rest : List Char) (hc : isBlank c = true) :
      first? c rest = some ⟨none, (rest.takeWhile isBlank).length⟩ := by
    rw [first?, if_pos hc]
  rw [tokensFrom_skip (hfirst c rest hc)]
  cases rest with
  | nil => rfl
  | cons d rest =>
    by_cases hd : isBlank d = true
    · -- the run behind the first blank is one of its own
      rw [tokensFrom_skip (hfirst d rest hd), List.takeWhile_cons_of_pos hd]
      rfl
    · rw [List.takeWhile_cons_of_neg hd]
      rfl

/-- A comment is skipped up to the end of its line. -/
theorem tokensFrom_comment (h : IsComment text) (hline : ∀ c ∈ rest.head?, c = '\n') :
    tokensFrom here (text ++ rest) = tokensFrom (here.advanceAll text) rest := by
  obtain ⟨body, rfl, hbody⟩ := h
  have hinside : ∀ x ∈ '/' :: body, (x != '\n') = true := by
    refine List.forall_mem_cons.mpr ⟨by decide, fun x hx => bne_iff_ne.mpr ?_⟩
    rintro rfl
    exact hbody hx
  have hbehind : rest.takeWhile (· != '\n') = [] := by
    cases rest with
    | nil => rfl
    | cons c rest => simp [hline c rfl]
  have hfirst : first? '/' ('/' :: body ++ rest) = some ⟨none, ('/' :: body).length⟩ := by
    rw [first?, if_neg (by decide), if_pos (by simp), List.takeWhile_append_of_pos hinside, hbehind,
      List.append_nil]
  show tokensFrom here ('/' :: ('/' :: body ++ rest)) = _
  rw [tokensFrom_skip hfirst, List.take_left, List.drop_left]

/-- A token that stands in front is the first one. -/
theorem tokensFrom_token (h : Reads kind text rest) :
    tokensFrom here (text ++ rest)
      = (tokensFrom (here.advanceAll text) rest).map
          (⟨kind, .ofList text, here, here.advanceAll text⟩ :: ·) := by
  obtain ⟨c, others, rfl⟩ := List.exists_cons_of_ne_nil h.fits.ne_nil
  have hsplit (extra : Nat) : c :: (others ++ rest).take extra ++ (others ++ rest).drop extra
      = c :: others ++ rest := by simp
  rw [List.cons_append, tokensFrom]
  cases hfirst : first? c (others ++ rest) with
  | none =>
    exact absurd (.inr ⟨kind, h.fits⟩)
      ((first?_eq_none_iff.mp hfirst).fits (c :: others) (List.prefix_append _ rest))
  | some lexeme =>
    obtain ⟨kind?, extra⟩ := lexeme
    cases kind? with
    | none =>
      rcases first?_skipped hfirst with hblanks | ⟨hcomment, -⟩
      · have hblank := h.fits.isBlank_eq_false c List.mem_cons_self
        rw [hblanks c List.mem_cons_self] at hblank
        cases hblank
      · have hslashes := hcomment.slashes.trans
          (List.prefix_append _ ((others ++ rest).drop extra))
        rw [hsplit] at hslashes
        exact absurd hslashes h.not_slashes
    | some kind' =>
      obtain ⟨rfl, htext, hrest⟩ := (first?_token hfirst).unique h (hsplit extra)
      dsimp only
      rw [htext, hrest]
      rfl

/-- What is read in front of a text is what stands there. -/
theorem tokensFrom_stands (h : Stands rest kind? text) :
    tokensFrom here (text ++ rest) = (tokensFrom (here.advanceAll text) rest).map
      ((kind?.map fun kind => ⟨kind, .ofList text, here, here.advanceAll text⟩).toList ++ ·) := by
  have hskipped {answer : Except InvalidToken (List Token)} : answer.map ([] ++ ·) = answer := by
    cases answer <;> rfl
  cases h with
  | blank hblank => exact (tokensFrom_blank hblank).trans hskipped.symm
  | comment hcomment hline => exact (tokensFrom_comment hcomment hline).trans hskipped.symm
  | token hreads => exact tokensFrom_token hreads

end Reading

namespace Lexeme

/-- In front of a text stands a lexeme, unless the text is empty or stuck. -/
theorem exists_stands (c : Char) (rest : List Char) :
    Stuck c rest ∨ ∃ kind? text behind, c :: rest = text ++ behind ∧ Stands behind kind? text := by
  cases hfirst : first? c rest with
  | none => exact .inl (first?_eq_none_iff.mp hfirst)
  | some lexeme =>
    obtain ⟨kind?, extra⟩ := lexeme
    have hsplit : c :: rest = c :: rest.take extra ++ rest.drop extra := by simp
    cases kind? with
    | none =>
      rcases first?_skipped hfirst with hblanks | ⟨hcomment, hline⟩
      · exact .inr ⟨none, [c], rest, rfl, .blank (hblanks c List.mem_cons_self)⟩
      · exact .inr ⟨none, _, _, hsplit, .comment hcomment hline⟩
    | some kind => exact .inr ⟨some kind, _, _, hsplit, .token (first?_token hfirst)⟩

/-- Induction on texts, one lexeme at a time. A text ends, is stuck, or goes on behind a lexeme. -/
@[elab_as_elim]
theorem induction {P : List Char → Prop} (nil : P [])
    (stuck : ∀ c rest, Stuck c rest → P (c :: rest))
    (lexeme : ∀ kind? text rest, Stands rest kind? text → P rest → P (text ++ rest)) :
    ∀ text, P text := by
  intro text
  induction hlength : text.length using Nat.strongRecOn generalizing text with
  | ind length ih =>
    subst hlength
    cases text with
    | nil => exact nil
    | cons c rest =>
      rcases exists_stands c rest with hstuck | ⟨kind?, front, behind, hsplit, hstands⟩
      · exact stuck c rest hstuck
      · rw [hsplit] at ih ⊢
        have hpos := List.length_pos_iff.mpr hstands.ne_nil
        refine lexeme kind? front behind hstands (ih behind.length ?_ behind rfl)
        rw [List.length_append]
        omega

end Lexeme

end Census
