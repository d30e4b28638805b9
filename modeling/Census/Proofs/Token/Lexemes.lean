import Mathlib.Tactic.SplitIfs
import Census.Proofs.Token.Spelling

/-!
# Lexemes

What makes a token or a comment, said by patterns that know nothing of each other. The lexeme in
front of a text is the longest one that any of them fits.

- `TokenKind.Matches`, `Lexeme.IsComment`: the patterns.
- `Lexeme.Reads`: a kind and a longest match for it, in front of a text.
- `Lexeme.first?_token`, `Lexeme.first?_skipped`: what the lexeme in front of a text is.
- `Lexeme.Reads.spells`: what is read as a token is a spelling of its kind.
-/

namespace Census

namespace TokenKind

/-- The text fits the pattern of the kind. The pattern of identifiers fits keywords, too. -/
def Matches (kind : TokenKind) (text : List Char) : Prop :=
  match kind with
  | identifier => ∃ first others, text = first :: others ∧ Lexeme.startsWord first = true ∧
      ∀ c ∈ others, Lexeme.continuesWord c = true
  | integer => text ≠ [] ∧ ∀ c ∈ text, c.isDigit = true
  | kind => text = kind.spelling.toList

variable {kind : TokenKind} {text : List Char}

theorem matches_iff (h : kind ∈ fixed) : kind.Matches text ↔ text = kind.spelling.toList := by
  cases kind <;> first | exact Iff.rfl | exact absurd h (by decide)

/-- Keywords are words. -/
theorem matches_identifier_of_keyword :
    ∀ kind ∈ keywords, identifier.Matches kind.spelling.toList := by
  have hspelling : ∀ kind ∈ keywords, kind.spelling.toList.head?.any Lexeme.startsWord = true ∧
      kind.spelling.toList.tail.all Lexeme.continuesWord = true := by
    decide
  intro kind hkind
  obtain ⟨hfirst, hothers⟩ := hspelling kind hkind
  cases hword : kind.spelling.toList with
  | nil => simp [hword] at hfirst
  | cons first others =>
    rw [hword] at hfirst hothers
    exact ⟨first, others, rfl, hfirst, List.all_eq_true.mp hothers⟩

/-- No symbol starts like a word or a number. -/
theorem head?_spelling_of_symbol :
    ∀ kind ∈ symbols, ∀ c ∈ kind.spelling.toList.head?,
      Lexeme.startsWord c = false ∧ c.isDigit = false := by
  have hsigns : ∀ kind ∈ symbols, kind.spelling.toList.head?.all
      (fun c => !Lexeme.startsWord c && !c.isDigit) = true := by
    decide
  intro kind hkind c hc
  have hsign := hsigns kind hkind
  rw [Option.mem_def.mp hc] at hsign
  simpa using hsign

/-- Of two symbols the longer one comes first. -/
theorem pairwise_symbols :
    symbols.Pairwise fun kind other =>
      other.spelling.toList.length ≤ kind.spelling.toList.length := by
  decide

theorem cases_of_matches (h : kind.Matches text) :
    identifier.Matches text ∨ integer.Matches text ∨
      ∃ kind ∈ symbols, text = kind.spelling.toList := by
  by_cases hkeyword : kind ∈ keywords
  · rw [matches_iff (List.mem_append_left _ hkeyword)] at h
    exact .inl (h ▸ matches_identifier_of_keyword kind hkeyword)
  by_cases hsymbol : kind ∈ symbols
  · exact .inr (.inr ⟨kind, hsymbol, (matches_iff (List.mem_append_right _ hsymbol)).mp h⟩)
  cases kind with
  | identifier => exact .inl h
  | integer => exact .inr (.inl h)
  | _ => first | exact absurd (by decide) hkeyword | exact absurd (by decide) hsymbol

end TokenKind

namespace Lexeme

open TokenKind

/-- Two slashes and what follows on the same line. -/
def IsComment (text : List Char) : Prop :=
  ∃ body, text = '/' :: '/' :: body ∧ '\n' ∉ body

/-- The text fits the pattern of some kind of tokens, or that of comments. -/
def Fits (text : List Char) : Prop := IsComment text ∨ ∃ kind, TokenKind.Matches kind text

/-- In front of `rest` stands a token of the kind: nothing longer fits any pattern, and the kind is
a keyword exactly when the whole token is spelled so. -/
structure Reads (kind : TokenKind) (taken rest : List Char) : Prop where
  fits : kind.Matches taken
  longest : ∀ other, other <+: taken ++ rest → Fits other → other.length ≤ taken.length
  keyword : ∀ keyword ∈ keywords, kind = keyword ↔ taken = keyword.spelling.toList

variable {c : Char} {rest others taken : List Char} {kind : TokenKind} {extra : Nat}

/-! ## Patterns by first characters -/

theorem isDigit_of_startsWord (h : startsWord c = true) : c.isDigit = false := by
  rw [startsWord, Bool.or_eq_true, beq_iff_eq] at h
  rcases h with h | rfl
  · -- letters and digits have codes apart
    have hletter : (decide (65 ≤ c.val ∧ c.val ≤ 90) || 97 ≤ c.val && c.val ≤ 122) = true := h
    change (48 ≤ c.val && c.val ≤ 57) = false
    simp only [Bool.or_eq_true, Bool.and_eq_true, decide_eq_true_eq, UInt32.le_iff_toNat_le,
      Bool.and_eq_false_imp, decide_eq_false_iff_not, UInt32.reduceToNat] at hletter ⊢
    omega
  · rfl

/-- What fits and starts like a word is a word. -/
theorem Fits.word (h : Fits (c :: others)) (hc : startsWord c = true) :
    ∀ x ∈ others, continuesWord x = true := by
  rcases h with ⟨body, hbody, -⟩ | ⟨kind, h⟩
  · cases hbody
    cases hc
  rcases cases_of_matches h with ⟨_, _, heq, -, hothers⟩ | ⟨-, hdigits⟩ | ⟨kind, hkind, heq⟩
  · cases heq
    exact hothers
  · have hdigit := hdigits c List.mem_cons_self
    rw [isDigit_of_startsWord hc] at hdigit
    cases hdigit
  · have hfirst := (head?_spelling_of_symbol kind hkind c (by rw [← heq]; rfl)).1
    rw [hc] at hfirst
    cases hfirst

/-- What fits and starts with a digit is a number. -/
theorem Fits.digits (h : Fits (c :: others)) (hc : c.isDigit = true) :
    ∀ x ∈ others, x.isDigit = true := by
  rcases h with ⟨body, hbody, -⟩ | ⟨kind, h⟩
  · cases hbody
    cases hc
  rcases cases_of_matches h with ⟨_, _, heq, hstarts, -⟩ | ⟨-, hdigits⟩ | ⟨kind, hkind, heq⟩
  · cases heq
    rw [isDigit_of_startsWord hstarts] at hc
    cases hc
  · exact fun x hx => hdigits x (List.mem_cons_of_mem _ hx)
  · have hfirst := (head?_spelling_of_symbol kind hkind c (by rw [← heq]; rfl)).2
    rw [hc] at hfirst
    cases hfirst

/-- All else that fits is a comment or a symbol. -/
theorem Fits.symbol (h : Fits (c :: others)) (hword : startsWord c = false)
    (hdigit : c.isDigit = false) :
    IsComment (c :: others) ∨ ∃ kind ∈ symbols, c :: others = kind.spelling.toList := by
  rcases h with hcomment | ⟨kind, h⟩
  · exact .inl hcomment
  rcases cases_of_matches h with ⟨_, _, heq, hstarts, -⟩ | ⟨-, hdigits⟩ | hsymbol
  · cases heq
    rw [hword] at hstarts
    cases hstarts
  · have := hdigits c List.mem_cons_self
    rw [hdigit] at this
    cases this
  · exact .inr hsymbol

/-! ## The lexeme in front of a text -/

section Classes

variable (p : Char → Bool) (rest : List Char)

theorem take_length_takeWhile : rest.take (rest.takeWhile p).length = rest.takeWhile p :=
  (List.prefix_iff_eq_take.mp (List.takeWhile_prefix p)).symm

theorem forall_mem_take_length_takeWhile :
    ∀ x ∈ rest.take (rest.takeWhile p).length, p x = true := by
  rw [take_length_takeWhile]
  exact List.all_eq_true.mp List.all_takeWhile

/-- A run ends where its class does. -/
theorem eq_false_of_mem_head?_drop :
    ∀ x ∈ (rest.drop (rest.takeWhile p).length).head?, p x = false := by
  induction rest with
  | nil => nofun
  | cons c rest ih => by_cases hc : p c <;> simp_all

/-- A run at the front is the longest text of its class there. -/
theorem longest_run {p : Char → Bool} {rest : List Char}
    (h : ∀ others, Fits (c :: others) → ∀ x ∈ others, p x = true) :
    ∀ other,
      other <+: c :: rest.take (rest.takeWhile p).length ++ rest.drop (rest.takeWhile p).length →
      Fits other → other.length ≤ (c :: rest.take (rest.takeWhile p).length).length := by
  intro other hother hfits
  rw [List.cons_append, List.take_append_drop] at hother
  rw [take_length_takeWhile]
  cases other with
  | nil => simp
  | cons x others =>
    obtain ⟨rfl, back, rfl⟩ := List.cons_prefix_cons.mp hother
    rw [List.takeWhile_append_of_pos (h others hfits)]
    simp

end Classes

/-- The word kind is a keyword if that is how the word is spelled, and no other. -/
theorem wordKind_eq_iff {word : List Char} {keyword : TokenKind} (h : keyword ∈ keywords) :
    wordKind word = keyword ↔ word = keyword.spelling.toList := by
  have hdistinct : ∀ kind ∈ keywords, ∀ other ∈ keywords,
      kind.spelling.toList = other.spelling.toList → kind = other := by
    decide
  unfold wordKind
  cases hfind : keywords.find? fun kind => kind.spelling.toList == word with
  | none =>
    have hnone := List.find?_eq_none.mp hfind keyword h
    simp only [Option.getD_none, beq_iff_eq] at hnone ⊢
    exact ⟨fun heq => absurd (heq ▸ h) (by decide), fun heq => absurd heq.symm hnone⟩
  | some found =>
    have hspelled : found.spelling.toList = word := by simpa using List.find?_some hfind
    have hmem := List.mem_of_find?_eq_some hfind
    rw [Option.getD_some]
    exact ⟨fun heq => heq ▸ hspelled.symm,
      fun heq => hdistinct found hmem keyword h (hspelled.trans heq)⟩

/-- A word kind is a keyword, or the kind of identifiers. -/
theorem wordKind_eq_identifier {word : List Char} (h : wordKind word ∉ keywords) :
    wordKind word = .identifier := by
  unfold wordKind at h ⊢
  cases hfind : keywords.find? fun kind => kind.spelling.toList == word with
  | none => rfl
  | some found =>
    rw [hfind] at h
    exact absurd (List.mem_of_find?_eq_some hfind) h

theorem wordKind_matches {word : List Char} (h : identifier.Matches word) :
    (wordKind word).Matches word := by
  by_cases hkeyword : wordKind word ∈ keywords
  · rw [matches_iff (List.mem_append_left _ hkeyword)]
    exact (wordKind_eq_iff hkeyword).mp rfl
  · rwa [wordKind_eq_identifier hkeyword]

theorem reads_word (hc : startsWord c = true)
    (hextra : extra = (rest.takeWhile continuesWord).length) :
    Reads (wordKind (c :: rest.takeWhile continuesWord)) (c :: rest.take extra)
      (rest.drop extra) := by
  subst hextra
  refine ⟨?_, longest_run fun _ hfits => hfits.word hc, fun _ hkeyword => ?_⟩
  · have hword := forall_mem_take_length_takeWhile continuesWord rest
    rw [take_length_takeWhile] at hword ⊢
    exact wordKind_matches ⟨c, _, rfl, hc, hword⟩
  · rw [take_length_takeWhile]
    exact wordKind_eq_iff hkeyword

/-- What does not start like a word is no keyword. -/
theorem ne_spelling_of_keyword {keyword : TokenKind} (h : keyword ∈ keywords)
    (hc : startsWord c = false) : c :: others ≠ keyword.spelling.toList := by
  intro heq
  obtain ⟨_, _, hword, hstarts, -⟩ := matches_identifier_of_keyword keyword h
  rw [← heq] at hword
  cases hword
  rw [hc] at hstarts
  cases hstarts

theorem reads_integer (hword : startsWord c = false) (hc : c.isDigit = true)
    (hextra : extra = (rest.takeWhile Char.isDigit).length) :
    Reads .integer (c :: rest.take extra) (rest.drop extra) := by
  subst hextra
  refine ⟨⟨nofun, List.forall_mem_cons.mpr ⟨hc, forall_mem_take_length_takeWhile _ _⟩⟩,
    longest_run fun _ hfits => hfits.digits hc, fun keyword hkeyword => ?_⟩
  exact ⟨fun heq => absurd (heq ▸ hkeyword) (by decide),
    fun heq => absurd heq (ne_spelling_of_keyword hkeyword hword)⟩

/-- The first symbol of the list that stands at the front is the longest one that does. -/
theorem reads_symbol (hword : startsWord c = false) (hdigit : c.isDigit = false)
    (hcomment : ∀ others, others <+: rest → ¬ IsComment (c :: others))
    (h : symbol? (c :: rest) = some kind) (hextra : extra = kind.spelling.length - 1) :
    Reads kind (c :: rest.take extra) (rest.drop extra) := by
  obtain ⟨hstarts, front, after, hsplit, hfront⟩ := List.find?_eq_some_iff_append.mp h
  have hkind : kind ∈ symbols := by simp [hsplit]
  -- symbols are not empty, so the first character is one of the symbol
  obtain ⟨others, hspelling, back, rfl⟩ : ∃ others, kind.spelling.toList = c :: others ∧
      others <+: rest := by
    have hsome : ∀ kind ∈ symbols, kind.spelling.toList ≠ [] := by decide
    obtain ⟨x, others, hx⟩ := List.exists_cons_of_ne_nil (hsome kind hkind)
    rw [List.isPrefixOf_iff_prefix, hx, List.cons_prefix_cons] at hstarts
    obtain ⟨rfl, hothers⟩ := hstarts
    exact ⟨others, hx, hothers⟩
  have hlength : extra = others.length := by
    rw [hextra, ← String.length_toList, hspelling, List.length_cons, Nat.add_sub_cancel]
  rw [hlength, List.take_left, List.drop_left]
  refine ⟨(matches_iff (List.mem_append_right _ hkind)).mpr hspelling.symm,
    fun other hother hfits => ?_, fun keyword hkeyword => ?_⟩
  · cases other with
    | nil => simp
    | cons x inner =>
      obtain ⟨rfl, hinner⟩ := List.cons_prefix_cons.mp hother
      obtain ⟨other, hmem, hspelled⟩ := (hfits.symbol hword hdigit).resolve_left (hcomment _ hinner)
      -- a symbol in the list before the one found does not stand at the front of the text
      have hsorted := pairwise_symbols
      rw [hsplit] at hmem hsorted
      rw [hspelled, ← hspelling]
      rcases List.mem_append.mp hmem with hbefore | hafter
      · have hnot := hfront other hbefore
        rw [← hspelled, Bool.not_eq_true', ← Bool.not_eq_true, List.isPrefixOf_iff_prefix] at hnot
        exact absurd hother hnot
      · rcases List.mem_cons.mp hafter with rfl | hafter
        · exact Nat.le_refl _
        · exact List.rel_of_pairwise_cons (List.pairwise_append.mp hsorted).2.1 hafter
  · have hdisjoint : ∀ kind ∈ symbols, kind ∉ keywords := by decide
    exact ⟨fun heq => absurd (heq ▸ hkeyword) (hdisjoint kind hkind),
      fun heq => absurd heq (ne_spelling_of_keyword hkeyword hword)⟩

/-- A token is read as long as it can be. -/
theorem first?_token (h : first? c rest = some ⟨some kind, extra⟩) :
    Reads kind (c :: rest.take extra) (rest.drop extra) := by
  unfold first? at h
  split_ifs at h with hblank hslashes hword hdigit
  · simp at h
  · simp at h
  · simp only [Option.some.injEq, Lexeme.mk.injEq] at h
    obtain ⟨rfl, hextra⟩ := h
    exact reads_word hword hextra.symm
  · simp only [Option.some.injEq, Lexeme.mk.injEq] at h
    obtain ⟨rfl, hextra⟩ := h
    exact reads_integer (by simpa using hword) hdigit hextra.symm
  · obtain ⟨found, hfound, hlexeme⟩ := Option.map_eq_some_iff.mp h
    simp only [Lexeme.mk.injEq, Option.some.injEq] at hlexeme
    obtain ⟨rfl, hextra⟩ := hlexeme
    refine reads_symbol (by simpa using hword) (by simpa using hdigit) ?_ hfound hextra.symm
    rintro others ⟨back, rfl⟩ ⟨body, hbody, -⟩
    cases hbody
    exact hslashes (by simp)

/-- What is skipped is a run of blanks, or a comment that reaches to the end of its line. -/
theorem first?_skipped (h : first? c rest = some ⟨none, extra⟩) :
    (∀ x ∈ c :: rest.take extra, isBlank x = true) ∨
      IsComment (c :: rest.take extra) ∧ ∀ x ∈ (rest.drop extra).head?, x = '\n' := by
  unfold first? at h
  split_ifs at h with hblank hslashes hword hdigit
  · simp only [Option.some.injEq, Lexeme.mk.injEq, true_and] at h
    subst h
    exact .inl (List.forall_mem_cons.mpr ⟨hblank, forall_mem_take_length_takeWhile _ _⟩)
  · simp only [Option.some.injEq, Lexeme.mk.injEq, true_and] at h
    subst h
    simp only [Bool.and_eq_true, beq_iff_eq] at hslashes
    obtain ⟨rfl, hsecond⟩ := hslashes
    obtain ⟨body, rfl⟩ := List.head?_eq_some_iff.mp hsecond
    have hline := forall_mem_take_length_takeWhile (· != '\n') ('/' :: body)
    rw [take_length_takeWhile] at hline ⊢
    refine .inr ⟨⟨body.takeWhile (· != '\n'), by simp, fun hmem => ?_⟩, fun x hx => ?_⟩
    · simpa using hline '\n' (by simp [hmem])
    · simpa using eq_false_of_mem_head?_drop _ _ x hx
  · simp at h
  · simp at h
  · simp at h

/-! ## Spellings -/

/-- What fits a kind is a spelling of it, but for keywords, which fit identifiers, too. -/
theorem spells_of_matches (h : kind.Matches taken) (hproper : kind = .identifier →
    ∀ keyword ∈ keywords, taken ≠ keyword.spelling.toList) : kind.Spells (.ofList taken) := by
  by_cases hfixed : kind ∈ fixed
  · rw [spells_iff hfixed, (matches_iff hfixed).mp h, String.ofList_toList]
  · cases kind with
    | identifier =>
      obtain ⟨first, others, htaken, hfirst, hothers⟩ := h
      refine ⟨first, others, by rw [String.toList_ofList, htaken], hfirst, hothers, ?_⟩
      rw [String.toList_ofList]
      exact wordKind_eq_identifier fun hkeyword =>
        hproper rfl _ hkeyword ((wordKind_eq_iff hkeyword).mp rfl)
    | integer =>
      obtain ⟨hsome, hdigits⟩ := h
      exact ⟨by rwa [String.toList_ofList], by rwa [String.toList_ofList]⟩
    | _ => exact absurd (by decide) hfixed

/-- What is read as a token is a spelling of its kind. -/
theorem Reads.spells (h : Reads kind taken rest) : kind.Spells (.ofList taken) := by
  refine spells_of_matches h.fits ?_
  -- if the word were a keyword, it would have been read as one
  rintro rfl keyword hkeyword htaken
  exact absurd ((h.keyword keyword hkeyword).mpr htaken ▸ hkeyword) (by decide)

end Lexeme

end Census
