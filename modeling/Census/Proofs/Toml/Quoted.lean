import Mathlib.Tactic.IntervalCases
import Mathlib.Tactic.SplitIfs
import Census.Toml.Quoted

/-!
# Strings are read back as they were written

Whatever a string holds, some style writes it so that it is read back. Three facts carry this: an
escape stands for the character it was made of, a row of marks inside a string never closes it, and
marks right before the closing ones are given back to the content.

- `Spells`: what stands for one character of a quoted string.
- `basicBody_basicContent`, `multiBasicBody_multiBasicContent`: quoted strings hold every content.
- `literalBody_append`, `multiLiteralBody_append`: apostrophized strings hold what their style
  admits.
- `string_write`: the style chosen for a content holds it.
-/

namespace Census.Toml

variable {c : Char} {code content rest : List Char} {row : Nat}

/-! ## Single characters -/

/-- Apart from the line feed, all that is no control character may stand in a string as it is. -/
theorem isPlain_of_isControl_eq_false (h : isControl c = false) (hline : c ≠ '\n') :
    isPlain c = true := by
  simp only [isControl, isPlain, Bool.or_eq_false_iff, Bool.and_eq_false_imp, bne_iff_ne,
    decide_eq_true_eq, Bool.or_eq_true, Bool.and_eq_true, beq_iff_eq, beq_eq_false_iff_ne] at h ⊢
  by_cases htab : c = '\t'
  · exact .inl htab
  · refine .inr ⟨Nat.le_of_not_lt fun hlow => ?_, h.2⟩
    simpa [hline] using h.1 ⟨hlow, htab⟩

/-- Digits are read back as they are written. -/
theorem hexDigit?_hexChar {digit : Nat} (h : digit < 16) :
    hexDigit? (hexChar digit) = some digit := by
  decide +revert

/-- Four digits write every number below 65536. -/
theorem scalar?_fourHex (h : c.toNat < 65536) : scalar? 4 (fourHex c.toNat ++ rest) = some c := by
  have hdigits : ((fourHex c.toNat ++ rest).take 4).mapM hexDigit? = some
      [c.toNat / 4096 % 16, c.toNat / 256 % 16, c.toNat / 16 % 16, c.toNat % 16] := by
    simp [fourHex, hexDigit?_hexChar, Nat.mod_lt]
  have hnumber : number 16 [c.toNat / 4096 % 16, c.toNat / 256 % 16, c.toNat / 16 % 16,
      c.toNat % 16] = c.toNat := by
    simp only [number, List.foldl_cons, List.foldl_nil]
    omega
  have hvalid : c.toNat.isValidChar := c.valid
  rw [scalar?, hdigits]
  simp [hnumber, hvalid]

/-- What stands for a character in a quoted string: itself, or an escape that means it. -/
inductive Spells (c : Char) : List Char → Prop
  | plain : c ≠ '"' → c ≠ '\\' → isPlain c = true → Spells c [c]
  | escape {code : List Char} :
    (∀ rest, escape? (code ++ rest) = some (c, code.length)) → Spells c ('\\' :: code)

theorem Spells.mark : Spells '"' ['\\', '"'] := .escape fun _ => rfl

theorem Spells.lineFeed : Spells '\n' ['\\', 'n'] := .escape fun _ => rfl

/-- Marks and line feeds are written in ways of their own. -/
theorem spells_escaped (hmark : c ≠ '"') (hline : c ≠ '\n') : Spells c (escaped c) := by
  unfold escaped
  split_ifs with hb ht hf hr hbackslash hcontrol
  · exact hb ▸ .escape fun _ => rfl
  · exact ht ▸ .escape fun _ => rfl
  · exact hf ▸ .escape fun _ => rfl
  · exact hr ▸ .escape fun _ => rfl
  · subst hbackslash
    exact .escape fun _ => rfl
  · have hlow : c.toNat < 65536 := by
      simp only [isControl, Bool.or_eq_true, Bool.and_eq_true, decide_eq_true_eq,
        beq_iff_eq] at hcontrol
      omega
    refine .escape fun rest => ?_
    rw [List.cons_append, escape?, scalar?_fourHex hlow]
    rfl
  · exact .plain hmark hbackslash
      (isPlain_of_isControl_eq_false (by simpa using hcontrol) hline)

/-! ## Quoted strings -/

/-- What stands for a character is read as that, and reading goes on behind it. -/
theorem Spells.basicBody_append (h : Spells c code) (rest : List Char) :
    basicBody (code ++ rest) = (basicBody rest).map (push c) := by
  cases h with
  | plain hmark hbackslash hplain =>
    rw [List.singleton_append, basicBody, if_neg hmark, if_neg hbackslash, if_pos hplain]
  | @escape code hcode =>
    rw [List.cons_append, basicBody, if_neg (by decide), if_pos rfl, hcode]
    simp only [List.drop_left]

/-- Every content can stand between quotes on one line. -/
theorem basicBody_basicContent (content rest : List Char) :
    basicBody (basicContent content ++ '"' :: rest) = some (content, rest) := by
  induction content with
  | nil => rw [basicContent, List.nil_append, basicBody, if_pos rfl]
  | cons c content ih =>
    obtain ⟨code, hcode, hcontent⟩ :
        ∃ code, Spells c code ∧ basicContent (c :: content) = code ++ basicContent content := by
      rw [basicContent]
      split_ifs with hmark hline
      · exact ⟨['\\', '"'], hmark ▸ .mark, rfl⟩
      · exact ⟨['\\', 'n'], hline ▸ .lineFeed, rfl⟩
      · exact ⟨_, spells_escaped hmark hline, rfl⟩
    rw [hcontent, List.append_assoc, hcode.basicBody_append, ih]
    rfl

/-! ## Strings of several lines -/

/-- At most two marks right before the closing ones are given back. -/
theorem closing_replicate {mark : Char} {count : Nat} (hcount : count ≤ 2)
    (hrest : rest.head? ≠ some mark) :
    closing mark (List.replicate count mark ++ rest) = (List.replicate count mark, rest) := by
  have hstop : ∀ few, (rest.take few).takeWhile (· == mark) = [] := by
    intro few
    cases rest <;> cases few <;> simp_all
  unfold closing
  interval_cases count <;> simp [hstop, List.replicate]

/-- A character that stands for itself, unless it starts a row of three marks. -/
theorem multiBasicBody_cons (hplain : isPlain c = true ∨ c = '\n') (hbackslash : c ≠ '\\')
    (hmarks : c = '"' → ¬ ['"', '"'] <+: rest) :
    multiBasicBody (c :: rest) = (multiBasicBody rest).map (push c) := by
  rw [multiBasicBody, if_neg hbackslash, if_pos (by simpa using hplain)]
  · rintro after rfl rfl
    exact hmarks rfl (List.prefix_append ['"', '"'] after)
  · rintro after rfl
    exact absurd hplain (by decide)

/-- The same between three marks, where a plain character must not be one. -/
theorem Spells.multiBasicBody_append (h : Spells c code) (rest : List Char) :
    multiBasicBody (code ++ rest) = (multiBasicBody rest).map (push c) := by
  cases h with
  | plain hmark hbackslash hplain =>
    exact multiBasicBody_cons (.inl hplain) hbackslash fun heq => absurd heq hmark
  | @escape code hcode =>
    rw [List.cons_append, multiBasicBody, if_pos rfl, hcode]
    · simp only [List.drop_left]
    · rintro after ⟨⟩
    · rintro after ⟨⟩

/-- An escape starts with a backslash, so no mark is there to be counted. -/
theorem head?_escaped_append (hmark : c ≠ '"') : (escaped c ++ rest).head? ≠ some '"' := by
  unfold escaped
  split_ifs <;> simp [hmark]

/-- A content is written with a mark in front if it starts with one that need not be escaped. -/
theorem starts_with_mark (hcontent : content ≠ [])
    (h : (multiBasicContent row content ++ rest).head? = some '"') :
    row < 2 ∧ ∃ others, content = '"' :: others := by
  cases content with
  | nil => exact absurd rfl hcontent
  | cons c content =>
    rw [multiBasicContent] at h
    split_ifs at h with hmark hrow
    · exact ⟨hrow, content, by rw [hmark]⟩
    · simp at h
    · rw [List.append_assoc] at h
      exact absurd h (head?_escaped_append hmark)

/-- Three marks in a row are the closing ones, with what is left of the content in front. -/
theorem eq_replicate_of_three_marks (hrow : row < 2)
    (h : ['"', '"'] <+: multiBasicContent (row + 1) content ++ '"' :: '"' :: '"' :: rest) :
    ∃ count, count + row < 2 ∧ content = List.replicate count '"' := by
  obtain ⟨after, hafter⟩ := h
  by_cases hnil : content = []
  · exact ⟨0, by omega, hnil⟩
  obtain ⟨hrow', others, rfl⟩ := starts_with_mark hnil (congrArg List.head? hafter.symm)
  rw [multiBasicContent, if_pos rfl, if_pos hrow'] at hafter
  have hnext :
      (multiBasicContent (row + 1 + 1) others ++ '"' :: '"' :: '"' :: rest).head? = some '"' :=
    congrArg List.head? (List.cons.inj hafter).2.symm
  by_cases hnil : others = []
  · exact ⟨1, by omega, by rw [hnil]; rfl⟩
  · have := (starts_with_mark hnil hnext).1
    omega

/-- Up to two marks in a row stay as they are. -/
theorem multiBasicContent_replicate {count : Nat} (h : count + row ≤ 2) :
    multiBasicContent row (List.replicate count '"') = List.replicate count '"' := by
  induction count generalizing row with
  | zero => rfl
  | succ count ih =>
    rw [List.replicate_succ, multiBasicContent, if_pos rfl, if_pos (by omega), ih (by omega)]

/-- Marks may end the content, two at most. -/
theorem multiBasicBody_replicate (count : Nat) (hcount : count ≤ 2)
    (hrest : rest.head? ≠ some '"') :
    multiBasicBody (List.replicate count '"' ++ '"' :: '"' :: '"' :: rest)
      = some (List.replicate count '"', rest) := by
  have hmarks : List.replicate count '"' ++ '"' :: '"' :: '"' :: rest
      = '"' :: '"' :: '"' :: (List.replicate count '"' ++ rest) := by
    interval_cases count <;> rfl
  rw [hmarks, multiBasicBody, closing_replicate hcount hrest]

/-- Every content can stand between tripled quotes. -/
theorem multiBasicBody_multiBasicContent (row : Nat) (content : List Char)
    (hrest : rest.head? ≠ some '"') :
    multiBasicBody (multiBasicContent row content ++ '"' :: '"' :: '"' :: rest)
      = some (content, rest) := by
  induction content generalizing row with
  | nil => exact multiBasicBody_replicate 0 (Nat.zero_le 2) hrest
  | cons c content ih =>
    rw [multiBasicContent]
    split_ifs with hmark hrow
    · subst hmark
      by_cases hmarks :
          ['"', '"'] <+: multiBasicContent (row + 1) content ++ '"' :: '"' :: '"' :: rest
      · obtain ⟨count, hcount, rfl⟩ := eq_replicate_of_three_marks hrow hmarks
        rw [multiBasicContent_replicate (by omega)]
        exact multiBasicBody_replicate (count + 1) (by omega) hrest
      · rw [List.cons_append, multiBasicBody_cons (.inl rfl) (by decide) fun _ => hmarks, ih]
        rfl
    · subst hmark
      exact (Spells.mark.multiBasicBody_append (multiBasicContent 0 content ++ _)).trans
        (by rw [ih]; rfl)
    · by_cases hline : c = '\n'
      · subst hline
        rw [show escaped '\n' = ['\n'] from rfl, List.append_assoc, List.singleton_append,
          multiBasicBody_cons (.inr rfl) (by decide) fun heq => absurd heq hmark, ih]
        rfl
      · rw [List.append_assoc, (spells_escaped hmark hline).multiBasicBody_append, ih]
        rfl

/-! ## Apostrophized strings -/

/-- Between apostrophes all stands for itself up to the next apostrophe. -/
theorem literalBody_append (hcontent : ∀ c ∈ content, isPlain c = true ∧ c ≠ '\'') :
    literalBody (content ++ '\'' :: rest) = some (content, rest) := by
  induction content with
  | nil => rfl
  | cons c content ih =>
    obtain ⟨⟨hplain, hmark⟩, hcontent⟩ := List.forall_mem_cons.mp hcontent
    rw [List.cons_append, literalBody, if_neg hmark, if_pos hplain, ih hcontent]
    rfl

/-- With a longer row before it no row in the content gets shorter. -/
theorem longestRow_le_succ (mark : Char) (row : Nat) (content : List Char) :
    longestRow mark row content ≤ longestRow mark (row + 1) content := by
  induction content generalizing row with
  | nil => exact Nat.le_succ row
  | cons c content ih =>
    rw [longestRow, longestRow]
    split_ifs
    · exact ih (row + 1)
    · omega

theorem row_le_longestRow (mark : Char) (row : Nat) (content : List Char) :
    row ≤ longestRow mark row content := by
  induction content generalizing row with
  | nil => exact Nat.le_refl row
  | cons c content ih =>
    rw [longestRow]
    split_ifs
    · exact Nat.le_of_succ_le (ih (row + 1))
    · exact Nat.le_max_left ..

/-- The rows of a content that follow its first character are no longer than all of them. -/
theorem longestRow_tail_le (mark c : Char) (content : List Char) :
    longestRow mark 0 content ≤ longestRow mark 0 (c :: content) := by
  rw [longestRow]
  split_ifs
  · exact longestRow_le_succ mark 0 content
  · exact Nat.le_max_right ..

/-- A character that starts no closing row stands for itself. -/
theorem multiLiteralBody_cons (hplain : isPlain c = true ∨ c = '\n')
    (hmarks : c = '\'' → ¬ ['\'', '\''] <+: rest) :
    multiLiteralBody (c :: rest) = (multiLiteralBody rest).map (push c) := by
  rw [multiLiteralBody, if_pos (by simpa using hplain)]
  · rintro after rfl rfl
    exact hmarks rfl (List.prefix_append ['\'', '\''] after)
  · rintro after rfl
    exact absurd hplain (by decide)

/-- Up to two apostrophes right before the closing ones belong to the content. -/
theorem multiLiteralBody_replicate (count : Nat) (hcount : count ≤ 2)
    (hrest : rest.head? ≠ some '\'') :
    multiLiteralBody (List.replicate count '\'' ++ '\'' :: '\'' :: '\'' :: rest)
      = some (List.replicate count '\'', rest) := by
  have hmarks : List.replicate count '\'' ++ '\'' :: '\'' :: '\'' :: rest
      = '\'' :: '\'' :: '\'' :: (List.replicate count '\'' ++ rest) := by
    interval_cases count <;> rfl
  rw [hmarks, multiLiteralBody, closing_replicate hcount hrest]

/-- A content without three marks in a row can stand between tripled apostrophes. -/
theorem multiLiteralBody_append (hcontent : ∀ c ∈ content, isPlain c = true ∨ c = '\n')
    (hrow : longestRow '\'' 0 content ≤ 2) (hrest : rest.head? ≠ some '\'') :
    multiLiteralBody (content ++ '\'' :: '\'' :: '\'' :: rest) = some (content, rest) := by
  induction content with
  | nil => exact multiLiteralBody_replicate 0 (Nat.zero_le 2) hrest
  | cons c content ih =>
    obtain ⟨hplain, hcontent⟩ := List.forall_mem_cons.mp hcontent
    by_cases hmarks : c = '\'' ∧ ['\'', '\''] <+: content ++ '\'' :: '\'' :: '\'' :: rest
    · obtain ⟨rfl, after, hafter⟩ := hmarks
      -- the marks in a row are all of the content: with a third one it would be another style's
      rcases content with _ | ⟨d, _ | ⟨e, content⟩⟩
      · exact multiLiteralBody_replicate 1 (by omega) hrest
      · obtain rfl : '\'' = d := (List.cons.inj hafter).1
        exact multiLiteralBody_replicate 2 (by omega) hrest
      · obtain ⟨rfl, hafter'⟩ := List.cons.inj hafter
        obtain rfl : '\'' = e := (List.cons.inj hafter').1
        have hthree : longestRow '\'' 3 content ≤ 2 := by simpa [longestRow] using hrow
        exact absurd ((row_le_longestRow '\'' 3 content).trans hthree) (by decide)
    · rw [List.cons_append, multiLiteralBody_cons hplain fun heq htwo => hmarks ⟨heq, htwo⟩,
        ih hcontent ((longestRow_tail_le '\'' c content).trans hrow)]
      rfl

/-! ## Strings of any kind -/

/-- One mark that no two others follow opens a string of one line. -/
theorem string_basic {text : List Char} (h : ¬ ['"', '"'] <+: text) :
    string ('"' :: text) = basicBody text := by
  rw [string]
  rintro after rfl
  exact h (List.prefix_append ['"', '"'] after)

theorem string_literal {text : List Char} (h : ¬ ['\'', '\''] <+: text) :
    string ('\'' :: text) = literalBody text := by
  rw [string]
  rintro after rfl
  exact h (List.prefix_append ['\'', '\''] after)

/-- A single opening mark is not the first of three, unless the content is empty and a mark follows.
-/
theorem not_prefix_basicContent (hrest : rest.head? ≠ some '"') :
    ¬ ['"', '"'] <+: basicContent content ++ '"' :: rest := by
  rintro ⟨after, hafter⟩
  cases content with
  | nil => exact hrest (congrArg List.head? (List.cons.inj hafter).2.symm)
  | cons c content =>
    have hhead := congrArg List.head? hafter.symm
    rw [basicContent] at hhead
    split_ifs at hhead with hmark
    · simp at hhead
    · simp at hhead
    · rw [List.append_assoc] at hhead
      exact head?_escaped_append hmark hhead

theorem not_prefix_literal (hcontent : ∀ c ∈ content, c ≠ '\'') (hrest : rest.head? ≠ some '\'') :
    ¬ ['\'', '\''] <+: content ++ '\'' :: rest := by
  rintro ⟨after, hafter⟩
  cases content with
  | nil => exact hrest (congrArg List.head? (List.cons.inj hafter).2.symm)
  | cons c content => exact hcontent c List.mem_cons_self (List.cons.inj hafter).1.symm

/-- What starts with neither a line feed nor a carriage return starts with no line end. -/
theorem afterOpening_eq_self {text : List Char} (hline : text.head? ≠ some '\n')
    (hreturn : text.head? ≠ some '\r') : afterOpening text = text := by
  unfold afterOpening afterNewline?
  split <;> simp_all

/-- The line feed after the opening marks shields those of the content. -/
theorem afterOpening_opening {text : List Char}
    (htext : '\n' ∉ content → text.head? ≠ some '\n' ∧ text.head? ≠ some '\r') :
    afterOpening (opening content ++ text) = text := by
  unfold opening
  split_ifs with hline
  · rfl
  · obtain ⟨hline, hreturn⟩ := htext (by simpa using hline)
    exact afterOpening_eq_self hline hreturn

/-- No line break follows the opening marks that is not written there on purpose. -/
theorem head?_multiBasicContent (hline : '\n' ∉ content) :
    (multiBasicContent row content ++ '"' :: rest).head? ≠ some '\n' ∧
      (multiBasicContent row content ++ '"' :: rest).head? ≠ some '\r' := by
  cases content with
  | nil => simp [multiBasicContent]
  | cons c content =>
    rw [multiBasicContent]
    split_ifs with hmark
    · simp
    · simp
    · have hspells := spells_escaped hmark (List.ne_of_not_mem_cons hline).symm
      generalize escaped c = code at hspells
      cases hspells with
      | plain _ _ hplain =>
        constructor
        · rintro ⟨⟩
          exact hline List.mem_cons_self
        · rintro ⟨⟩
          exact absurd hplain (by decide)
      | escape => simp

theorem head?_append_of_plain (hcontent : ∀ c ∈ content, isPlain c = true ∨ c = '\n')
    (hline : '\n' ∉ content) :
    (content ++ '\'' :: rest).head? ≠ some '\n' ∧ (content ++ '\'' :: rest).head? ≠ some '\r' := by
  cases content with
  | nil => simp
  | cons c content =>
    constructor
    · rintro ⟨⟩
      exact hline List.mem_cons_self
    · rintro ⟨⟩
      exact absurd (hcontent _ List.mem_cons_self) (by decide)

/-- Every content is read back from the style chosen for it. -/
theorem string_write (content : List Char) (hquote : rest.head? ≠ some '"')
    (hapostrophe : rest.head? ≠ some '\'') :
    string ((Style.of content).write content ++ rest) = some (content, rest) := by
  have hbasic : string (Style.basic.write content ++ rest) = some (content, rest) := by
    simp only [Style.write, List.append_assoc, List.cons_append, List.nil_append]
    rw [string_basic (not_prefix_basicContent hquote), basicBody_basicContent]
  have hmultiBasic : string (Style.multiBasic.write content ++ rest) = some (content, rest) := by
    simp only [Style.write, List.append_assoc, List.cons_append, List.nil_append]
    rw [string, afterOpening_opening head?_multiBasicContent,
      multiBasicBody_multiBasicContent 0 content hquote]
  have hliteral (hclean : ∀ c ∈ content, isControl c = false) (hline : '\n' ∉ content)
      (hmark : '\'' ∉ content) :
      string (Style.literal.write content ++ rest) = some (content, rest) := by
    simp only [Style.write, List.append_assoc, List.cons_append, List.nil_append]
    rw [string_literal (not_prefix_literal (fun c hc => ne_of_mem_of_not_mem hc hmark) hapostrophe)]
    exact literalBody_append fun c hc =>
      ⟨isPlain_of_isControl_eq_false (hclean c hc) (ne_of_mem_of_not_mem hc hline),
        ne_of_mem_of_not_mem hc hmark⟩
  have hmultiLiteral (hclean : ∀ c ∈ content, isControl c = false)
      (hrow : longestRow '\'' 0 content ≤ 2) :
      string (Style.multiLiteral.write content ++ rest) = some (content, rest) := by
    have hplain : ∀ c ∈ content, isPlain c = true ∨ c = '\n' := fun c hc =>
      or_iff_not_imp_right.mpr (isPlain_of_isControl_eq_false (hclean c hc))
    simp only [Style.write, List.append_assoc, List.cons_append, List.nil_append]
    rw [string, afterOpening_opening (head?_append_of_plain hplain),
      multiLiteralBody_append hplain hrow hapostrophe]
  unfold Style.of
  extract_lets spansLines clean
  have hclean (h : clean = true) : ∀ c ∈ content, isControl c = false := by simpa [clean] using h
  split_ifs with hb hl hmb hml hs
  · exact hbasic
  · simp only [Bool.and_eq_true, Bool.not_eq_true', spansLines, List.contains_eq_mem,
      decide_eq_false_iff_not] at hl
    exact hliteral (hclean hl.1.1) hl.1.2 hl.2
  · exact hmultiBasic
  · simp only [Bool.and_eq_true, decide_eq_true_eq] at hml
    exact hmultiLiteral (hclean hml.1) hml.2
  · exact hmultiBasic
  · exact hbasic

end Census.Toml
