import Census.Proofs.Toml.Quoted
import Census.Toml.Document

/-!
# Lines are read back

The lines of which plain documents consist, as they are written and as they are read: the header of
a table, a key with a text, and nothing.

- `Reader.bind_of_some` and so on: how readers go on with what is left.
- `key_word`: keys without quotes.
- `line_section`, `line_text`, `line_empty`: the three lines.
- `lines_append`: documents are read line by line.
-/

namespace Census.Toml

namespace Reader

variable {α β : Type} {reader : Reader α} {next : α → Reader β} {value : α} {text rest : List Char}
  {c : Char}

/-- The second reader goes on with what the first one leaves. -/
theorem bind_of_some (h : reader text = some (value, rest)) :
    (reader >>= next) text = next value rest := by
  change (reader text).bind _ = _
  rw [h]
  rfl

theorem bind_of_none (h : reader text = none) : (reader >>= next) text = none := by
  change (reader text).bind _ = _
  rw [h]
  rfl

theorem orElse_of_some {other : Reader α} (h : reader text = some (value, rest)) :
    (reader <|> other) text = some (value, rest) := by
  change (reader text <|> other text) = _
  rw [h]
  rfl

/-- The second reader starts where the first one did. -/
theorem orElse_of_none {other : Reader α} (h : reader text = none) :
    (reader <|> other) text = other text := by
  change (reader text <|> other text) = _
  rw [h]
  rfl

theorem maybe_of_some (h : reader text = some (value, rest)) :
    maybe reader text = some (some value, rest) := by
  rw [maybe, h]

/-- What is not there is left out, and nothing is read. -/
theorem maybe_of_none (h : reader text = none) : maybe reader text = some (none, text) := by
  rw [maybe, h]

@[simp] theorem char_cons_self : char c (c :: rest) = some ((), rest) := by
  have hone : one (· == c) (c :: rest) = some (c, rest) := if_pos (beq_self_eq_true c)
  rw [char, bind_of_some hone]
  rfl

/-- Only the character itself is read. -/
theorem char_of_ne (h : text.head? ≠ some c) : char c text = none := by
  unfold char
  refine bind_of_none ?_
  cases text <;> simp_all [one]

/-- A row of one. -/
theorem separated_of_none {separator : Reader Unit} (hfirst : reader text = some (value, rest))
    (hseparator : separator rest = none) :
    separated separator reader text = some ([value], rest) := by
  have hmany : many (do separator; reader) rest = some (([] : List α), rest) := by
    rw [many, repeated, bind_of_none hseparator]
  rw [separated, bind_of_some hfirst, bind_of_some hmany]
  rfl

end Reader

open Reader

variable {name gap rest : List Char} {stop : Char}

/-! ## Keys -/

/-- All blanks are read, up to the first character that is none. -/
theorem blank_append (gap : List Char) (hgap : gap.all isBlank = true)
    (hrest : rest.head?.any isBlank = false) : blank (gap ++ rest) = some ((), rest) := by
  have hskip : (gap ++ rest).dropWhile isBlank = rest := by
    rw [List.dropWhile_append_of_pos (List.all_eq_true.mp hgap)]
    cases rest with
    | nil => rfl
    | cons c rest => exact List.dropWhile_cons_of_neg (by simpa using hrest)
  rw [blank, skipWhile, hskip]

theorem blank_of_head (hrest : rest.head?.any isBlank = false) : blank rest = some ((), rest) :=
  blank_append [] (by simp) hrest

/-- Keys have no blanks in them, so a key ends where a blank follows. -/
theorem isBlank_eq_false_of_isKeyChar {c : Char} (h : isKeyChar c = true) : isBlank c = false := by
  rw [isBlank, Bool.or_eq_false_iff, beq_eq_false_iff_ne, beq_eq_false_iff_ne]
  constructor <;> rintro rfl <;> exact absurd h (by decide)

/-- Reads a key without quotes and the blanks after it. -/
theorem key_word (gap : List Char) (hname : name ≠ []) (hchars : name.all isKeyChar = true)
    (hgap : gap.all isBlank = true) (hblank : isBlank stop = false)
    (hkey : isKeyChar stop = false) (hdot : stop ≠ '.') :
    key (name ++ (gap ++ stop :: rest)) = some (⟨[], String.ofList name⟩, stop :: rest) := by
  obtain ⟨c, others, rfl⟩ := List.exists_cons_of_ne_nil hname
  have hc := List.all_eq_true.mp hchars c List.mem_cons_self
  have htake : (c :: others ++ (gap ++ stop :: rest)).takeWhile isKeyChar = c :: others := by
    rw [List.takeWhile_append_of_pos (List.all_eq_true.mp hchars)]
    have hend : (gap ++ stop :: rest).takeWhile isKeyChar = [] := by
      cases gap with
      | nil => simp [hkey]
      | cons d gap =>
        have hd := List.all_eq_true.mp hgap d List.mem_cons_self
        have : isKeyChar d = false := Bool.eq_false_iff.mpr fun h => by
          simp [isBlank_eq_false_of_isKeyChar h] at hd
        simp [this]
    rw [hend, List.append_nil]
  have hsimple : simpleKey (c :: others ++ (gap ++ stop :: rest))
      = some (String.ofList (c :: others), gap ++ stop :: rest) := by
    unfold simpleKey
    split
    · next heq =>
      obtain ⟨rfl, -⟩ := List.cons.inj heq
      exact absurd hc (by decide)
    · next heq =>
      obtain ⟨rfl, -⟩ := List.cons.inj heq
      exact absurd hc (by decide)
    · simp only [htake, List.isEmpty_cons, List.drop_left]
      rfl
  have hfirst : (c :: others ++ (gap ++ stop :: rest)).head?.any isBlank = false :=
    isBlank_eq_false_of_isKeyChar hc
  have hlast : (stop :: rest).head?.any isBlank = false := hblank
  have hpart : (do blank; let part ← simpleKey; blank; return part : Reader String)
      (c :: others ++ (gap ++ stop :: rest))
        = some (String.ofList (c :: others), stop :: rest) := by
    rw [bind_of_some (blank_of_head hfirst),
      bind_of_some hsimple, bind_of_some (blank_append gap hgap hlast)]
    rfl
  rw [key, bind_of_some (separated_of_none hpart (char_of_ne (by simpa using hdot)))]
  rfl

/-! ## Lines -/

theorem lineEnd_lineFeed : lineEnd ('\n' :: rest) = some ((), rest) := by
  have hcomment : comment ('\n' :: rest) = none := bind_of_none (char_of_ne (by simp))
  rw [lineEnd, bind_of_some (blank_of_head rfl), bind_of_some (maybe_of_none hcomment)]
  rfl

/-- A line is what stands between its indentation and its end. -/
theorem line_of_lineContent {text : List Char} {content : Line}
    (hblank : text.head?.any isBlank = false)
    (hcontent : lineContent text = some (content, '\n' :: rest)) :
    line text = some (content, rest) := by
  rw [line, bind_of_some (blank_of_head hblank), bind_of_some (maybe_of_some hcontent),
    bind_of_some lineEnd_lineFeed]
  rfl

/-- A line without anything says nothing. -/
theorem line_empty : line ('\n' :: rest) = some (.nothing, rest) := by
  have hkey : key ('\n' :: rest) = none := by
    rw [key, separated]
    exact bind_of_none (bind_of_none ((bind_of_some (blank_of_head rfl)).trans (bind_of_none rfl)))
  have hcontent : lineContent ('\n' :: rest) = none := by
    rw [lineContent, orElse_of_none (bind_of_none rfl), orElse_of_none (bind_of_none rfl)]
    exact bind_of_none (bind_of_none hkey)
  rw [line, bind_of_some (blank_of_head rfl), bind_of_some (maybe_of_none hcontent),
    bind_of_some lineEnd_lineFeed]
  rfl

/-- The header of a table. -/
theorem line_section (hname : name ≠ []) (hchars : name.all isKeyChar = true) :
    line ('[' :: (name ++ ']' :: '\n' :: rest))
      = some (.section ⟨[], String.ofList name⟩, rest) := by
  refine line_of_lineContent rfl ?_
  -- a second bracket would open an element of an array
  have hbrackets : word "[[" ('[' :: (name ++ ']' :: '\n' :: rest)) = none := by
    obtain ⟨c, others, rfl⟩ := List.exists_cons_of_ne_nil hname
    have hc : '[' ≠ c := by
      rintro rfl
      exact absurd (List.all_eq_true.mp hchars _ List.mem_cons_self) (by decide)
    simp [word, hc]
  rw [lineContent, orElse_of_none (bind_of_none hbrackets), orElse_of_some]
  have hkey : key (name ++ ']' :: '\n' :: rest)
      = some (⟨[], String.ofList name⟩, ']' :: '\n' :: rest) :=
    key_word [] hname hchars (by simp) rfl rfl (by decide)
  rw [bind_of_some char_cons_self, bind_of_some hkey, bind_of_some char_cons_self]
  rfl

/-- A value that reads as a string is text. -/
theorem value_string {text content : List Char} {levels : Nat}
    (h : string text = some (content, rest)) :
    value levels text = some (.text (String.ofList content), rest) := by
  have hplain : plainValue text = some (.text (String.ofList content), rest) := by
    rw [plainValue, orElse_of_some]
    rw [bind_of_some h]
    rfl
  cases levels with
  | zero => exact hplain
  | succ levels => rw [value, orElse_of_some hplain]

/-- A key with a text. -/
theorem line_text (content : List Char) (hname : name ≠ []) (hchars : name.all isKeyChar = true) :
    line (name ++ ([' '] ++ '=' :: ' ' :: ((Style.of content).write content ++ '\n' :: rest)))
      = some (.pair ⟨[], String.ofList name⟩ (.text (String.ofList content)), rest) := by
  generalize htext : (Style.of content).write content ++ '\n' :: rest = text
  have hstart : text.head?.any isBlank = false := by
    rw [← htext]
    cases Style.of content <;> rfl
  have hstring : string text = some (content, '\n' :: rest) :=
    htext ▸ string_write content (by simp) (by simp)
  have hkey : key (name ++ ([' '] ++ '=' :: ' ' :: text))
      = some (⟨[], String.ofList name⟩, '=' :: ' ' :: text) :=
    key_word [' '] hname hchars (by decide) rfl rfl (by decide)
  have hblank : blank (' ' :: text) = some ((), text) := blank_append [' '] (by decide) hstart
  have hpair : pair (value (nestingLimit - 1)) (name ++ ([' '] ++ '=' :: ' ' :: text))
      = some ((⟨[], String.ofList name⟩, .text (String.ofList content)), '\n' :: rest) := by
    rw [pair, bind_of_some hkey, bind_of_some char_cons_self, bind_of_some hblank,
      bind_of_some (value_string hstring)]
    rfl
  obtain ⟨c, others, rfl⟩ := List.exists_cons_of_ne_nil hname
  have hc := List.all_eq_true.mp hchars c List.mem_cons_self
  have hbracket : c ≠ '[' := by
    rintro rfl
    exact absurd hc (by decide)
  have helement : word "[[" (c :: others ++ ([' '] ++ '=' :: ' ' :: text)) = none := by
    simp [word, hbracket.symm]
  have hsection : char '[' (c :: others ++ ([' '] ++ '=' :: ' ' :: text)) = none :=
    char_of_ne (by simpa using hbracket)
  refine line_of_lineContent (isBlank_eq_false_of_isKeyChar hc) ?_
  rw [lineContent, orElse_of_none (bind_of_none helement), orElse_of_none (bind_of_none hsection),
    bind_of_some hpair]
  rfl

/-! ## Rows of lines -/

/-- Each line takes a character or more, so lines come to an end. -/
theorem lines_of_line {text : List Char} {first : Line} {others : List Line}
    (hfirst : line text = some (first, rest)) (hrest : rest.length < text.length)
    (hothers : lines rest = some others) : lines text = some (first :: others) := by
  have hnonempty : text.isEmpty = false := by
    cases text <;> simp_all
  rw [lines]
  simp [hnonempty, hfirst, hrest, hothers]

variable {others : List Line}

theorem lines_empty (hothers : lines rest = some others) :
    lines ('\n' :: rest) = some (.nothing :: others) :=
  lines_of_line line_empty (Nat.lt_succ_self _) hothers

/-- A header with a bare key is read back, with the lines behind it. -/
theorem lines_section (name : List Char) (hname : name ≠ []) (hchars : name.all isKeyChar = true)
    (hothers : lines rest = some others) :
    lines ('[' :: (name ++ ']' :: '\n' :: rest))
      = some (.section ⟨[], String.ofList name⟩ :: others) := by
  refine lines_of_line (line_section hname hchars) ?_ hothers
  simp only [List.length_cons, List.length_append]
  omega

/-- A key with a text is read back whatever the text is, since its style was chosen for it. -/
theorem lines_text (name content : List Char) (hname : name ≠ [])
    (hchars : name.all isKeyChar = true) (hothers : lines rest = some others) :
    lines (name ++ ([' '] ++ '=' :: ' ' :: ((Style.of content).write content ++ '\n' :: rest)))
      = some (.pair ⟨[], String.ofList name⟩ (.text (String.ofList content)) :: others) := by
  refine lines_of_line (line_text content hname hchars) ?_ hothers
  simp only [List.length_cons, List.length_append]
  omega

end Census.Toml
