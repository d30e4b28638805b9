import Census.Token.Lexer

/-!
# Spellings

- `TokenKind.Spells`: the texts that make a token of a kind.
- `TokenKind.ofSpelling`: the kind that has a given fixed spelling.
- `Token.Spelled`: what tokens of a text are like.
-/

namespace Census

namespace TokenKind

/-- The kinds with a fixed spelling. -/
def fixed : List TokenKind := keywords ++ symbols

/-- The text is a way to write a token of the kind: a word that is no keyword, a row of digits,
or the one spelling the kind has. -/
def Spells (kind : TokenKind) (text : String) : Prop :=
  match kind with
  | identifier => ∃ first others, text.toList = first :: others ∧ Lexeme.startsWord first = true ∧
      (∀ c ∈ others, Lexeme.continuesWord c = true) ∧ Lexeme.wordKind text.toList = .identifier
  | integer => text.toList ≠ [] ∧ ∀ c ∈ text.toList, c.isDigit = true
  | kind => text = kind.spelling

/-- The kind that is always spelled like the text, if there is one. -/
def ofSpelling (text : String) : TokenKind :=
  (fixed.find? fun kind => kind.spelling == text).getD .identifier

theorem spells_iff {kind : TokenKind} (h : kind ∈ fixed) {text : String} :
    kind.Spells text ↔ text = kind.spelling := by
  cases kind <;> first | exact Iff.rfl | exact absurd h (by decide)

/-- No two kinds share a spelling. -/
theorem ofSpelling_spelling : ∀ kind ∈ fixed, ofSpelling kind.spelling = kind := by
  decide

theorem ofSpelling_eq {kind : TokenKind} (h : kind ∈ fixed) {text : String}
    (htext : kind.Spells text) : ofSpelling text = kind := by
  rw [(spells_iff h).mp htext, ofSpelling_spelling kind h]

end TokenKind

/-- The text of the token is a spelling of its kind. -/
def Token.Spelled (token : Token) : Prop := token.kind.Spells token.text

/-- The token of a kind with a fixed spelling, at no place in particular. -/
def TokenKind.token (kind : TokenKind) : Token := ⟨kind, kind.spelling, {}⟩

theorem TokenKind.spelled_token {kinds : List TokenKind}
    (h : ∀ kind ∈ kinds, kind ∈ TokenKind.fixed) :
    ∀ token ∈ kinds.map TokenKind.token, token.Spelled := by
  intro token htoken
  obtain ⟨kind, hkind, rfl⟩ := List.mem_map.mp htoken
  exact (spells_iff (h kind hkind)).mpr rfl

end Census
