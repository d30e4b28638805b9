import Census.Diagnostic
import Census.Token.Basic

/-!
# From text to tokens

At every place of a text the longest lexeme is taken: a stretch of blanks, a comment, a word, a
number, or a symbol. Blanks and comments are skipped, the others become tokens.

- `Lexeme.first?`: the lexeme at the front of a text.
- `tokenize`: all tokens of a text, or the first character at which no lexeme starts.
-/

namespace Census

/-- The extent of a lexeme at the front of a text. -/
structure Lexeme where
  /-- The kind of token it makes, none if it is skipped. -/
  kind : Option TokenKind
  /-- How many characters it has after its first one. -/
  extra : Nat
deriving DecidableEq, Repr

namespace Lexeme

/-- Space, tab, carriage return, line feed and form feed separate tokens. -/
def isBlank (c : Char) : Bool :=
  c == ' ' || c == '\t' || c == '\r' || c == '\n' || c == '\x0c'

/-- Words start with an ASCII letter or an underscore. -/
def startsWord (c : Char) : Bool := c.isAlpha || c == '_'

/-- Words go on with ASCII letters, digits and underscores. -/
def continuesWord (c : Char) : Bool := c.isAlphanum || c == '_'

/-- The kind of a whole word: a keyword if one is spelled so, otherwise an identifier. -/
def wordKind (word : List Char) : TokenKind :=
  (TokenKind.keywords.find? fun kind => kind.spelling.toList == word).getD .identifier

/-- The longest symbol at the front of a text. -/
def symbol? (text : List Char) : Option TokenKind :=
  TokenKind.symbols.find? fun kind => kind.spelling.toList.isPrefixOf text

/-- The longest lexeme at the front of the text `c :: rest`. A comment runs from two slashes to
before the line feed. -/
def first? (c : Char) (rest : List Char) : Option Lexeme :=
  if isBlank c then
    some ⟨none, (rest.takeWhile isBlank).length⟩
  else if c == '/' && rest.head? == some '/' then
    some ⟨none, (rest.takeWhile (· != '\n')).length⟩
  else if startsWord c then
    let word := rest.takeWhile continuesWord
    some ⟨some (wordKind (c :: word)), word.length⟩
  else if c.isDigit then
    some ⟨some .integer, (rest.takeWhile Char.isDigit).length⟩
  else
    (symbol? (c :: rest)).map fun kind => ⟨some kind, kind.spelling.length - 1⟩

end Lexeme

/-- A character at which no lexeme starts. -/
structure InvalidToken where
  character : Char
  span : Span
deriving DecidableEq, Repr

/-- How a stray character is reported. -/
def InvalidToken.diagnostic (stray : InvalidToken) : Diagnostic :=
  .lexical s!"Invalid token '{stray.character}' at line {stray.span.start.line}" stray.span

/-- The tokens of a text that starts at `here`. -/
def tokensFrom (here : Location) : List Char → Except InvalidToken (List Token)
  | [] => .ok []
  | c :: rest =>
    match Lexeme.first? c rest with
    | none => .error ⟨c, here, here.advance c⟩
    | some lexeme =>
      let taken := c :: rest.take lexeme.extra
      let next := here.advanceAll taken
      match lexeme.kind with
      | none => tokensFrom next (rest.drop lexeme.extra)
      | some kind => do
        let others ← tokensFrom next (rest.drop lexeme.extra)
        return ⟨kind, String.ofList taken, here, next⟩ :: others
termination_by text => text.length
decreasing_by all_goals simp only [List.length_drop, List.length_cons]; omega

/-- The tokens of a source text. -/
def tokenize (source : String) : Except Diagnostic (List Token) :=
  (tokensFrom .origin source.toList).mapError InvalidToken.diagnostic

end Census
