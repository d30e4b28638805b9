import Census.Source.Span
import Census.Token.Kind

/-!
# Tokens
-/

namespace Census

/-- A token: its kind, its text as written, and where it stands. -/
structure Token where
  kind : TokenKind
  text : String
  span : Span := {}
deriving DecidableEq, Repr

/-- What a token is, wherever it stands. -/
def Token.content (token : Token) : TokenKind × String := (token.kind, token.text)

end Census
