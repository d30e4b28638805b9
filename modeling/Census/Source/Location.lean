/-!
# Places in a source text

A `Location` says where a character of a text starts. The line counts line feeds, the column and
the offset count UTF-8 bytes.

- `Location.origin`: where every text starts.
- `Location.advance`: from one character to the next, the only rule by which places move.
- `Location.seek?`: the place at a byte offset of a text.
-/

namespace Census

/-- A place in a source text. Lines and columns count from one; columns and offsets count UTF-8
bytes. A place that was never looked up in a text has line and column zero. -/
structure Location where
  line : Nat := 0
  column : Nat := 0
  offset : Nat := 0
deriving DecidableEq, Repr, Inhabited

namespace Location

/-- The place where every text starts. -/
def origin : Location := ⟨1, 1, 0⟩

/-- A place of which only the byte offset is known. -/
def ofOffset (offset : Nat) : Location := ⟨0, 0, offset⟩

/-- A place of which only line and column are known. -/
def ofLineColumn (line column : Nat) : Location := ⟨line, column, 0⟩

/-- The place just after the character `c` that stands at `here`. Only a line feed ends a line. -/
def advance (here : Location) (c : Char) : Location :=
  if c = '\n' then ⟨here.line + 1, 1, here.offset + 1⟩
  else ⟨here.line, here.column + c.utf8Size, here.offset + c.utf8Size⟩

/-- The place just after `text` when its first character stands at `here`. -/
def advanceAll (here : Location) (text : List Char) : Location :=
  text.foldl advance here

/-- The place at byte `offset` of a text whose remaining characters start at `here`. An offset past
the end means the end; an offset inside a character is no place at all. -/
def seek? (here : Location) : List Char → Nat → Option Location
  | [], _ => some here
  | c :: rest, offset =>
    if offset = here.offset then some here
    else if here.offset + c.utf8Size ≤ offset then (here.advance c).seek? rest offset
    else none

@[simp] theorem advanceAll_nil (here : Location) : here.advanceAll [] = here := rfl

@[simp] theorem advanceAll_cons (here : Location) (c : Char) (text : List Char) :
    here.advanceAll (c :: text) = (here.advance c).advanceAll text := rfl

theorem advanceAll_append (here : Location) (front back : List Char) :
    here.advanceAll (front ++ back) = (here.advanceAll front).advanceAll back := by
  simp [advanceAll, List.foldl_append]

/-- Every character moves the offset on by its own length. -/
@[simp] theorem offset_advance (here : Location) (c : Char) :
    (here.advance c).offset = here.offset + c.utf8Size := by
  unfold advance
  split
  · next h => subst h; rfl
  · rfl

end Location

end Census
