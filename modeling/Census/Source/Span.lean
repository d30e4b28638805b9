import Census.Source.Location

/-!
# Stretches of a source text

A `Span` runs from one `Location` to another. Spans are compared, measured and merged by byte
offsets; lines and columns are carried along.

- `Span.merge`: the hull of two spans.
- `Span.resolve?`: the span between two byte offsets of a text, with lines and columns filled in.
-/

namespace Census

/-- A stretch of a source text, from `start` up to but not including `stop`. -/
structure Span where
  start : Location := {}
  stop : Location := {}
deriving DecidableEq, Repr, Inhabited

namespace Span

/-- The stretch between two byte offsets, lines and columns unknown. -/
def ofOffsets (start stop : Nat) : Span := ⟨.ofOffset start, .ofOffset stop⟩

/-- The empty stretch at one place. -/
def emptyAt (place : Location) : Span := ⟨place, place⟩

/-- Length in bytes. A stretch that ends before it starts has length zero. -/
def length (span : Span) : Nat := span.stop.offset - span.start.offset

/-- Whether the stretch covers no byte. -/
def isEmpty (span : Span) : Bool := span.length == 0

/-- The smallest stretch covering both: the earlier start and the later end. Of two places at the
same offset the one of the first span stays. -/
def merge (span other : Span) : Span where
  start := if span.start.offset ≤ other.start.offset then span.start else other.start
  stop := if span.stop.offset ≥ other.stop.offset then span.stop else other.stop

/-- The stretch between two byte offsets of `source`, with lines and columns. Offsets past the end
mean the end. There is no such stretch when one of the offsets falls inside a character. -/
def resolve? (source : String) (start stop : Nat) : Option Span := do
  let first ← Location.origin.seek? source.toList start
  let last ← Location.origin.seek? source.toList stop
  return ⟨first, last⟩

@[simp] theorem merge_self (span : Span) : span.merge span = span := by
  simp [merge]

end Span

end Census
