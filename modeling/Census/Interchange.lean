import Census.Source.Span
import Census.ValueType

/-!
# Interchange forms

Types and spans as plain data, for programs that exchange them.

- `Datum`: plain data.
- `ValueType.toDatum`, `ValueType.ofDatum?`: a type is written as its name.
- `Span.toDatum`, `Span.ofDatum?`: a span is written as a record of two locations.
-/

namespace Census

/-- Plain data. Numbers that are no natural numbers are not told apart. -/
inductive Datum where
  | null
  | truth (value : Bool)
  | natural (value : Nat)
  | otherNumber
  | text (value : String)
  | list (items : List Datum)
  | record (fields : List (String × Datum))
deriving Repr, Inhabited

/-- The field of a record with the given name. -/
def Datum.field? (fields : List (String × Datum)) (name : String) : Option Datum :=
  (fields.find? fun field => field.1 == name).map Prod.snd

namespace ValueType

/-- The name under which a type is exchanged. -/
def exchangeName : ValueType → String
  | num => "Num"
  | bool => "Bool"
  | listNum => "ListNum"
  | listBool => "ListBool"

/-- The type exchanged under a name. -/
def ofExchangeName? (name : String) : Option ValueType :=
  [num, bool, listNum, listBool].find? fun type => type.exchangeName == name

/-- A type as plain data. -/
def toDatum (type : ValueType) : Datum := .text type.exchangeName

/-- The type that plain data stands for: its name, or a record that has the name as its only field
and nothing in it. -/
def ofDatum? : Datum → Option ValueType
  | .text name => ofExchangeName? name
  | .record [(name, .null)] => ofExchangeName? name
  | _ => none

/-- Reading takes back what writing gives. -/
theorem ofDatum?_toDatum (type : ValueType) : ofDatum? type.toDatum = some type := by
  cases type <;> rfl

end ValueType

/-- A count that fits into 64 bits. -/
def Datum.count? : Datum → Option Nat
  | natural value => if value < UInt64.size then some value else none
  | _ => none

namespace Location

/-- A location as plain data. -/
def toDatum (place : Location) : Datum :=
  .record [("line", .natural place.line), ("column", .natural place.column),
    ("offset", .natural place.offset)]

/-- The location that plain data stands for: a record with all three counts, or a list of exactly
them in that order. Other fields of a record do not matter. -/
def ofDatum? : Datum → Option Location
  | .record fields => do
    let line ← (← Datum.field? fields "line").count?
    let column ← (← Datum.field? fields "column").count?
    let offset ← (← Datum.field? fields "offset").count?
    return ⟨line, column, offset⟩
  | .list [line, column, offset] => do
    return ⟨← line.count?, ← column.count?, ← offset.count?⟩
  | _ => none

end Location

namespace Span

/-- A span as plain data. -/
def toDatum (span : Span) : Datum :=
  .record [("start", span.start.toDatum), ("end", span.stop.toDatum)]

/-- The span that plain data stands for: a record with both locations, or a list of exactly them.
Other fields of a record do not matter. -/
def ofDatum? : Datum → Option Span
  | .record fields => do
    let start ← Location.ofDatum? (← Datum.field? fields "start")
    let stop ← Location.ofDatum? (← Datum.field? fields "end")
    return ⟨start, stop⟩
  | .list [start, stop] => do
    return ⟨← Location.ofDatum? start, ← Location.ofDatum? stop⟩
  | _ => none

end Span

end Census
