import Census.Diagnostic

/-!
# Symbol tables

All names of a program live in one space. A name is declared once and stays declared, whatever
block it was declared in. The table keeps its entries in the order of declaration.
-/

namespace Census

/-- A declared variable. -/
structure Symbol where
  name : String
  type : ValueType
  /-- Where the variable was declared. -/
  span : Span
deriving DecidableEq, Repr

/-- The variables declared so far, the first one first. -/
structure SymbolTable where
  entries : List Symbol := []
deriving DecidableEq, Repr

namespace SymbolTable

/-- The variable of the given name, if it is declared. -/
def lookup? (table : SymbolTable) (name : String) : Option Symbol :=
  table.entries.find? fun symbol => symbol.name == name

/-- Whether the name is declared. -/
def contains (table : SymbolTable) (name : String) : Bool := (table.lookup? name).isSome

/-- The type of the variable that is used at `span`. -/
def lookupType (table : SymbolTable) (name : String) (span : Span) : Except Diagnostic ValueType :=
  match table.lookup? name with
  | some symbol => .ok symbol.type
  | none => .error (.undefinedIdentifier name span)

/-- Declares a variable. A name that is taken stays as it is, whatever the types. -/
def declare (table : SymbolTable) (name : String) (type : ValueType) (span : Span) :
    Except Diagnostic SymbolTable :=
  match table.lookup? name with
  | some earlier => .error (.duplicateDeclaration name span earlier.span)
  | none => .ok ⟨table.entries ++ [⟨name, type, span⟩]⟩

/-- A variable found under a name carries that name. -/
theorem name_of_lookup? {table : SymbolTable} {name : String} {symbol : Symbol}
    (h : table.lookup? name = some symbol) : symbol.name = name := by
  have := List.find?_some h
  simpa using this

end SymbolTable

end Census
