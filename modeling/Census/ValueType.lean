/-!
# Value types

The language has four types and no conversions between them: two types fit exactly when they are
equal. Lists hold scalars; there are no lists of lists.
-/

namespace Census

/-- The type of a variable or of an expression. -/
inductive ValueType where
  | num
  | bool
  | listNum
  | listBool
deriving DecidableEq, Repr, Inhabited

namespace ValueType

/-- The type a scalar declaration keyword names. Every keyword but `num` names `bool`. -/
def ofScalarKeyword (keyword : String) : ValueType :=
  if keyword = "num" then .num else .bool

/-- The type a list declaration keyword names. Every keyword but `listnum` names `listbool`. -/
def ofListKeyword (keyword : String) : ValueType :=
  if keyword = "listnum" then .listNum else .listBool

/-- The list type whose elements have the given type, if there is one. -/
def listOf? : ValueType → Option ValueType
  | .num => some .listNum
  | .bool => some .listBool
  | .listNum => none
  | .listBool => none

/-- Whether values of the type are lists. -/
def isList : ValueType → Bool
  | .listNum => true
  | .listBool => true
  | _ => false

/-- How a program spells the type. -/
def keyword : ValueType → String
  | .num => "num"
  | .bool => "bool"
  | .listNum => "listnum"
  | .listBool => "listbool"

/-- A type is a list type exactly when some type has it as its list type. -/
theorem isList_iff_exists_listOf? (type : ValueType) :
    type.isList = true ↔ ∃ element : ValueType, element.listOf? = some type := by
  constructor
  · intro h
    cases type with
    | num => simp [isList] at h
    | bool => simp [isList] at h
    | listNum => exact ⟨.num, rfl⟩
    | listBool => exact ⟨.bool, rfl⟩
  · rintro ⟨element, h⟩
    cases element <;> simp [listOf?] at h <;> subst h <;> rfl

end ValueType

end Census
