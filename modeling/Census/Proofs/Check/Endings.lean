import Census.Proofs.Check.Runs
import Census.Proofs.Endings

/-!
# How checks end

A check ends with an answer or with a diagnostic.

- `Diagnostic.isOfLanguage`: the problems that programs can have.
- `Check.Proper`: a check that finds no other problems, and answers what it should.
-/

namespace Census

/-- Whether the language forbids something that the problem is about. A malformed tree is no
program at all. -/
def Diagnostic.isOfLanguage : Diagnostic → Bool
  | duplicateDeclaration _ _ _ => true
  | undefinedIdentifier _ _ => true
  | invalidArrayType _ _ => true
  | incompatibleArrayType _ _ _ => true
  | invalidConditionType _ _ => true
  | assignmentTypeMismatch _ _ _ _ => true
  | operandTypeMismatch _ _ _ => true
  | invalidComparisonOperand _ _ _ => true
  | invalidUnaryOperand _ _ _ => true
  | _ => false

namespace Check

variable {α β : Type} {s : Checker} {fails : Diagnostic → Checker → Prop}

/-- A look at the table changes nothing, and fails where the name is not in it. -/
theorem ends_lookupType_iff {name : String} {span : Span}
    {answers : ValueType → Checker → Prop} :
    Ends (lookupType name span) s answers fails ↔
      match s.symbols.lookup? name with
      | some symbol => answers symbol.type s
      | none => fails (.undefinedIdentifier name span) s := by
  rw [Ends, run_lookupType, SymbolTable.lookupType]
  cases s.symbols.lookup? name <;> rfl

/-- A declaration puts one entry at the end of the table and counts, or fails at the earlier one. -/
theorem ends_declare_iff {name : String} {type : ValueType} {span : Span}
    {answers : Unit → Checker → Prop} :
    Ends (declare name type span) s answers fails ↔
      match s.symbols.lookup? name with
      | some earlier => fails (.duplicateDeclaration name span earlier.span) s
      | none => answers () ⟨⟨s.symbols.entries ++ [⟨name, type, span⟩]⟩,
          { s.metrics with declarations := s.metrics.declarations + 1 }⟩ := by
  rw [Ends, run_declare]
  cases s.symbols.lookup? name <;> rfl

/-! ## Checks of programs -/

/-- The check answers something with the property, or finds a problem that programs can have. -/
def Proper (check : Check α) (answers : α → Prop) : Prop :=
  ∀ s, Ends check s (fun answer _ => answers answer)
    (fun diagnostic _ => diagnostic.isOfLanguage = true)

variable {answers : α → Prop}

/-- Checks in a row are proper if each is, for the answers the one before it can give. -/
theorem Proper.bind {check : Check α} {next : α → Check β} {answers' : β → Prop}
    (h : Proper check answers) (hnext : ∀ answer, answers answer → Proper (next answer) answers') :
    Proper (check >>= next) answers' := fun s =>
  ends_bind_iff.mpr <| (h s).imp (fun answer s' hanswer => hnext answer hanswer s')
    fun _ _ hfails => hfails

theorem Proper.imp {answers' : α → Prop} {check : Check α} (h : Proper check answers)
    (hanswers : ∀ answer, answers answer → answers' answer) : Proper check answers' := fun s =>
  (h s).imp (fun answer _ => hanswers answer) fun _ _ hfails => hfails

theorem proper_pure {answer : α} (h : answers answer) : Proper (pure answer) answers := fun _ => h

/-- Failures of the language are allowed. -/
theorem proper_throw {diagnostic : Diagnostic} (h : diagnostic.isOfLanguage = true) :
    Proper (throw diagnostic : Check α) answers := fun _ => h

/-- A demand or a ban in front of a check. -/
theorem proper_ite {p : Prop} [Decidable p] {check check' : Check α} (h : Proper check answers)
    (h' : Proper check' answers) : Proper (if p then check else check') answers := by
  split
  · exact h
  · exact h'

theorem proper_throw_bind {diagnostic : Diagnostic} {next : β → Check α}
    (h : diagnostic.isOfLanguage = true) : Proper (throw diagnostic >>= next) answers := fun _ => h

/-- A part that is there is found, so that what follows may rely on it. -/
theorem proper_child_bind {node : Node} {index : Nat} (part : Node) {next : Node → Check α}
    (h : node.child? index = some part) (hnext : Proper (next part) answers) :
    Proper (child node index >>= next) answers := by
  rwa [child, h]

/-- The name of an identifier is found. -/
theorem proper_nameOf {node : Node} {name : String} (h : node.identifier? = some name) :
    Proper (nameOf node) (· = name) := by
  rw [nameOf, h]
  exact proper_pure rfl

theorem proper_typeOf {produced : Option ValueType} {node : Node} (h : produced.isSome = true) :
    Proper (typeOf produced node) fun _ => True := by
  obtain ⟨type, rfl⟩ := Option.isSome_iff_exists.mp h
  exact proper_pure trivial

theorem proper_lookupType (name : String) (span : Span) :
    Proper (lookupType name span) fun _ => True := by
  intro s
  rw [ends_lookupType_iff]
  split
  · trivial
  · rfl

theorem proper_count (step : Metrics → Metrics) : Proper (count step) fun _ => True :=
  fun _ => trivial

theorem proper_declare (name : String) (type : ValueType) (span : Span) :
    Proper (declare name type span) fun _ => True := by
  intro s
  rw [ends_declare_iff]
  split
  · rfl
  · trivial

end Check

end Census
