import Mathlib.Data.List.InsertIdx
import Mathlib.Logic.Equiv.Basic
import Census.Proofs.Check.Depth
import Census.Proofs.Tree.Nodes

/-!
# Programs with other names and at other places

A check asks of two names whether they are the same, and it hands the places of nodes on; it looks
at nothing else in either. So it takes a program with other names, or at other places, for the same
program: the verdict and the counts are the same, and the table and the diagnostic have the other
names and places.

- `Relabeling`: other names, different ones for different names, and other places.
- `Check.Mirrors`: a check that does in a relabeled state what another check does. There is a lemma
  for each step and each rule.
- `Checker.check_relabel`: checks of relabeled programs.
- `Checker.check_bare`: trees that are equal up to spans.
- `check_rename`: only the spelling of names is changed.
-/

namespace Census

/-- Other names and other places. Names that differ still do. -/
structure Relabeling where
  name : String → String
  place : Span → Span
  injective : Function.Injective name

variable (labels : Relabeling)

/-! ## Relabeled things -/

/-- The kind of a node with another name. Only identifiers have one. -/
def NodeKind.relabel : NodeKind → NodeKind
  | identifier name => identifier (labels.name name)
  | kind => kind

namespace Node

mutual

/-- The tree with other names and places. -/
def relabel : Node → Node
  | ⟨kind, children, span⟩ => ⟨kind.relabel labels, relabelAll children, labels.place span⟩

/-- A row of trees with other names and places. -/
def relabelAll : List Node → List Node
  | [] => []
  | node :: others => node.relabel :: relabelAll others

end

theorem relabelAll_eq_map (trees : List Node) :
    relabelAll labels trees = trees.map (relabel labels) := by
  induction trees with
  | nil => rfl
  | cons tree others ih => rw [relabelAll, ih, List.map_cons]

/-- Kind, parts and span are relabeled each on its own. -/
theorem relabel_mk (kind : NodeKind) (children : List Node) (span : Span) :
    relabel labels ⟨kind, children, span⟩
      = ⟨kind.relabel labels, children.map (relabel labels), labels.place span⟩ := by
  rw [relabel, relabelAll_eq_map]

end Node

/-- The malformation of a relabeled tree. -/
def Malformation.relabel : Malformation → Malformation
  | rootNotProgram found => rootNotProgram (found.relabel labels)
  | missingChild kind index => missingChild (kind.relabel labels) index
  | notIdentifier found => notIdentifier (found.relabel labels)
  | noValue kind => noValue (kind.relabel labels)
  | noOperands kind => noOperands (kind.relabel labels)
  | comparisonArity operands hasOperator => comparisonArity operands hasOperator
  | tooDeep => tooDeep

/-- A variable of another name, declared at another place. -/
def Symbol.relabel (symbol : Symbol) : Symbol :=
  ⟨labels.name symbol.name, symbol.type, labels.place symbol.span⟩

/-- The table with other names and places. -/
def SymbolTable.relabel (table : SymbolTable) : SymbolTable :=
  ⟨table.entries.map (Symbol.relabel labels)⟩

/-- The state with other names and places in its table. -/
def Checker.relabel (s : Checker) : Checker := { s with symbols := s.symbols.relabel labels }

/-- The problem of other names at other places. -/
def Diagnostic.relabel : Diagnostic → Diagnostic
  | transfer text => transfer text
  | lexical text span => lexical text (labels.place span)
  | grammatical text span => grammatical text (labels.place span)
  | malformedTree text span => malformedTree text (labels.place span)
  | duplicateDeclaration name span previous =>
    duplicateDeclaration (labels.name name) (labels.place span) (labels.place previous)
  | undefinedIdentifier name span => undefinedIdentifier (labels.name name) (labels.place span)
  | invalidArrayType found span => invalidArrayType found (labels.place span)
  | incompatibleArrayType array element span =>
    incompatibleArrayType array element (labels.place span)
  | invalidConditionType found span => invalidConditionType found (labels.place span)
  | assignmentTypeMismatch name expected found span =>
    assignmentTypeMismatch (labels.name name) expected found (labels.place span)
  | operandTypeMismatch expected found span =>
    operandTypeMismatch expected found (labels.place span)
  | invalidComparisonOperand operator found span =>
    invalidComparisonOperand operator found (labels.place span)
  | invalidUnaryOperand operator found span =>
    invalidUnaryOperand operator found (labels.place span)

variable {labels}

namespace NodeKind

/-- Kinds are told by their own names, not by those of identifiers. -/
@[simp] theorem name_relabel (kind : NodeKind) : (kind.relabel labels).name = kind.name := by
  cases kind <;> rfl

@[simp] theorem isDeclaration_relabel (kind : NodeKind) :
    (kind.relabel labels).isDeclaration = kind.isDeclaration := by
  cases kind <;> rfl

@[simp] theorem relabel_eq_program_iff {kind : NodeKind} :
    kind.relabel labels = .program ↔ kind = .program := by
  cases kind <;> simp [relabel]

@[simp] theorem relabel_eq_value_iff {kind : NodeKind} :
    kind.relabel labels = .value ↔ kind = .value := by
  cases kind <;> simp [relabel]

end NodeKind

namespace Node

@[simp] theorem kind_relabel (node : Node) :
    (node.relabel labels).kind = node.kind.relabel labels := by
  obtain ⟨kind, children, span⟩ := node
  rw [relabel_mk]

@[simp] theorem children_relabel (node : Node) :
    (node.relabel labels).children = node.children.map (relabel labels) := by
  obtain ⟨kind, children, span⟩ := node
  rw [relabel_mk]

@[simp] theorem span_relabel (node : Node) :
    (node.relabel labels).span = labels.place node.span := by
  obtain ⟨kind, children, span⟩ := node
  rw [relabel_mk]

@[simp] theorem child?_relabel (node : Node) (index : Nat) :
    (node.relabel labels).child? index = (node.child? index).map (relabel labels) := by
  simp [child?]

/-- An identifier has the other name, and no other node has one. -/
@[simp] theorem identifier?_relabel (node : Node) :
    (node.relabel labels).identifier? = node.identifier?.map labels.name := by
  rw [identifier?, identifier?, kind_relabel]
  cases node.kind <;> rfl

end Node

/-- No malformation is told with a name. -/
theorem Malformation.message_relabel (what : Malformation) :
    (what.relabel labels).message = what.message := by
  cases what with
  | rootNotProgram found =>
    exact congrArg (fun name => s!"expected Program at the root, found {name}") found.name_relabel
  | missingChild kind index =>
    exact congrArg (fun name => s!"{name} is missing child {index}") kind.name_relabel
  | notIdentifier found =>
    exact congrArg (fun name => s!"expected Identifier, found {name}") found.name_relabel
  | noValue kind =>
    exact congrArg (fun name => s!"{name} does not produce a value") kind.name_relabel
  | noOperands kind => exact congrArg (fun name => s!"{name} without operands") kind.name_relabel
  | comparisonArity operands hasOperator => rfl
  | tooDeep => rfl

/-- As different names stay different, a look-up finds the same entry. -/
@[simp] theorem SymbolTable.lookup?_relabel (table : SymbolTable) (name : String) :
    (table.relabel labels).lookup? (labels.name name)
      = (table.lookup? name).map (Symbol.relabel labels) := by
  have hsame : (fun symbol : Symbol => symbol.name == labels.name name) ∘ Symbol.relabel labels
      = fun symbol => symbol.name == name := by
    funext symbol
    simp [Symbol.relabel, labels.injective.eq_iff]
  rw [lookup?, lookup?, relabel, List.find?_map, hsame]

/-! ## Checks in relabeled states -/

namespace Check

variable {α β α' β' : Type}

/-- In relabeled states, the second check ends as the first one does, with other names and
places. -/
def Mirrors (labels : Relabeling) (image : α → α') (check : Check α) (check' : Check α') : Prop :=
  ∀ s, check'.run.run (s.relabel labels)
    = let outcome := check.run.run s
      ((outcome.1.map image).mapError (Diagnostic.relabel labels), outcome.2.relabel labels)

/-- An answer is mirrored by its image. -/
theorem mirrors_pure (image : α → α') (answer : α) :
    Mirrors labels image (pure answer) (pure (image answer)) :=
  fun _ => rfl

/-- A failure is mirrored by that of other names at other places. -/
theorem mirrors_throw (image : α → α') (diagnostic : Diagnostic) :
    Mirrors labels image (throw diagnostic) (throw (diagnostic.relabel labels)) :=
  fun _ => rfl

/-- The second of two checks in a row starts in the relabeled state that the first one leaves. -/
theorem Mirrors.bind {check : Check α} {check' : Check α'} {next : α → Check β}
    {next' : α' → Check β'} {image : α → α'} {image' : β → β'}
    (h : Mirrors labels image check check')
    (hnext : ∀ answer, Mirrors labels image' (next answer) (next' (image answer))) :
    Mirrors labels image' (check >>= next) (check' >>= next') := by
  intro s
  rw [run_bind, run_bind, h s]
  rcases check.run.run s with ⟨problem | answer, between⟩
  · rfl
  · exact hnext answer between

/-- Nothing comes behind a failure. -/
theorem mirrors_throw_bind {image : β → β'} (diagnostic : Diagnostic) (next : α → Check β)
    (next' : α' → Check β') :
    Mirrors labels image (throw diagnostic >>= next)
      (throw (diagnostic.relabel labels) >>= next') :=
  fun _ => rfl

/-- A decision that does not look at names or places comes out the same. -/
theorem mirrors_ite {p : Prop} [Decidable p] {image : α → α'} {first second : Check α}
    {first' second' : Check α'} (h : Mirrors labels image first first')
    (h' : Mirrors labels image second second') :
    Mirrors labels image (if p then first else second) (if p then first' else second') := by
  by_cases hp : p
  · rwa [if_pos hp, if_pos hp]
  · rwa [if_neg hp, if_neg hp]

/-- A malformation is told in the same words at another place. -/
theorem mirrors_malformed (image : α → α') (what : Malformation) (span : Span) :
    Mirrors labels image (malformed what span)
      (malformed (what.relabel labels) (labels.place span)) := by
  rw [malformed, malformed, Malformation.message_relabel]
  exact mirrors_throw image _

/-- A part is missing in both trees or in none. -/
theorem mirrors_child (node : Node) (index : Nat) :
    Mirrors labels (Node.relabel labels) (child node index)
      (child (node.relabel labels) index) := by
  unfold child
  rw [Node.child?_relabel]
  cases node.child? index with
  | none =>
    rw [Node.kind_relabel, Node.span_relabel]
    exact mirrors_malformed _ (.missingChild node.kind index) _
  | some part => exact mirrors_pure _ _

/-- What has no name is told by its kind, which stays that of no identifier. -/
theorem mirrors_nameOf (node : Node) :
    Mirrors labels labels.name (nameOf node) (nameOf (node.relabel labels)) := by
  unfold nameOf
  rw [Node.identifier?_relabel]
  cases node.identifier? with
  | none =>
    rw [Node.kind_relabel, Node.span_relabel]
    exact mirrors_malformed _ (.notIdentifier node.kind) _
  | some name => exact mirrors_pure _ _

theorem mirrors_typeOf (produced : Option ValueType) (node : Node) :
    Mirrors labels id (typeOf produced node) (typeOf produced (node.relabel labels)) := by
  cases produced with
  | none =>
    rw [typeOf, typeOf, Node.kind_relabel, Node.span_relabel]
    exact mirrors_malformed _ (.noValue node.kind) _
  | some type => exact mirrors_pure _ _

/-- A name is found exactly where the other one is found in the relabeled table, since different
names stay different. -/
theorem mirrors_lookupType (name : String) (span : Span) :
    Mirrors labels id (lookupType name span)
      (lookupType (labels.name name) (labels.place span)) := by
  intro s
  rw [run_lookupType, run_lookupType, SymbolTable.lookupType, SymbolTable.lookupType,
    Checker.relabel, SymbolTable.lookup?_relabel]
  cases s.symbols.lookup? name <;> rfl

theorem mirrors_count (step : Metrics → Metrics) : Mirrors labels id (count step) (count step) :=
  fun _ => rfl

/-- A name is taken exactly if the other one is, so the same declarations are refused. -/
theorem mirrors_declare (name : String) (type : ValueType) (span : Span) :
    Mirrors labels id (declare name type span)
      (declare (labels.name name) type (labels.place span)) := by
  intro s
  rw [run_declare, run_declare, Checker.relabel, SymbolTable.lookup?_relabel]
  cases s.symbols.lookup? name with
  | none => exact Prod.ext rfl (by simp [Checker.relabel, SymbolTable.relabel, Symbol.relabel])
  | some earlier => rfl

end Check

/-! ## Rules -/

namespace Rule

open Check

variable {visit visit' : Visit} (hvisit : ∀ parent node, Mirrors labels id (visit parent node)
  (visit' (parent.relabel labels) (node.relabel labels)))
include hvisit

/-- Rules are mirrored if visits are, which is what each of them goes back to. -/
theorem visitEach_mirrors (parent : NodeKind) (nodes : List Node) :
    Mirrors labels id (visitEach visit parent nodes)
      (visitEach visit' (parent.relabel labels) (nodes.map (Node.relabel labels))) := by
  -- the fold starts with any type, as the induction meets it in the middle
  have hfold : ∀ produced, Mirrors labels id
      (nodes.foldlM (fun produced node => return (← visit parent node).or produced) produced)
      ((nodes.map (Node.relabel labels)).foldlM
        (fun produced node => return (← visit' (parent.relabel labels) node).or produced)
        produced) := by
    induction nodes with
    | nil => exact fun produced => mirrors_pure id produced
    | cons node others ih =>
      intro produced
      rw [List.map_cons, List.foldlM_cons, List.foldlM_cons]
      have hfirst : Mirrors labels id
          (do return (← visit parent node).or produced)
          (do return (← visit' (parent.relabel labels) (node.relabel labels)).or produced) :=
        (hvisit parent node).bind fun _ => mirrors_pure id _
      exact hfirst.bind ih
  exact hfold none

theorem visitChildren_mirrors (node : Node) :
    Mirrors labels id (visitChildren visit node) (visitChildren visit' (node.relabel labels)) := by
  rw [visitChildren, visitChildren, Node.kind_relabel, Node.children_relabel]
  exact visitEach_mirrors hvisit node.kind node.children

theorem visitTyped_mirrors (parent : NodeKind) (node : Node) :
    Mirrors labels id (visitTyped visit parent node)
      (visitTyped visit' (parent.relabel labels) (node.relabel labels)) :=
  (hvisit parent node).bind fun _ => mirrors_typeOf _ _

/-- The name enters the relabeled table as the other name, at the other place. -/
theorem declaration_mirrors (node : Node) (type : ValueType) :
    Mirrors labels id (declaration visit node type)
      (declaration visit' (node.relabel labels) type) := by
  unfold declaration
  rw [Node.kind_relabel]
  refine (mirrors_child _ _).bind fun target => (hvisit _ _).bind fun _ => ?_
  rw [Node.span_relabel]
  exact (mirrors_nameOf _).bind fun _ => mirrors_declare _ _ _

/-- The types on both sides are compared, and they have no names in them. -/
theorem assignment_mirrors (node : Node) :
    Mirrors labels id (assignment visit node) (assignment visit' (node.relabel labels)) := by
  refine (mirrors_child _ _).bind fun target => (mirrors_child _ _).bind fun content => ?_
  rw [Node.span_relabel, Node.span_relabel]
  exact (visitChildren_mirrors hvisit _).bind fun _ => (mirrors_nameOf _).bind fun _ =>
    (mirrors_lookupType _ _).bind fun _ => (mirrors_typeOf _ _).bind fun _ =>
    mirrors_ite (mirrors_pure _ _) (mirrors_throw _ _)

/-- The condition has the same index among the parts, so the same part is visited last. -/
theorem conditional_mirrors (node : Node) (index : Nat) :
    Mirrors labels id (conditional visit node index)
      (conditional visit' (node.relabel labels) index) := by
  unfold conditional
  rw [Node.kind_relabel, Node.children_relabel, List.eraseIdx_map]
  refine (mirrors_child _ _).bind fun test => (visitEach_mirrors hvisit _ _).bind fun _ => ?_
  rw [Node.span_relabel]
  exact (visitTyped_mirrors hvisit _ _).bind fun _ =>
    mirrors_ite (mirrors_pure _ _) (mirrors_throw _ _)

/-- The list and the loop variable have the types that they have in the other table. -/
theorem foreachLoop_mirrors (node : Node) :
    Mirrors labels id (foreachLoop visit node) (foreachLoop visit' (node.relabel labels)) := by
  unfold foreachLoop
  rw [Node.kind_relabel]
  refine (mirrors_child _ _).bind fun entry => (mirrors_child _ _).bind fun array =>
    (mirrors_child _ _).bind fun body => ?_
  rw [Node.span_relabel]
  exact (visitTyped_mirrors hvisit _ _).bind fun _ => (hvisit _ _).bind fun _ =>
    (mirrors_nameOf _).bind fun _ => (mirrors_lookupType _ _).bind fun _ =>
    mirrors_ite
      (mirrors_ite ((hvisit _ _).bind fun _ => mirrors_pure _ _) (mirrors_throw_bind _ _ _))
      (mirrors_throw_bind _ _ _)

theorem mapM_visitTyped_mirrors (parent : NodeKind) (nodes : List Node) :
    Mirrors labels id (nodes.mapM (visitTyped visit parent))
      ((nodes.map (Node.relabel labels)).mapM (visitTyped visit' (parent.relabel labels))) := by
  induction nodes with
  | nil => exact mirrors_pure id _
  | cons node others ih =>
    rw [List.map_cons, List.mapM_cons, List.mapM_cons]
    exact (visitTyped_mirrors hvisit _ _).bind fun _ => ih.bind fun _ => mirrors_pure id _

/-- The cases are those of the rule: how many operands there are, of which types, and whether there
is an operator. -/
theorem comparison_mirrors (node : Node) (operator : Option String) :
    Mirrors labels id (comparison visit node operator)
      (comparison visit' (node.relabel labels) operator) := by
  obtain ⟨kind, children, span⟩ := node
  rw [Node.relabel_mk]
  refine (mapM_visitTyped_mirrors hvisit kind children).bind fun types => ?_
  have hwrong (types : List ValueType) : Mirrors labels (id : ValueType → ValueType)
      (malformed (.comparisonArity types.length operator.isSome) span)
      (malformed (.comparisonArity types.length operator.isSome) (labels.place span)) :=
    mirrors_malformed _ (.comparisonArity types.length operator.isSome) span
  match types, children, operator with
  | [], _, _ => exact hwrong []
  | [_], _, _ => exact mirrors_pure id _
  | _ :: _ :: _ :: _, _, _ => exact hwrong _
  | [_, _], [], _ => exact hwrong [_, _]
  | [_, _], [_], _ => exact hwrong [_, _]
  | [_, _], _ :: _ :: _ :: _, _ => exact hwrong [_, _]
  | [_, _], [_, _], none => exact hwrong [_, _]
  | [left, right], [first, second], some operator =>
    show Mirrors labels id _ (ite (left = right) _ _)
    rw [Node.span_relabel]
    exact mirrors_ite
      (mirrors_ite ((mirrors_count _).bind fun _ => mirrors_pure id _) (mirrors_throw_bind _ _ _))
      (mirrors_throw_bind _ _ _)

/-- An operand of the wrong type is refused at the other place. -/
theorem operand_mirrors (parent : NodeKind) (expected : ValueType) (node : Node) :
    Mirrors labels id (operand visit parent expected node)
      (operand visit' (parent.relabel labels) expected (node.relabel labels)) := by
  unfold operand
  rw [Node.span_relabel]
  exact (visitTyped_mirrors hvisit _ _).bind fun _ =>
    mirrors_ite (mirrors_pure _ _) (mirrors_throw _ _)

/-- There are as many operands as before, so as many operators are counted. -/
theorem chain_mirrors (node : Node) (type : ValueType) :
    Mirrors labels id (chain visit node type) (chain visit' (node.relabel labels) type) := by
  obtain ⟨kind, children, span⟩ := node
  have hoperands (nodes : List Node) : Mirrors labels id (nodes.forM (operand visit kind type))
      ((nodes.map (Node.relabel labels)).forM
        (operand visit' (kind.relabel labels) type)) := by
    induction nodes with
    | nil => exact mirrors_pure id _
    | cons node others ih => exact (operand_mirrors hvisit _ _ _).bind fun _ => ih
  match children with
  | [] =>
    rw [Node.relabel_mk]
    exact mirrors_malformed _ (.noOperands kind) span
  | [_] => exact visitChildren_mirrors hvisit _
  | first :: second :: others =>
    have hcount : ((first :: second :: others).map (Node.relabel labels)).length - 1
        = (first :: second :: others).length - 1 := by
      rw [List.length_map]
    rw [Node.relabel_mk]
    refine (hoperands (first :: second :: others)).bind fun _ => ?_
    dsimp only
    rw [hcount]
    exact (mirrors_count _).bind fun _ => mirrors_pure id _

/-- Operators are texts of their own and stay what they are. -/
theorem stacked_mirrors (node : Node) (operators : List String) (refused : ValueType) :
    Mirrors labels id (stacked visit node operators refused)
      (stacked visit' (node.relabel labels) operators refused) := by
  have hcounted (produced : Option ValueType) : Mirrors labels id
      (do count fun metrics => { metrics with operators := metrics.operators + operators.length }
          return produced)
      (do count fun metrics => { metrics with operators := metrics.operators + operators.length }
          return produced) :=
    (mirrors_count _).bind fun _ => mirrors_pure id _
  refine (visitChildren_mirrors hvisit _).bind fun produced => ?_
  match operators with
  | [] => exact hcounted _
  | _ :: _ =>
    rw [Node.span_relabel]
    exact (mirrors_typeOf _ _).bind fun _ => mirrors_ite (mirrors_throw_bind _ _ _) (hcounted _)

theorem literal_mirrors (node : Node) (type : ValueType) :
    Mirrors labels id (literal visit node type) (literal visit' (node.relabel labels) type) :=
  (visitChildren_mirrors hvisit _).bind fun _ => mirrors_pure id _

omit hvisit in
/-- Whether an identifier is looked up is up to the kind of the node around it. -/
theorem identifier_mirrors (parent : NodeKind) (node : Node) (name : String) :
    Mirrors labels id (identifier parent node name)
      (identifier (parent.relabel labels) (node.relabel labels) (labels.name name)) := by
  unfold identifier
  simp only [NodeKind.isDeclaration_relabel, NodeKind.relabel_eq_value_iff, Node.span_relabel]
  exact mirrors_ite (mirrors_pure id _) ((mirrors_lookupType _ _).bind fun _ => mirrors_pure id _)

/-- Other names leave the kind of a node what it is, so the same rule applies. -/
theorem apply_mirrors (parent : NodeKind) (node : Node) :
    Mirrors labels id (apply visit parent node)
      (apply visit' (parent.relabel labels) (node.relabel labels)) := by
  -- a rule runs a check and answers something, perhaps behind a count
  have hthen {check check' : Check Unit} (h : Mirrors labels id check check')
      (answer : Option ValueType) :
      Mirrors labels id (do check; return answer) (do check'; return answer) :=
    h.bind fun _ => mirrors_pure id _
  have hcounted {check check' : Check Unit} (step : Metrics → Metrics)
      (h : Mirrors labels id check check') (answer : Option ValueType) :
      Mirrors labels id (do count step; check; return answer)
        (do count step; check'; return answer) :=
    (mirrors_count step).bind fun _ => hthen h answer
  have hkind : (node.relabel labels).kind = node.kind.relabel labels := node.kind_relabel
  unfold apply
  cases hnode : node.kind <;> rw [hnode] at hkind <;> rw [hkind]
  case program | declaration | block | statement | expression | value =>
    exact visitChildren_mirrors hvisit _
  case scalarDeclaration | listDeclaration => exact hthen (declaration_mirrors hvisit _ _) _
  case assignment => exact hthen (assignment_mirrors hvisit _) _
  case foreachLoop => exact hcounted _ (foreachLoop_mirrors hvisit _) _
  case forLoop | conditional | whileLoop => exact hcounted _ (conditional_mirrors hvisit _ _) _
  case comparison => exact (comparison_mirrors hvisit _ _).bind fun _ => mirrors_pure id _
  case sum | product | logical => exact chain_mirrors hvisit _ _
  case negation | signed => exact stacked_mirrors hvisit _ _ _
  case boolean | integer => exact literal_mirrors hvisit _ _
  case identifier => exact identifier_mirrors _ _ _

end Rule

/-! ## Programs -/

open Check

/-- By induction on the levels: at the limit both walks fail, above it the rules mirror each other.
-/
theorem visitWithin_mirrors (levels : Nat) (parent : NodeKind) (node : Node) :
    Mirrors labels id (visitWithin levels parent node)
      (visitWithin levels (parent.relabel labels) (node.relabel labels)) := by
  induction levels generalizing parent node with
  | zero =>
    show Mirrors labels id _ (malformed .tooDeep (node.relabel labels).span)
    rw [Node.span_relabel]
    exact mirrors_malformed id .tooDeep node.span
  | succ levels ih => exact Rule.apply_mirrors ih parent node

/-- A root that is no program is none with other names. -/
theorem walkProgram_mirrors (tree : Node) :
    Mirrors labels id (walkProgram tree) (walkProgram (tree.relabel labels)) := by
  unfold walkProgram walkProgramBy
  simp only [Node.kind_relabel, NodeKind.relabel_eq_program_iff, Node.span_relabel]
  have hparts : Mirrors labels id
      (do let _ ← Rule.visitChildren (visitWithin depthLimit) tree)
      (do let _ ← Rule.visitChildren (visitWithin depthLimit) (tree.relabel labels)) :=
    (Rule.visitChildren_mirrors (visitWithin_mirrors depthLimit) tree).bind fun _ =>
      mirrors_pure id _
  exact mirrors_ite hparts
    ((mirrors_malformed id (.rootNotProgram tree.kind) tree.span).bind fun _ => hparts)

/-- A check of a relabeled program in a relabeled state ends as the check of the program does. -/
theorem Checker.check_relabel (s : Checker) (tree : Node) :
    (s.relabel labels).check (tree.relabel labels)
      = ((s.check tree).1.mapError (Diagnostic.relabel labels),
          (s.check tree).2.relabel labels) := by
  rw [check_eq, check_eq, run_checkProgram, run_checkProgram, walkProgram_mirrors tree s]
  rcases (walkProgram tree).run.run s with ⟨problem | answer, s'⟩ <;> rfl

/-! ## Places alone -/

/-- The old names, and no places at all. -/
def Relabeling.unplaced : Relabeling := ⟨id, fun _ => {}, Function.injective_id⟩

/-- Without places and with the names it has, a tree is what is compared when spans do not matter.
-/
theorem Node.relabel_unplaced (tree : Node) : tree.relabel .unplaced = tree.bare := by
  induction tree using Node.induction with
  | step kind children span ih =>
    have hkind : kind.relabel .unplaced = kind := by cases kind <;> rfl
    rw [relabel_mk, bare_mk, hkind, List.map_congr_left ih]
    rfl

/-- Without its places, the outcome of a check is up to the tree without its places. -/
theorem Checker.check_bare {tree tree' : Node} (h : tree.bare = tree'.bare) (s : Checker) :
    ((s.check tree).1.mapError (Diagnostic.relabel .unplaced),
        (s.check tree).2.relabel .unplaced)
      = ((s.check tree').1.mapError (Diagnostic.relabel .unplaced),
          (s.check tree').2.relabel .unplaced) := by
  rw [← check_relabel, ← check_relabel, Node.relabel_unplaced, Node.relabel_unplaced, h]

/-- Forgetting the places leaves the names with their types. -/
theorem Checker.signatures_relabel_unplaced (s : Checker) :
    (s.relabel .unplaced).symbols.entries.map (fun symbol => (symbol.name, symbol.type))
      = s.symbols.entries.map fun symbol => (symbol.name, symbol.type) := by
  rw [Checker.relabel, SymbolTable.relabel, List.map_map]
  rfl

@[simp] theorem Diagnostic.code?_relabel (diagnostic : Diagnostic) :
    (diagnostic.relabel labels).code? = diagnostic.code? := by
  cases diagnostic <;> rfl

/-- Messages tell names and types, never places. -/
@[simp] theorem Diagnostic.message_relabel_unplaced (diagnostic : Diagnostic) :
    (diagnostic.relabel .unplaced).message = diagnostic.message := by
  cases diagnostic <;> rfl

/-! ## Names alone -/

/-- The other names that `f` gives, at the old places. -/
def Relabeling.ofNames (f : String → String) (hf : Function.Injective f) : Relabeling :=
  ⟨f, id, hf⟩

/-- No spelling of a name is special. If names get other names, different ones for different names,
a check has the same verdict and the same counts, whether the program is accepted or not; the
entries and the diagnostic have the other names in place of the old ones and are the same in all
else. -/
theorem check_rename (f : String → String) (hf : Function.Injective f) (tree : Node) :
    let names := Relabeling.ofNames f hf
    let original := Checker.check {} tree
    let renamed := Checker.check {} (tree.relabel names)
    renamed.1 = original.1.mapError (Diagnostic.relabel names) ∧
      renamed.2.metrics = original.2.metrics ∧
      renamed.2.symbols.entries
        = original.2.symbols.entries.map fun symbol => { symbol with name := f symbol.name } := by
  intro names original renamed
  have hrenamed : renamed = (original.1.mapError (Diagnostic.relabel names),
      original.2.relabel names) := Checker.check_relabel {} tree
  rw [hrenamed]
  exact ⟨rfl, rfl, rfl⟩

/-- Two names change places in a program that declares one of them and uses the other. -/
theorem check_rename_swap :
    let f := Equiv.swap "x" "y"
    let use : Span := .ofOffsets 6 7
    let tree (declared used : String) : Node :=
      ⟨.program, [⟨.block, [⟨.scalarDeclaration "num", [⟨.identifier declared, [], {}⟩], {}⟩,
        ⟨.assignment, [⟨.identifier used, [], use⟩, ⟨.integer "1", [], {}⟩], {}⟩], {}⟩], {}⟩
    Function.Injective f ∧
      (Checker.check {} (tree "x" "y")).1 = .error (.undefinedIdentifier "y" use) ∧
      (Checker.check {} (tree "y" "x")).1 = .error (.undefinedIdentifier "x" use) ∧
      (Checker.check {} (tree "y" "x")).2.symbols.entries = [⟨"y", .num, {}⟩] := by
  intro f use tree
  have hf : Function.Injective f := (Equiv.swap "x" "y").injective
  have htree : (tree "x" "y").relabel (.ofNames f hf) = tree "y" "x" := by
    simp [tree, Node.relabel_mk, NodeKind.relabel, Relabeling.ofNames, f]
  have horiginal : Checker.check {} (tree "x" "y")
      = (.error (.undefinedIdentifier "y" use), ⟨⟨[⟨"x", .num, {}⟩]⟩, { declarations := 1 }⟩) := by
    -- checks are computed as walks of limited depth
    rw [Checker.check_eq]
    decide +kernel
  obtain ⟨hanswer, -, hentries⟩ := check_rename f hf (tree "x" "y")
  rw [htree, horiginal] at hanswer hentries
  exact ⟨hf, by rw [horiginal], hanswer, hentries⟩

end Census
