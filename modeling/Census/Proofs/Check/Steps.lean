import Census.Proofs.Check.Counts
import Census.Proofs.Check.Runs

/-!
# What checks are made of

The rules of all constructs put the same few steps in rows: they look into the table, declare,
count, and fail. What holds of these steps and is handed on along rows holds of every visit, so a
property of checks is looked at step by step and never rule by rule. It may be one of a check alone,
or of two that take the same steps on states of two kinds.

- `Check.Inherited`: a property of the steps that rows of them have as well.
- `Rule.apply_inherits`: every rule has it, if the visits of the parts do.
- `walkProgramBy_inherits`: so does the walk over a program.
-/

namespace Census

variable {σ τ : Type} [Holds σ] [Holds τ]

namespace Check

/-- A property of checks that their steps have and that checks in a row hand on. Counting steps add
the same to every state, and leave the number of declarations to the steps that declare. -/
structure Inherited (P : {α : Type} → CheckOn σ α → CheckOn τ α → Prop) : Prop where
  pure : ∀ {α : Type} (answer : α), P (pure answer) (pure answer)
  throw : ∀ {α : Type} (diagnostic : Diagnostic),
    P (throw diagnostic : CheckOn σ α) (throw diagnostic)
  bind : ∀ {α β : Type} {check : CheckOn σ α} {check' : CheckOn τ α} {next : α → CheckOn σ β}
    {next' : α → CheckOn τ β}, P check check' → (∀ answer, P (next answer) (next' answer)) →
      P (check >>= next) (check' >>= next')
  lookupType : ∀ name span, P (lookupType name span) (lookupType name span)
  count : ∀ {step : Metrics → Metrics} (counts : Metrics), counts.declarations = 0 →
    (∀ metrics, step metrics = metrics + counts) → P (count step) (count step)
  declare : ∀ name type span, P (declare name type span) (declare name type span)

namespace Inherited

variable {P : {α : Type} → CheckOn σ α → CheckOn τ α → Prop} (hP : Inherited P) {α β : Type}
include hP

/-- The failure on a malformed tree is one of those that are inherited. -/
theorem malformed (what : Malformation) (span : Span) :
    P (malformed what span : CheckOn σ α) (malformed what span) :=
  hP.throw _

/-- Nothing comes behind a failure. -/
theorem throw_bind (diagnostic : Diagnostic) (next : β → CheckOn σ α) (next' : β → CheckOn τ α) :
    P (MonadExcept.throw diagnostic >>= next) (MonadExcept.throw diagnostic >>= next') :=
  hP.throw diagnostic

omit [Holds σ] [Holds τ] hP in
/-- Both checks take the same branch. -/
theorem ite {p : Prop} [Decidable p] {first second : CheckOn σ α} {first' second' : CheckOn τ α}
    (h : P first first') (h' : P second second') :
    P (if p then first else second) (if p then first' else second') := by
  by_cases hp : p
  · rwa [if_pos hp, if_pos hp]
  · rwa [if_neg hp, if_neg hp]

/-- A missing part is told the same in both. -/
theorem child (node : Node) (index : Nat) : P (child node index) (child node index) := by
  unfold Check.child
  cases node.child? index with
  | none => exact hP.malformed _ _
  | some part => exact hP.pure _

theorem nameOf (node : Node) : P (nameOf node) (nameOf node) := by
  unfold Check.nameOf
  cases node.identifier? with
  | none => exact hP.malformed _ _
  | some name => exact hP.pure _

theorem typeOf (produced : Option ValueType) (node : Node) :
    P (typeOf produced node) (typeOf produced node) := by
  cases produced with
  | none => exact hP.malformed _ _
  | some type => exact hP.pure _

end Inherited

end Check

namespace Rule

open Check

variable {P : {α : Type} → CheckOn σ α → CheckOn τ α → Prop} {visit : VisitOn σ}
  {visit' : VisitOn τ}

section Rules

variable (hP : Inherited P) (hvisit : ∀ parent node, P (visit parent node) (visit' parent node))
include hP hvisit

/-- By induction on the nodes, whatever has been produced before them. -/
theorem visitEach_inherits (parent : NodeKind) (nodes : List Node) :
    P (visitEach visit parent nodes) (visitEach visit' parent nodes) := by
  -- the fold starts with any type, as the induction meets it in the middle
  have hfold : ∀ produced, P
      (nodes.foldlM (fun produced node => return (← visit parent node).or produced) produced)
      (nodes.foldlM (fun produced node => return (← visit' parent node).or produced) produced) := by
    induction nodes with
    | nil => exact fun produced => hP.pure produced
    | cons node others ih =>
      intro produced
      rw [List.foldlM_cons, List.foldlM_cons]
      exact hP.bind (hP.bind (hvisit parent node) fun _ => hP.pure _) ih
  exact hfold none

theorem visitChildren_inherits (node : Node) :
    P (visitChildren visit node) (visitChildren visit' node) :=
  visitEach_inherits hP hvisit node.kind node.children

theorem visitTyped_inherits (parent : NodeKind) (node : Node) :
    P (visitTyped visit parent node) (visitTyped visit' parent node) :=
  hP.bind (hvisit parent node) fun _ => hP.typeOf _ _

/-- A declaration is a row of steps, and each of them is inherited. -/
theorem declaration_inherits (node : Node) (type : ValueType) :
    P (declaration visit node type) (declaration visit' node type) :=
  hP.bind (hP.child _ _) fun _ => hP.bind (hvisit _ _) fun _ =>
    hP.bind (hP.nameOf _) fun _ => hP.declare _ _ _

theorem assignment_inherits (node : Node) : P (assignment visit node) (assignment visit' node) :=
  hP.bind (hP.child _ _) fun _ => hP.bind (hP.child _ _) fun _ =>
    hP.bind (visitChildren_inherits hP hvisit node) fun _ => hP.bind (hP.nameOf _) fun _ =>
    hP.bind (hP.lookupType _ _) fun _ => hP.bind (hP.typeOf _ _) fun _ =>
    Inherited.ite (hP.pure _) (hP.throw _)

/-- The other parts are visited in a row, then the condition. -/
theorem conditional_inherits (node : Node) (index : Nat) :
    P (conditional visit node index) (conditional visit' node index) :=
  hP.bind (hP.child _ _) fun _ => hP.bind (visitEach_inherits hP hvisit _ _) fun _ =>
    hP.bind (visitTyped_inherits hP hvisit _ _) fun _ => Inherited.ite (hP.pure _) (hP.throw _)

theorem foreachLoop_inherits (node : Node) :
    P (foreachLoop visit node) (foreachLoop visit' node) :=
  hP.bind (hP.child _ _) fun _ => hP.bind (hP.child _ _) fun _ => hP.bind (hP.child _ _) fun _ =>
    hP.bind (visitTyped_inherits hP hvisit _ _) fun _ => hP.bind (hvisit _ _) fun _ =>
    hP.bind (hP.nameOf _) fun _ => hP.bind (hP.lookupType _ _) fun _ =>
    Inherited.ite
      (Inherited.ite (hP.bind (hvisit _ _) fun _ => hP.pure _) (hP.throw_bind _ _ _))
      (hP.throw_bind _ _ _)

theorem mapM_visitTyped_inherits (parent : NodeKind) (nodes : List Node) :
    P (nodes.mapM (visitTyped visit parent)) (nodes.mapM (visitTyped visit' parent)) := by
  induction nodes with
  | nil => exact hP.pure _
  | cons node others ih =>
    rw [List.mapM_cons, List.mapM_cons]
    exact hP.bind (visitTyped_inherits hP hvisit _ _) fun _ => hP.bind ih fun _ => hP.pure _

/-- The cases of the rule are about the types, which both have. -/
theorem comparison_inherits (node : Node) (operator : Option String) :
    P (comparison visit node operator) (comparison visit' node operator) := by
  refine hP.bind (mapM_visitTyped_inherits hP hvisit _ _) fun types => ?_
  split
  · exact hP.pure _
  · exact Inherited.ite (Inherited.ite
      (hP.bind (hP.count { operators := 1 } rfl fun _ => rfl) fun _ => hP.pure _)
      (hP.throw_bind _ _ _)) (hP.throw_bind _ _ _)
  · exact hP.malformed _ _

theorem operand_inherits (parent : NodeKind) (expected : ValueType) (node : Node) :
    P (operand visit parent expected node) (operand visit' parent expected node) :=
  hP.bind (visitTyped_inherits hP hvisit _ _) fun _ => Inherited.ite (hP.pure _) (hP.throw _)

/-- With no operand both fail, with one they pass it on, and with more they demand a type of each.
-/
theorem chain_inherits (node : Node) (type : ValueType) :
    P (chain visit node type) (chain visit' node type) := by
  obtain ⟨kind, children, span⟩ := node
  have hoperands (nodes : List Node) : P (nodes.forM (operand visit kind type))
      (nodes.forM (operand visit' kind type)) := by
    induction nodes with
    | nil => exact hP.pure _
    | cons node others ih => exact hP.bind (operand_inherits hP hvisit _ _ _) fun _ => ih
  match children with
  | [] => exact hP.malformed _ _
  | [_] => exact visitChildren_inherits hP hvisit _
  | _ :: _ :: _ =>
    exact hP.bind (hoperands _) fun _ =>
      hP.bind (hP.count { operators := _ } rfl fun _ => rfl) fun _ => hP.pure _

/-- Only where there are operators a type is asked for. -/
theorem stacked_inherits (node : Node) (operators : List String) (refused : ValueType) :
    P (stacked visit node operators refused) (stacked visit' node operators refused) := by
  have hcounted (produced : Option ValueType) : P
      (do count fun metrics => { metrics with operators := metrics.operators + operators.length }
          return produced)
      (do count fun metrics => { metrics with operators := metrics.operators + operators.length }
          return produced) :=
    hP.bind (hP.count { operators := _ } rfl fun _ => rfl) fun _ => hP.pure _
  refine hP.bind (visitChildren_inherits hP hvisit _) fun produced => ?_
  match operators with
  | [] => exact hcounted _
  | _ :: _ =>
    exact hP.bind (hP.typeOf _ _) fun _ => Inherited.ite (hP.throw_bind _ _ _) (hcounted _)

theorem literal_inherits (node : Node) (type : ValueType) :
    P (literal visit node type) (literal visit' node type) :=
  hP.bind (visitChildren_inherits hP hvisit _) fun _ => hP.pure _

omit hvisit in
theorem identifier_inherits (parent : NodeKind) (node : Node) (name : String) :
    P (identifier parent node name) (identifier parent node name) :=
  Inherited.ite (hP.pure _) (hP.bind (hP.lookupType _ _) fun _ => hP.pure _)

/-- Every rule is made of inherited steps and visits, whatever the kind of the node is. -/
theorem apply_inherits (parent : NodeKind) (node : Node) :
    P (apply visit parent node) (apply visit' parent node) := by
  -- a rule runs a check and answers something, perhaps behind a count
  have hthen {α β : Type} {check : CheckOn σ α} {check' : CheckOn τ α} (h : P check check')
      (answer : β) : P (do let _ ← check; return answer) (do let _ ← check'; return answer) :=
    hP.bind h fun _ => hP.pure _
  have hcounted {α : Type} {step : Metrics → Metrics} {check : CheckOn σ α} {check' : CheckOn τ α}
      (counts : Metrics) (hcounts : counts.declarations = 0)
      (hstep : ∀ metrics, step metrics = metrics + counts) (h : P check check')
      (answer : Option ValueType) : P (do count step; let _ ← check; return answer)
        (do count step; let _ ← check'; return answer) :=
    hP.bind (hP.count counts hcounts hstep) fun _ => hthen h answer
  obtain ⟨kind, children, span⟩ := node
  cases kind with
  | program | declaration | block | statement | expression | value =>
    exact visitChildren_inherits hP hvisit _
  | scalarDeclaration keyword | listDeclaration keyword =>
    exact hthen (declaration_inherits hP hvisit _ _) _
  | assignment => exact hthen (assignment_inherits hP hvisit _) _
  | foreachLoop =>
    exact hcounted { forLoops := 1 } rfl (fun _ => rfl) (foreachLoop_inherits hP hvisit _) _
  | forLoop =>
    exact hcounted { forLoops := 1 } rfl (fun _ => rfl) (conditional_inherits hP hvisit _ _) _
  | conditional =>
    exact hcounted { conditionals := 1 } rfl (fun _ => rfl) (conditional_inherits hP hvisit _ _) _
  | whileLoop =>
    exact hcounted { whileLoops := 1 } rfl (fun _ => rfl) (conditional_inherits hP hvisit _ _) _
  | comparison operator =>
    exact hP.bind (comparison_inherits hP hvisit _ _) fun _ => hP.pure _
  | sum operators | product operators | logical operators => exact chain_inherits hP hvisit _ _
  | negation operators | signed operators => exact stacked_inherits hP hvisit _ _ _
  | boolean truth => exact literal_inherits hP hvisit _ _
  | integer digits => exact literal_inherits hP hvisit _ _
  | identifier name => exact identifier_inherits hP _ _ _

end Rules

end Rule

/-- The walk over a program, without the look at the metrics in the end. -/
def walkProgramBy (visit : VisitOn σ) (tree : Node) : CheckOn σ Unit := do
  unless tree.kind = .program do
    Check.malformed (.rootNotProgram tree.kind) tree.span
  let _ ← Rule.visitChildren visit tree

/-- What all visits have, the walk from the root has too. -/
theorem walkProgramBy_inherits {P : {α : Type} → CheckOn σ α → CheckOn τ α → Prop}
    {visit : VisitOn σ} {visit' : VisitOn τ} (hP : Check.Inherited P)
    (hvisit : ∀ parent node, P (visit parent node) (visit' parent node)) (tree : Node) :
    P (walkProgramBy visit tree) (walkProgramBy visit' tree) :=
  Check.Inherited.ite
    (hP.bind (Rule.visitChildren_inherits hP hvisit tree) fun _ => hP.pure _)
    (hP.throw_bind _ _ _)

/-- A check of a program walks over it and answers what is counted then. -/
theorem run_checkProgramBy (visit : VisitOn σ) (tree : Node) (s : σ) :
    (checkProgramBy visit tree).run.run s
      = let outcome := (walkProgramBy visit tree).run.run s
        (outcome.1.map fun _ => (Holds.checker outcome.2).metrics, outcome.2) := by
  unfold checkProgramBy walkProgramBy
  split
  · rw [Check.run_bind, Check.run_bind]
    rcases (Rule.visitChildren visit tree).run.run s with ⟨_ | _, _⟩ <;> rfl
  · rfl

end Census
