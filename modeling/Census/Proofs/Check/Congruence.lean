import Census.Proofs.Check.Depth
import Census.Proofs.Grammar.Rewriting

/-!
# Constructs that are checked alike

The rule of a construct sees nothing of a part but its kind, its place, and what a visit to it does.
So a part may stand for another one if these are the same, and for visits that have enough levels
left to them it does not matter how many these are.

- `Rule.StandsFor`: a part with a visit, in the place of another part with another visit.
- `Rule.apply_congr`: a construct is checked alike if its parts stand for each other. There is a
  lemma for each rule.
- `Rule.apply_inherits_of_parts`: what a construct inherits from the visits to its parts.
- `Node.Equivalent`: trees that are checked alike wherever they are not too deep.
- `Node.equivalent_mk`: constructs are equivalent if their parts are.
-/

namespace Census

open Check

namespace Rule

variable {σ : Type}

/-- What a rule sees of the two parts is the same. -/
structure StandsFor (visit visit' : VisitOn σ) (parent : NodeKind) (part part' : Node) : Prop where
  kind_eq : part.kind = part'.kind
  span_eq : part.span = part'.span
  visit_eq : visit parent part = visit' parent part'

variable {visit visit' : VisitOn σ} {kind : NodeKind} {part part' : Node}
  {children children' : List Node} {span : Span}

namespace StandsFor

variable (h : StandsFor visit visit' kind part part')
include h

/-- Names are told by kinds, and failures by kinds and places. -/
theorem nameOf_eq {τ : Type} : (nameOf part : CheckOn τ String) = nameOf part' := by
  rw [nameOf, nameOf, Node.identifier?, Node.identifier?, h.kind_eq, h.span_eq]

theorem typeOf_eq {τ : Type} (produced : Option ValueType) :
    (typeOf produced part : CheckOn τ ValueType) = typeOf produced part' := by
  unfold typeOf
  rw [h.kind_eq, h.span_eq]

/-- A type is demanded of the same visit. -/
theorem visitTyped_eq : visitTyped visit kind part = visitTyped visit' kind part' := by
  rw [visitTyped, visitTyped, h.visit_eq]
  simp only [h.typeOf_eq]

theorem operand_eq (expected : ValueType) :
    operand visit kind expected part = operand visit' kind expected part' := by
  rw [operand, operand, h.visitTyped_eq, h.span_eq]

end StandsFor

section Row

variable (h : List.Forall₂ (StandsFor visit visit' kind) children children')
include h

/-- By induction on the two rows of parts. -/
theorem visitEach_congr : visitEach visit kind children = visitEach visit' kind children' := by
  -- the fold starts with any type, as the induction meets it in the middle
  have hfold (produced : Option ValueType) :
      children.foldlM (fun produced node => return (← visit kind node).or produced) produced
        = children'.foldlM (fun produced node => return (← visit' kind node).or produced)
          produced := by
    induction h generalizing produced with
    | nil => rfl
    | cons hfirst _ ih =>
      rw [List.foldlM_cons, List.foldlM_cons, hfirst.visit_eq]
      exact bind_congr ih
  exact hfold none

theorem mapM_visitTyped_congr :
    children.mapM (visitTyped visit kind) = children'.mapM (visitTyped visit' kind) := by
  induction h with
  | nil => rfl
  | cons hfirst _ ih => rw [List.mapM_cons, List.mapM_cons, hfirst.visitTyped_eq, ih]

theorem forM_operand_congr (expected : ValueType) :
    children.forM (operand visit kind expected)
      = children'.forM (operand visit' kind expected) := by
  induction h with
  | nil => rfl
  | cons hfirst _ ih =>
    show (operand _ _ _ _ >>= fun _ => _) = (operand _ _ _ _ >>= fun _ => _)
    rw [hfirst.operand_eq]
    exact bind_congr fun _ => ih

/-- Parts at the same index stand for each other, and a missing one is told by the node around it.
-/
theorem child_bind_congr {α : Type} {next next' : Node → CheckOn σ α} (index : Nat)
    (hnext : ∀ part part', StandsFor visit visit' kind part part' → next part = next' part') :
    child ⟨kind, children, span⟩ index >>= next
      = child ⟨kind, children', span⟩ index >>= next' := by
  unfold child Node.child?
  have hpart := forall₂_getElem? h index
  revert hpart
  generalize children[index]? = part, children'[index]? = part'
  rintro (hpart | _)
  · exact hnext _ _ hpart
  · rfl

/-! ## Rules -/

variable [Holds σ]

omit [Holds σ] in
theorem visitChildren_congr :
    visitChildren visit ⟨kind, children, span⟩ = visitChildren visit' ⟨kind, children', span⟩ :=
  visitEach_congr h

/-- Only the first part is looked at. -/
theorem declaration_congr (type : ValueType) :
    declaration visit ⟨kind, children, span⟩ type
      = declaration visit' ⟨kind, children', span⟩ type := by
  refine child_bind_congr h 0 fun target target' htarget => ?_
  rw [htarget.visit_eq, htarget.nameOf_eq, htarget.span_eq]

theorem assignment_congr :
    assignment visit ⟨kind, children, span⟩ = assignment visit' ⟨kind, children', span⟩ := by
  refine child_bind_congr h 0 fun target target' htarget => ?_
  refine child_bind_congr h 1 fun content content' hcontent => ?_
  rw [visitChildren_congr h, htarget.nameOf_eq, htarget.span_eq, hcontent.span_eq]
  simp only [hcontent.typeOf_eq]

omit [Holds σ] in
/-- Taking out the condition leaves rows that stand for each other. -/
theorem conditional_congr (index : Nat) :
    conditional visit ⟨kind, children, span⟩ index
      = conditional visit' ⟨kind, children', span⟩ index := by
  refine child_bind_congr h index fun test test' htest => ?_
  rw [visitEach_congr (forall₂_eraseIdx h index), htest.visitTyped_eq, htest.span_eq]

/-- Each of the three parts stands for the one at its index. -/
theorem foreachLoop_congr :
    foreachLoop visit ⟨kind, children, span⟩ = foreachLoop visit' ⟨kind, children', span⟩ := by
  refine child_bind_congr h 0 fun entry entry' hentry => ?_
  refine child_bind_congr h 1 fun array array' harray => ?_
  refine child_bind_congr h 2 fun body body' hbody => ?_
  rw [hentry.visitTyped_eq, harray.visit_eq, harray.nameOf_eq, harray.span_eq, hbody.visit_eq]

/-- The refusal of two types is at the place of the second operand, which is the same. -/
theorem comparison_congr (operator : Option String) :
    comparison visit ⟨kind, children, span⟩ operator
      = comparison visit' ⟨kind, children', span⟩ operator := by
  unfold comparison
  rw [mapM_visitTyped_congr h]
  refine bind_congr fun types => ?_
  -- the rule looks at how many operands there are, and at the place of the second one
  obtain _ | ⟨_, _ | ⟨hsecond, _ | _⟩⟩ := h
  · rfl
  · rcases types with _ | ⟨_, _ | ⟨_, _ | _⟩⟩ <;> cases operator <;> rfl
  · rcases types with _ | ⟨_, _ | ⟨_, _ | _⟩⟩ <;> cases operator <;>
      first | rfl | simp only [hsecond.span_eq]
  · rcases types with _ | ⟨_, _ | ⟨_, _ | _⟩⟩ <;> cases operator <;> rfl

/-- There are as many operands in both rows, so the same case of the rule applies. -/
theorem chain_congr (type : ValueType) :
    chain visit ⟨kind, children, span⟩ type = chain visit' ⟨kind, children', span⟩ type := by
  have hrow : visitChildren visit ⟨kind, children, span⟩
      = visitChildren visit' ⟨kind, children', span⟩ := visitChildren_congr h
  have hoperands := forM_operand_congr h type
  have hlength := h.length_eq
  unfold chain
  obtain _ | ⟨_, _ | _⟩ := h
  · rfl
  · exact hrow
  · simp only [hoperands, hlength]

/-- Refusals are at the place of the node, which keeps it. -/
theorem stacked_congr (operators : List String) (refused : ValueType) :
    stacked visit ⟨kind, children, span⟩ operators refused
      = stacked visit' ⟨kind, children', span⟩ operators refused := by
  rw [stacked, stacked, visitChildren_congr h]
  rfl

omit [Holds σ] in
theorem literal_congr (type : ValueType) :
    literal visit ⟨kind, children, span⟩ type = literal visit' ⟨kind, children', span⟩ type := by
  rw [literal, literal, visitChildren_congr h]

/-- A construct is checked alike if its parts stand for each other. -/
theorem apply_congr (parent : NodeKind) :
    apply visit parent ⟨kind, children, span⟩ = apply visit' parent ⟨kind, children', span⟩ := by
  unfold apply
  cases kind with
  | program | declaration | block | statement | expression | value => exact visitChildren_congr h
  | scalarDeclaration | listDeclaration => simp only [declaration_congr h]
  | assignment => simp only [assignment_congr h]
  | foreachLoop => simp only [foreachLoop_congr h]
  | forLoop | conditional | whileLoop => simp only [conditional_congr h]
  | comparison => simp only [comparison_congr h]
  | sum | product | logical => exact chain_congr h _
  | negation | signed => exact stacked_congr h _ _
  | boolean | integer => exact literal_congr h _
  | identifier => rfl

end Row

/-- Only the visits to the parts of a construct matter, also for what its check inherits. -/
theorem apply_inherits_of_parts [Holds σ] {P : {α : Type} → CheckOn σ α → CheckOn σ α → Prop}
    (hP : Inherited P) (h : ∀ part ∈ children, P (visit kind part) (visit kind part))
    (parent : NodeKind) :
    P (apply visit parent ⟨kind, children, span⟩) (apply visit parent ⟨kind, children, span⟩) := by
  classical
  -- the same visits to the parts, and none to other nodes
  let only : VisitOn σ := fun parent node =>
    if parent = kind ∧ node ∈ children then visit parent node else pure none
  have honly : List.Forall₂ (StandsFor visit only kind) children children :=
    List.forall₂_same.mpr fun part hpart => ⟨rfl, rfl, (if_pos ⟨rfl, hpart⟩).symm⟩
  rw [apply_congr honly]
  refine apply_inherits hP (fun parent node => ?_) parent _
  by_cases hpart : parent = kind ∧ node ∈ children
  · obtain ⟨rfl, hmem⟩ := hpart
    simp only [only, hmem, and_self, if_true]
    exact h node hmem
  · simp only [only, if_neg hpart]
    exact hP.pure none

end Rule

/-! ## Equivalent trees -/

namespace Node

/-- The trees are visited alike, with whatever levels suffice for them. -/
structure Equivalent (tree tree' : Node) : Prop where
  kind_eq : tree.kind = tree'.kind
  span_eq : tree.span = tree'.span
  visit_eq : ∀ parent {levels levels'}, tree.height ≤ levels → tree'.height ≤ levels' →
    visitWithin levels parent tree = visitWithin levels' parent tree'

variable {tree tree' tree'' : Node} {kind : NodeKind} {children children' : List Node} {span : Span}

/-- What suffices for the first and the third tree need not suffice for the second, so levels enough
for it are put in between. -/
theorem Equivalent.trans (h : Equivalent tree tree') (h' : Equivalent tree' tree'') :
    Equivalent tree tree'' where
  kind_eq := h.kind_eq.trans h'.kind_eq
  span_eq := h.span_eq.trans h'.span_eq
  visit_eq parent _ _ hlevels hlevels' :=
    (h.visit_eq parent hlevels (Nat.le_refl _)).trans (h'.visit_eq parent (Nat.le_refl _) hlevels')

/-- Parts that are equivalent stand for each other. -/
theorem standsFor_of_equivalent {levels levels' : Nat}
    (h : List.Forall₂ Equivalent children children') (hlevels : heightOfAll children ≤ levels)
    (hlevels' : heightOfAll children' ≤ levels') :
    List.Forall₂ (Rule.StandsFor (visitWithin levels) (visitWithin levels') kind) children
      children' := by
  induction h with
  | nil => exact .nil
  | cons hfirst _ ih =>
    rw [heightOfAll, Nat.max_le] at hlevels hlevels'
    refine .cons ?_ (ih hlevels.2 hlevels'.2)
    exact ⟨hfirst.kind_eq, hfirst.span_eq, hfirst.visit_eq kind hlevels.1 hlevels'.1⟩

/-- Constructs are equivalent if their parts are. -/
theorem equivalent_mk (h : List.Forall₂ Equivalent children children') :
    Equivalent ⟨kind, children, span⟩ ⟨kind, children', span⟩ where
  kind_eq := rfl
  span_eq := rfl
  visit_eq := by
    intro parent levels levels' hlevels hlevels'
    obtain ⟨fewer, rfl⟩ := exists_levels hlevels
    obtain ⟨fewer', rfl⟩ := exists_levels hlevels'
    exact Rule.apply_congr (standsFor_of_equivalent h (Nat.le_of_succ_le_succ hlevels)
      (Nat.le_of_succ_le_succ hlevels')) parent

/-- Levels that are left over do not matter. -/
theorem Equivalent.refl (tree : Node) : Equivalent tree tree := by
  induction tree using Node.induction with
  | step kind children span ih => exact equivalent_mk (List.forall₂_same.mpr ih)

/-- Programs that are equivalent are checked alike. -/
theorem Equivalent.check_eq (h : Equivalent tree tree') (hlow : tree.height ≤ depthLimit + 1)
    (hlow' : tree'.height ≤ depthLimit + 1) (s : Checker) : s.check tree = s.check tree' := by
  rw [Checker.check_eq, Checker.check_eq, checkProgram, checkProgram, checkProgramBy,
    checkProgramBy, ← h.kind_eq, ← h.span_eq]
  by_cases hkind : tree.kind = .program
  · -- a visit to the root would be one to its parts
    have hroot {node : Node} (hkind : node.kind = .program) :
        visitWithin (depthLimit + 1) .program node
          = Rule.visitChildren (visitWithin depthLimit) node := by
      rw [visitWithin, Rule.apply, hkind]
    have hvisit := h.visit_eq .program hlow hlow'
    rw [hroot hkind, hroot (h.kind_eq ▸ hkind)] at hvisit
    rw [if_pos hkind, if_pos hkind, hvisit]
  · rw [if_neg hkind, if_neg hkind]
    rfl

end Node

end Census
