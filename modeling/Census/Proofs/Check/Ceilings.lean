import Mathlib.Algebra.Order.BigOperators.Group.List
import Census.Proofs.Check.Depth

/-!
# Nothing is counted twice

What a check counts is there in the tree: a rule counts its own node once and visits each part at
most once, in whatever order and however far it gets. So no counter goes up by more than what there
is to count, in trees of any shape.

- `Metrics.ofNodes`, `Node.ceiling`: what there is to count in some nodes and in a tree.
- `Check.Adds`: a check that counts no more than a bound. There is a lemma for each rule.
- `visitWithin_adds`: a visit counts no more than there is in its tree.
- `Walker.check_counts_at_most`: neither does a check.
-/

namespace Census

/-! ## What there is to count -/

namespace Metrics

/-- Metrics are compared counter by counter. -/
instance : PartialOrder Metrics where
  le a b := a.declarations ≤ b.declarations ∧ a.whileLoops ≤ b.whileLoops ∧
    a.conditionals ≤ b.conditionals ∧ a.forLoops ≤ b.forLoops ∧ a.operators ≤ b.operators
  le_refl a := by simp
  le_trans a b c h h' := by omega
  le_antisymm a b h h' := by
    obtain ⟨⟩ := a
    obtain ⟨⟩ := b
    simp only [mk.injEq] at h h' ⊢
    omega

/-- Counts are compared counter by counter. -/
theorem le_def {a b : Metrics} : a ≤ b ↔
    a.declarations ≤ b.declarations ∧ a.whileLoops ≤ b.whileLoops ∧
      a.conditionals ≤ b.conditionals ∧ a.forLoops ≤ b.forLoops ∧ a.operators ≤ b.operators :=
  .rfl

instance : IsOrderedAddMonoid Metrics where
  add_le_add_left a b h c := by
    simp only [le_def, add_def] at h ⊢
    omega

/-- Counters are natural numbers, so no bound is below nothing. -/
theorem zero_le (a : Metrics) : 0 ≤ a := by
  simp [le_def, zero_def]

theorem le_add_right (a b : Metrics) : a ≤ a + b := le_add_of_nonneg_right (zero_le b)

theorem le_add_left (a b : Metrics) : a ≤ b + a := le_add_of_nonneg_left (zero_le b)

end Metrics

/-- How many operators there are in a node itself: those between two or more operands, that of a
comparison of two operands, and those before an operand. -/
def Node.applications (node : Node) : Nat :=
  match node.kind with
  | .sum _ => node.children.length - 1
  | .product _ => node.children.length - 1
  | .logical _ => node.children.length - 1
  | .comparison (some _) => if node.children.length = 2 then 1 else 0
  | .negation operators => operators.length
  | .signed operators => operators.length
  | _ => 0

/-- What there is to count in some nodes, apart from their parts. -/
def Metrics.ofNodes (nodes : List Node) : Metrics where
  declarations := nodes.countP (·.kind.isDeclaration)
  whileLoops := nodes.countP (·.kind = .whileLoop)
  conditionals := nodes.countP (·.kind = .conditional)
  forLoops := nodes.countP fun node => node.kind = .forLoop ∨ node.kind = .foreachLoop
  operators := (nodes.map Node.applications).sum

/-- What there is to count in two rows of nodes adds up. -/
theorem Metrics.ofNodes_append (nodes nodes' : List Node) :
    ofNodes (nodes ++ nodes') = ofNodes nodes + ofNodes nodes' := by
  simp only [ofNodes, add_def, List.countP_append, List.map_append, List.sum_append]

namespace Node

/-- What there is to count in a tree. -/
def ceiling (tree : Node) : Metrics := .ofNodes tree.nodes

/-- What there is to count in several trees. -/
def ceilingOfAll (trees : List Node) : Metrics := (trees.map ceiling).sum

variable {kind : NodeKind} {children trees : List Node} {span : Span}

/-- The nodes of several trees are those of the first one, the second one, and so on. -/
theorem ofNodes_flatMap_nodes (trees : List Node) :
    Metrics.ofNodes (trees.flatMap nodes) = ceilingOfAll trees := by
  induction trees with
  | nil => rfl
  | cons tree others ih =>
    rw [List.flatMap_cons, Metrics.ofNodes_append, ih]
    rfl

/-- There is a node, and there are its parts. -/
theorem ceiling_mk : ceiling ⟨kind, children, span⟩
    = Metrics.ofNodes [⟨kind, children, span⟩] + ceilingOfAll children := by
  rw [ceiling, nodes_mk, ← List.singleton_append, Metrics.ofNodes_append, ofNodes_flatMap_nodes]

theorem ceilingOfAll_cons (tree : Node) (others : List Node) :
    ceilingOfAll (tree :: others) = tree.ceiling + ceilingOfAll others := rfl

/-- The order of the trees does not matter, so visits may take them in any order. -/
theorem ceilingOfAll_perm {trees' : List Node} (h : trees.Perm trees') :
    ceilingOfAll trees = ceilingOfAll trees' := (h.map ceiling).sum_eq

end Node

/-! ## What is counted -/

namespace Check

variable {α β : Type} {bound bound' : Metrics} {check : Check α} {next : α → Check β}

/-- However the check ends, no counter has gone down, and none has gone up by more than the bound
says. -/
def Adds (bound : Metrics) (check : Check α) : Prop :=
  ∀ s, ∃ counts ≤ bound, (check.run.run s).2.metrics = s.metrics + counts

/-- A check may be given more room than it needs. -/
theorem Adds.mono (h : Adds bound check) (hbound : bound ≤ bound') : Adds bound' check := by
  intro s
  obtain ⟨counts, hcounts, hmetrics⟩ := h s
  exact ⟨counts, hcounts.trans hbound, hmetrics⟩

/-- Bounds of checks in a row add up, also if the second one is not run. -/
theorem Adds.bind (h : Adds bound check) (hnext : ∀ answer, Adds bound' (next answer)) :
    Adds (bound + bound') (check >>= next) := by
  intro s
  obtain ⟨counts, hcounts, hmetrics⟩ := h s
  rw [run_bind]
  rcases hrun : check.run.run s with ⟨problem | answer, between⟩
  · rw [hrun] at hmetrics
    exact ⟨counts, hcounts.trans (Metrics.le_add_right _ _), hmetrics⟩
  · rw [hrun] at hmetrics
    obtain ⟨counts', hcounts', hmetrics'⟩ := hnext answer between
    refine ⟨counts + counts', add_le_add hcounts hcounts', ?_⟩
    rw [hmetrics', show between.metrics = s.metrics + counts from hmetrics, add_assoc]

/-- Steps before a check that count nothing. -/
theorem Adds.before (h : Adds 0 check) (hnext : ∀ answer, Adds bound (next answer)) :
    Adds bound (check >>= next) := by
  have hboth := h.bind hnext
  rwa [zero_add] at hboth

/-- Steps behind a check that count nothing. -/
theorem Adds.andThen (h : Adds bound check) (hnext : ∀ answer, Adds 0 (next answer)) :
    Adds bound (check >>= next) := by
  have hboth := h.bind hnext
  rwa [add_zero] at hboth

/-- Whichever way a decision goes, no more than the bound is counted. -/
theorem adds_ite {p : Prop} [Decidable p] {check' : Check α} (h : Adds bound check)
    (h' : Adds bound check') : Adds bound (if p then check else check') := by
  split
  · exact h
  · exact h'

/-! ### Steps -/

/-- A check that leaves its state alone counts nothing. -/
theorem adds_of_still (h : ∀ s, (check.run.run s).2 = s) : Adds bound check := fun s =>
  ⟨0, Metrics.zero_le bound, by rw [h, add_zero]⟩

theorem adds_pure (answer : α) : Adds bound (pure answer : Check α) := adds_of_still fun _ => rfl

/-- Who fails counts nothing. -/
theorem adds_throw (problem : Diagnostic) : Adds bound (throw problem : Check α) :=
  adds_of_still fun _ => rfl

/-- Nothing is counted behind a failure. -/
theorem adds_throw_bind (problem : Diagnostic) (next : β → Check α) :
    Adds bound (throw problem >>= next) :=
  adds_of_still fun _ => rfl

theorem adds_malformed (what : Malformation) (span : Span) :
    Adds bound (malformed what span : Check α) :=
  adds_throw _

theorem adds_nameOf (node : Node) : Adds bound (nameOf node) := by
  unfold nameOf
  split
  · exact adds_pure _
  · exact adds_malformed _ _

theorem adds_typeOf (produced : Option ValueType) (node : Node) :
    Adds bound (typeOf produced node) := by
  unfold typeOf
  split
  · exact adds_pure _
  · exact adds_malformed _ _

theorem adds_lookupType (name : String) (span : Span) : Adds bound (lookupType name span) :=
  adds_of_still fun s => by rw [run_lookupType]

/-- A part that a check goes on with is there. -/
theorem adds_child_bind {node : Node} {index : Nat} {next : Node → Check β}
    (h : ∀ part, node.children[index]? = some part → Adds bound (next part)) :
    Adds bound (child node index >>= next) := by
  unfold child Node.child?
  cases hpart : node.children[index]? with
  | none => exact adds_throw_bind _ _
  | some part => exact h part hpart

/-- A step of counting counts what it says. -/
theorem adds_count {step : Metrics → Metrics} (h : ∀ metrics, step metrics = metrics + bound) :
    Adds bound (count step) := fun s => ⟨bound, le_refl bound, h s.metrics⟩

/-- A declaration counts for one, and for nothing if it is refused. -/
theorem adds_declare (name : String) (type : ValueType) (span : Span) :
    Adds { declarations := 1 } (declare name type span) := by
  intro s
  rw [run_declare]
  cases s.symbols.lookup? name with
  | none => exact ⟨{ declarations := 1 }, le_refl _, rfl⟩
  | some earlier => exact ⟨0, Metrics.zero_le _, rfl⟩

end Check

namespace Rule

open Check Node

variable {visit : Visit} {parent kind : NodeKind} {children nodes : List Node} {span : Span}

/-! ### Rows of visits -/

section Rows

variable (hvisit : ∀ parent, ∀ node ∈ nodes, Adds node.ceiling (visit parent node))
include hvisit

/-- By induction on the nodes: a failure on the way only leaves out what is behind it. -/
theorem visitEach_adds : Adds (ceilingOfAll nodes) (visitEach visit parent nodes) := by
  -- the fold starts with any type, as the induction meets it in the middle
  have hfold (produced : Option ValueType) : Adds (ceilingOfAll nodes)
      (nodes.foldlM (fun produced node => return (← visit parent node).or produced) produced) := by
    induction nodes generalizing produced with
    | nil => exact adds_pure produced
    | cons node others ih =>
      rw [List.foldlM_cons, ceilingOfAll_cons]
      have hfirst := (hvisit parent node List.mem_cons_self).andThen fun answer =>
        adds_pure (answer.or produced)
      exact hfirst.bind (ih fun parent other hother => hvisit parent other (.tail _ hother))
  exact hfold none

/-- Insisting on a type counts nothing. -/
theorem visitTyped_adds {node : Node} (hnode : node ∈ nodes) :
    Adds node.ceiling (visitTyped visit parent node) :=
  (hvisit parent node hnode).andThen fun _ => adds_typeOf _ _

theorem operand_adds {node : Node} (hnode : node ∈ nodes) (expected : ValueType) :
    Adds node.ceiling (operand visit parent expected node) :=
  (visitTyped_adds hvisit hnode).andThen fun _ => adds_ite (adds_pure _) (adds_throw _)

/-- Each operand is visited once. -/
theorem mapM_visitTyped_adds :
    Adds (ceilingOfAll nodes) (nodes.mapM (visitTyped visit parent)) := by
  induction nodes with
  | nil => exact adds_pure _
  | cons node others ih =>
    rw [List.mapM_cons, ceilingOfAll_cons]
    refine (visitTyped_adds hvisit List.mem_cons_self).bind fun _ => ?_
    exact (ih fun parent other hother => hvisit parent other (.tail _ hother)).andThen fun _ =>
      adds_pure _

/-- Each operand is visited once, as long as their types are right. -/
theorem forM_operand_adds (expected : ValueType) :
    Adds (ceilingOfAll nodes) (nodes.forM (operand visit parent expected)) := by
  induction nodes with
  | nil => exact adds_pure _
  | cons node others ih =>
    exact (operand_adds hvisit List.mem_cons_self expected).bind fun _ =>
      ih fun parent other hother => hvisit parent other (.tail _ hother)

end Rows

/-! ### Rules -/

section Rules

variable (hvisit : ∀ parent, ∀ child ∈ children, Adds child.ceiling (visit parent child))
include hvisit

theorem visitChildren_adds :
    Adds (ceilingOfAll children) (visitChildren visit ⟨kind, children, span⟩) :=
  visitEach_adds hvisit

/-- A declaration visits its identifier and declares one variable; other parts are never looked at.
-/
theorem declaration_adds (type : ValueType) :
    Adds ({ declarations := 1 } + ceilingOfAll children)
      (declaration visit ⟨kind, children, span⟩ type) := by
  refine adds_child_bind fun target htarget => ?_
  have hmem : target ∈ children := List.mem_of_getElem? htarget
  have hbound : target.ceiling ≤ ceilingOfAll children :=
    List.single_le_sum (by simp [Metrics.zero_le]) _ (List.mem_map_of_mem hmem)
  refine Adds.mono ?_ (add_comm (ceilingOfAll children) _ ▸ add_le_add_left hbound _)
  exact (hvisit kind target hmem).bind fun _ => (adds_nameOf target).before fun name =>
    adds_declare name type target.span

/-- An assignment visits both parts once and counts nothing of its own. -/
theorem assignment_adds :
    Adds (ceilingOfAll children) (assignment visit ⟨kind, children, span⟩) :=
  adds_child_bind fun _ _ => adds_child_bind fun _ _ =>
    (visitChildren_adds hvisit).andThen fun _ => (adds_nameOf _).before fun _ =>
    (adds_lookupType _ _).before fun _ => (adds_typeOf _ _).before fun _ =>
    adds_ite (adds_pure _) (adds_throw _)

/-- The condition is visited in the end, and was left out before. -/
theorem conditional_adds (index : Nat) :
    Adds (ceilingOfAll children) (conditional visit ⟨kind, children, span⟩ index) := by
  refine adds_child_bind fun test htest => ?_
  obtain ⟨hlength, rfl⟩ := List.getElem?_eq_some_iff.mp htest
  have hbound : ceilingOfAll children
      = ceilingOfAll (children.eraseIdx index) + children[index].ceiling := by
    rw [← ceilingOfAll_perm (List.getElem_cons_eraseIdx_perm hlength), ceilingOfAll_cons, add_comm]
  rw [hbound]
  refine Adds.bind (visitEach_adds fun parent other hother => ?_) fun _ => ?_
  · exact hvisit parent other (List.mem_of_mem_eraseIdx hother)
  · exact (visitTyped_adds hvisit (List.getElem_mem hlength)).andThen fun _ =>
      adds_ite (adds_pure _) (adds_throw _)

/-- The first three parts are visited, one after the other. -/
theorem foreachLoop_adds :
    Adds (ceilingOfAll children) (foreachLoop visit ⟨kind, children, span⟩) := by
  refine adds_child_bind fun entry hentry => adds_child_bind fun array harray =>
    adds_child_bind fun body hbody => ?_
  obtain ⟨others, rfl⟩ : ∃ others, children = entry :: array :: body :: others := by
    match children with
    | [] | [_] | [_, _] => simp at hbody
    | _ :: _ :: _ :: others => simp_all
  have hbound : entry.ceiling + (array.ceiling + body.ceiling)
      ≤ ceilingOfAll (entry :: array :: body :: others) := by
    rw [ceilingOfAll_cons, ceilingOfAll_cons, ceilingOfAll_cons, ← add_assoc array.ceiling]
    exact add_le_add_right (Metrics.le_add_right _ _) _
  refine Adds.mono ?_ hbound
  exact (visitTyped_adds hvisit (by simp)).bind fun _ => (hvisit _ array (by simp)).bind fun _ =>
    (adds_nameOf _).before fun _ => (adds_lookupType _ _).before fun _ =>
    adds_ite
      (adds_ite ((hvisit _ body (by simp)).andThen fun _ => adds_pure _) (adds_throw_bind _ _))
      (adds_throw_bind _ _)

/-- What there is to count in the node comes behind what there is in its parts. -/
theorem comparison_adds (operator : Option String) :
    Adds (ceilingOfAll children + Metrics.ofNodes [⟨.comparison operator, children, span⟩])
      (comparison visit ⟨.comparison operator, children, span⟩ operator) := by
  refine (mapM_visitTyped_adds hvisit).bind fun types => ?_
  split
  · exact adds_pure _
  · next operator hchildren =>
    have hown : Metrics.ofNodes [⟨.comparison (some operator), children, span⟩]
        = { operators := 1 } := by
      rw [show children = _ from hchildren]
      rfl
    rw [hown]
    refine adds_ite (adds_ite ?_ (adds_throw_bind _ _)) (adds_throw_bind _ _)
    exact (adds_count fun _ => rfl).andThen fun _ => adds_pure _
  · exact adds_malformed _ _

/-- The operators between the operands are one fewer than these. -/
theorem chain_adds (type : ValueType) :
    Adds (ceilingOfAll children + { operators := children.length - 1 })
      (chain visit ⟨kind, children, span⟩ type) := by
  match children with
  | [] => exact adds_malformed _ _
  | [_] => exact (visitChildren_adds hvisit).mono (Metrics.le_add_right _ _)
  | _ :: _ :: _ =>
    exact (forM_operand_adds hvisit type).bind fun _ =>
      (adds_count fun _ => rfl).andThen fun _ => adds_pure _

/-- The operators before an operand are counted all at once, behind the visit. -/
theorem stacked_adds (operators : List String) (refused : ValueType) :
    Adds (ceilingOfAll children + { operators := operators.length })
      (stacked visit ⟨kind, children, span⟩ operators refused) := by
  have hcounted (produced : Option ValueType) : Adds { operators := operators.length }
      (do count fun metrics => { metrics with operators := metrics.operators + operators.length }
          return produced) :=
    (adds_count fun _ => rfl).andThen fun _ => adds_pure _
  refine (visitChildren_adds hvisit).bind fun produced => ?_
  cases operators with
  | nil => exact hcounted _
  | cons => exact (adds_typeOf _ _).before fun _ => adds_ite (adds_throw_bind _ _) (hcounted _)

theorem literal_adds (type : ValueType) :
    Adds (ceilingOfAll children) (literal visit ⟨kind, children, span⟩ type) :=
  (visitChildren_adds hvisit).andThen fun _ => adds_pure _

omit hvisit in
/-- Identifiers are looked up, which counts nothing. -/
theorem identifier_adds {bound : Metrics} (node : Node) (name : String) :
    Adds bound (identifier parent node name) :=
  adds_ite (adds_pure _) ((adds_lookupType _ _).before fun _ => adds_pure _)

/-- A rule counts its node once, and its parts as far as it visits them. -/
theorem apply_adds : Adds (ceiling ⟨kind, children, span⟩)
    (apply visit parent ⟨kind, children, span⟩) := by
  -- a rule runs a check and answers something, perhaps behind a count
  have hthen {α β : Type} {bound : Metrics} {check : Check α} (h : Adds bound check) (answer : β) :
      Adds bound (do let _ ← check; return answer) := h.andThen fun _ => adds_pure _
  have hcounted {α β : Type} {own bound : Metrics} {step : Metrics → Metrics} {check : Check α}
      (hstep : ∀ metrics, step metrics = metrics + own) (h : Adds bound check) (answer : β) :
      Adds (own + bound) (do count step; let _ ← check; return answer) :=
    (adds_count hstep).bind fun _ => hthen h answer
  rw [ceiling_mk]
  cases kind with
  | program | declaration | block | statement | expression | value =>
    exact (visitChildren_adds hvisit).mono (Metrics.le_add_left _ _)
  | scalarDeclaration keyword | listDeclaration keyword =>
    exact hthen (declaration_adds hvisit _) _
  | assignment => exact hthen ((assignment_adds hvisit).mono (Metrics.le_add_left _ _)) _
  | foreachLoop => exact hcounted (fun _ => rfl) (foreachLoop_adds hvisit) _
  | forLoop | conditional | whileLoop => exact hcounted (fun _ => rfl) (conditional_adds hvisit _) _
  | comparison operator =>
    rw [add_comm]
    exact (comparison_adds hvisit operator).andThen fun _ => adds_pure _
  | sum operators | product operators | logical operators =>
    rw [add_comm]
    exact chain_adds hvisit _
  | negation operators | signed operators =>
    rw [add_comm]
    exact stacked_adds hvisit operators _
  | boolean truth | integer digits =>
    exact (literal_adds hvisit _).mono (Metrics.le_add_left _ _)
  | identifier name => exact identifier_adds _ _

end Rules

end Rule

open Check

/-- A visit counts no more than there is in its tree, however many levels are left to it. -/
theorem visitWithin_adds (levels : Nat) (parent : NodeKind) (node : Node) :
    Adds node.ceiling (visitWithin levels parent node) := by
  induction levels generalizing parent node with
  | zero => exact adds_malformed _ _
  | succ levels ih =>
    obtain ⟨kind, children, span⟩ := node
    exact Rule.apply_adds fun parent child _ => ih parent child

/-- A walk visits the parts of the root and counts nothing for the root itself. -/
theorem walkProgramBy_adds (levels : Nat) (tree : Node) :
    Adds tree.ceiling (walkProgramBy (visitWithin levels) tree) := by
  obtain ⟨kind, children, span⟩ := tree
  refine adds_ite ?_ (adds_throw_bind _ _)
  have hparts : Adds (Node.ceilingOfAll children)
      (Rule.visitChildren (visitWithin levels) ⟨kind, children, span⟩) :=
    Rule.visitChildren_adds fun parent child _ => visitWithin_adds levels parent child
  rw [Node.ceiling_mk]
  exact (hparts.andThen fun _ => adds_pure _).mono (Metrics.le_add_left _ _)

/-- **Nothing is counted twice**. Whatever the tree, the state of the walker and the outcome, no
counter goes down in a check, and none goes up by more than there is of its constructs in the
tree. -/
theorem Walker.check_counts_at_most (walker : Walker) (tree : Node) :
    walker.metrics ≤ (walker.check tree).2.metrics ∧
      (walker.check tree).2.metrics ≤ walker.metrics + tree.ceiling := by
  obtain ⟨s, depth⟩ := walker
  have hwalk : Follows depth (walkProgramBy visit tree)
      (walkProgramBy (visitWithin (depthLimit - depth)) tree) :=
    walkProgramBy_inherits (inherited_follows depth) (fun _ _ => visit_follows) tree
  obtain ⟨counts, hcounts, hmetrics⟩ := walkProgramBy_adds (depthLimit - depth) tree s
  have hcheck : (check ⟨s, depth⟩ tree).2.metrics = s.metrics + counts := by
    rw [check, run_checkProgramBy, hwalk s]
    exact hmetrics
  rw [hcheck]
  exact ⟨Metrics.le_add_right _ _, add_le_add_right hcounts _⟩

end Census
