import Census.Proofs.Check.Depth
import Census.Proofs.Check.Typing
import Census.Proofs.Grammar.Shapes

/-!
# Checking expressions

A visit to an expression succeeds exactly when the expression has a type under the declarations
made so far. It then answers the type, declares nothing, and counts what is to be counted.

- `Synthesizes`: what a right visit to an expression does.
- `visitWithin_synthesizes`: visits to expressions that parsing can give are right.
-/

namespace Census

open Check

/-- The state with more counted. -/
def Checker.counting (s : Checker) (metrics : Metrics) : Checker :=
  { s with metrics := s.metrics + metrics }

namespace Checker

variable {s : Checker}

/-- Counting twice is counting the sum. -/
@[simp] theorem counting_counting (metrics metrics' : Metrics) :
    (s.counting metrics).counting metrics' = s.counting (metrics + metrics') := by
  simp only [counting, add_assoc]

@[simp] theorem counting_zero : s.counting 0 = s := by
  simp only [counting, add_zero]

/-- Counting operators one by one or all at once. -/
theorem operators_counting (metrics : Metrics) (operators : Nat) :
    ({ s.counting metrics with metrics :=
      { (s.counting metrics).metrics with
        operators := (s.counting metrics).metrics.operators + operators } } : Checker)
      = s.counting ({ operators } + metrics) := by
  rw [add_comm ({ operators } : Metrics) metrics, ← counting_counting]
  rfl

end Checker

/-- A visit succeeds exactly with the type of the expression. -/
def Synthesizes (visit : Visit) (parent : NodeKind) (tree : Node) : Prop :=
  ∀ s produced s', Succeeds (visit parent tree) s produced s' ↔
    ∃ type, HasType s.symbols.types tree type ∧ produced = some type ∧ s' = s.counting tree.counts

namespace Rule

variable {visit : Visit} {parent kind : NodeKind} {s s' : Checker} {produced : Option ValueType}

/-! ## Visits in a row -/

@[simp] theorem succeeds_visitEach_nil :
    Succeeds (visitEach visit parent []) s produced s' ↔ produced = none ∧ s' = s :=
  succeeds_pure

/-- What a row of visits answers, with a type that was produced before them. -/
private theorem succeeds_foldlM_iff {nodes : List Node} {before : Option ValueType} :
    Succeeds (nodes.foldlM (fun produced node => return (← visit parent node).or produced) before)
        s produced s' ↔
      ∃ last, Succeeds (visitEach visit parent nodes) s last s' ∧ produced = last.or before := by
  unfold visitEach
  induction nodes generalizing before s produced with
  | nil => simp [and_comm]
  | cons node others ih =>
    simp only [List.foldlM_cons, bind_pure_comp, succeeds_bind, succeeds_map]
    constructor
    · rintro ⟨_, between, ⟨first, hfirst, rfl⟩, hothers⟩
      obtain ⟨last, hlast, rfl⟩ := ih.mp hothers
      refine ⟨last.or first, ⟨first, between, ⟨first, hfirst, by simp⟩, ?_⟩, ?_⟩
      · exact ih.mpr ⟨last, hlast, rfl⟩
      · rw [Option.or_assoc]
    · rintro ⟨_, ⟨_, between, ⟨first, hfirst, rfl⟩, hothers⟩, rfl⟩
      obtain ⟨last, hlast, rfl⟩ := ih.mp hothers
      refine ⟨_, between, ⟨first, hfirst, rfl⟩, ih.mpr ⟨last, hlast, ?_⟩⟩
      rw [Option.or_none, Option.or_assoc]

/-- The last node that produces a type decides what is answered. -/
@[simp] theorem succeeds_visitEach_cons {node : Node} {others : List Node} :
    Succeeds (visitEach visit parent (node :: others)) s produced s' ↔
      ∃ first between last, Succeeds (visit parent node) s first between ∧
        Succeeds (visitEach visit parent others) between last s' ∧ produced = last.or first := by
  have hrow : visitEach visit parent (node :: others) = visit parent node >>= fun first =>
      others.foldlM (fun produced node => return (← visit parent node).or produced) first := by
    simp [visitEach]
  -- the first visit starts the fold over the others
  simp only [hrow, succeeds_bind, succeeds_foldlM_iff]
  grind

/-- Insisting on a type adds nothing to a visit that produces one. -/
@[simp] theorem succeeds_visitTyped {node : Node} {type : ValueType} :
    Succeeds (visitTyped visit parent node) s type s' ↔
      Succeeds (visit parent node) s (some type) s' := by
  simp [visitTyped]

theorem succeeds_visitEach_singleton {node : Node} :
    Succeeds (visitEach visit parent [node]) s produced s' ↔
      Succeeds (visit parent node) s produced s' := by
  simp

/-! ## Rules of expressions -/

section Rules

variable {operand : Node} {operands : List Node} {span : Span}

/-- Visiting the only part of a node is all there is to do where nothing is counted. -/
theorem visitChildren_synthesizes (hkind : kind.passes = true) (hcounts : kind.counts 1 = 0)
    (h : Synthesizes visit kind operand) :
    Succeeds (visitChildren visit ⟨kind, [operand], span⟩) s produced s' ↔
      ∃ type, HasType s.symbols.types ⟨kind, [operand], span⟩ type ∧ produced = some type ∧
        s' = s.counting (Node.counts ⟨kind, [operand], span⟩) := by
  rw [visitChildren, succeeds_visitEach_singleton, h]
  simp [hasType_alone_iff hkind, Node.counts_mk, hcounts]

/-- An operand must have the type that its operators need. -/
theorem succeeds_operand {needed : ValueType} {answer : PUnit}
    (h : Synthesizes visit kind operand) :
    Succeeds (Rule.operand visit kind needed operand) s answer s' ↔
      HasType s.symbols.types operand needed ∧ s' = s.counting operand.counts := by
  simp only [Rule.operand, succeeds_bind, succeeds_visitTyped, h _ _ _, succeeds_demand,
    succeeds_pure, true_and]
  constructor
  · rintro ⟨_, _, ⟨type, htype, ⟨⟩, rfl⟩, rfl, rfl⟩
    exact ⟨htype, rfl⟩
  · rintro ⟨htype, rfl⟩
    exact ⟨needed, _, ⟨needed, htype, rfl, rfl⟩, rfl, rfl⟩

/-- Operands in a row all have the type that is needed. -/
theorem succeeds_forM_operand {needed : ValueType} {answer : PUnit}
    (h : ∀ operand ∈ operands, Synthesizes visit kind operand) :
    Succeeds (operands.forM (Rule.operand visit kind needed)) s answer s' ↔
      (∀ operand ∈ operands, HasType s.symbols.types operand needed) ∧
        s' = s.counting (operands.map Node.counts).sum := by
  induction operands generalizing s with
  | nil => simp [List.forM]
  | cons operand others ih =>
    obtain ⟨hfirst, hothers⟩ := List.forall_mem_cons.mp h
    show Succeeds (Rule.operand visit kind needed operand >>= fun _ => others.forM _) _ _ _ ↔ _
    rw [succeeds_bind, List.forall_mem_cons, List.map_cons, List.sum_cons]
    constructor
    · rintro ⟨_, between, hrun, hrest⟩
      obtain ⟨htype, rfl⟩ := (succeeds_operand hfirst).mp hrun
      obtain ⟨htypes, rfl⟩ := (ih hothers).mp hrest
      exact ⟨⟨htype, htypes⟩, by simp⟩
    · rintro ⟨⟨htype, htypes⟩, rfl⟩
      exact ⟨⟨⟩, _, (succeeds_operand hfirst).mpr ⟨htype, rfl⟩,
        (ih hothers).mpr ⟨htypes, by simp⟩⟩

/-- A lone operand passes its type on; several operands need one type and count the operators
between them. -/
theorem chain_synthesizes {needed : ValueType} (hkind : kind.joined? = some needed)
    (hsome : operands ≠ []) (h : ∀ operand ∈ operands, Synthesizes visit kind operand) :
    Succeeds (chain visit ⟨kind, operands, span⟩ needed) s produced s' ↔
      ∃ type, HasType s.symbols.types ⟨kind, operands, span⟩ type ∧ produced = some type ∧
        s' = s.counting (Node.counts ⟨kind, operands, span⟩) := by
  have hcounts (parts : Nat) : kind.counts parts = { operators := parts - 1 } := by
    cases kind <;> first | rfl | cases hkind
  match operands, hsome, h with
  | [operand], _, h =>
    have hpasses : kind.passes = true := by cases kind <;> first | rfl | cases hkind
    exact visitChildren_synthesizes hpasses (hcounts 1) (h operand List.mem_cons_self)
  | first :: second :: others, _, h =>
    have hmany : 2 ≤ (first :: second :: others).length := by simp
    simp only [chain, succeeds_bind, succeeds_forM_operand h, succeeds_count, succeeds_pure,
      hasType_joined_iff hkind hmany, Node.counts_mk, hcounts]
    constructor
    · rintro ⟨_, _, ⟨htypes, rfl⟩, _, _, rfl, rfl, rfl⟩
      exact ⟨needed, ⟨rfl, htypes⟩, rfl, Checker.operators_counting _ _⟩
    · rintro ⟨_, ⟨rfl, htypes⟩, rfl, rfl⟩
      exact ⟨⟨⟩, _, ⟨htypes, rfl⟩, ⟨⟩, _, rfl, rfl, (Checker.operators_counting _ _).symm⟩

/-- An operand passes its type on unless there are operators that refuse it. -/
theorem stacked_synthesizes {operators : List String} {refused : ValueType}
    (hkind : kind.stacked? = some (operators, refused)) (h : Synthesizes visit kind operand) :
    Succeeds (stacked visit ⟨kind, [operand], span⟩ operators refused) s produced s' ↔
      ∃ type, HasType s.symbols.types ⟨kind, [operand], span⟩ type ∧ produced = some type ∧
        s' = s.counting (Node.counts ⟨kind, [operand], span⟩) := by
  have hcounts : kind.counts 1 = { operators := operators.length } := by
    cases kind <;> simp only [NodeKind.stacked?, reduceCtorEq, Option.some.injEq,
      Prod.mk.injEq] at hkind <;> rw [← hkind.1] <;> rfl
  have hsome : Node.counts ⟨kind, [operand], span⟩
      = { operators := operators.length } + operand.counts := by
    simp [Node.counts_mk, hcounts]
  simp only [stacked, visitChildren, succeeds_bind, succeeds_visitEach_singleton, h _ _ _,
    hasType_stacked_iff hkind, hsome]
  -- without operators nothing is refused, so the rule does not look at the type
  cases operators with
  | nil =>
    simp only [succeeds_bind, succeeds_count, succeeds_pure]
    constructor
    · rintro ⟨_, _, ⟨type, htype, rfl, rfl⟩, _, _, rfl, rfl, rfl⟩
      exact ⟨type, ⟨htype, by simp⟩, rfl, Checker.operators_counting _ _⟩
    · rintro ⟨type, ⟨htype, -⟩, rfl, rfl⟩
      exact ⟨_, _, ⟨type, htype, rfl, rfl⟩, ⟨⟩, _, rfl, rfl,
        (Checker.operators_counting _ _).symm⟩
  | cons operator others =>
    simp only [succeeds_bind, succeeds_typeOf, succeeds_ban_bind, succeeds_count, succeeds_pure]
    constructor
    · rintro ⟨_, _, ⟨type, htype, rfl, rfl⟩, found, _, ⟨⟨⟩, rfl⟩, hrefused, _, _, rfl, rfl, rfl⟩
      exact ⟨type, ⟨htype, fun _ => hrefused⟩, rfl, Checker.operators_counting _ _⟩
    · rintro ⟨type, ⟨htype, hrefused⟩, rfl, rfl⟩
      exact ⟨_, _, ⟨type, htype, rfl, rfl⟩, type, _, ⟨rfl, rfl⟩, hrefused (by simp), ⟨⟩, _, rfl,
        rfl, (Checker.operators_counting _ _).symm⟩

/-- A lone operand passes its type on and counts nothing more. -/
theorem comparison_synthesizes_alone {type : ValueType} {operator : Option String}
    (h : Synthesizes visit (.comparison operator) operand) :
    Succeeds (comparison visit ⟨.comparison operator, [operand], span⟩ operator) s type s' ↔
      HasType s.symbols.types operand type ∧ s' = s.counting operand.counts := by
  simp [comparison, h _ _ _]

/-- Both operands are visited before their types are compared, and the second starts with what the
first has counted. -/
theorem comparison_synthesizes {type : ValueType} {operator : String} {left right : Node}
    (hleft : Synthesizes visit (.comparison (some operator)) left)
    (hright : Synthesizes visit (.comparison (some operator)) right) :
    Succeeds (comparison visit ⟨.comparison (some operator), [left, right], span⟩ (some operator))
        s type s' ↔
      HasType s.symbols.types ⟨.comparison (some operator), [left, right], span⟩ type ∧
        s' = s.counting (Node.counts ⟨.comparison (some operator), [left, right], span⟩) := by
  have hcounts : Node.counts ⟨.comparison (some operator), [left, right], span⟩
      = { operators := 1 } + (left.counts + right.counts) := by
    simp [Node.counts_mk, NodeKind.counts]
  rw [hasType_compared_iff, hcounts]
  simp only [comparison, List.mapM_cons, List.mapM_nil, pure_bind, bind_assoc, succeeds_bind,
    succeeds_visitTyped, hleft _ _ _, hright _ _ _, succeeds_demand_bind, succeeds_count,
    succeeds_pure, isEquality, Bool.or_eq_true, beq_iff_eq, decide_eq_true_eq, or_assoc]
  constructor
  · rintro ⟨_, _, ⟨common, htype, ⟨⟩, rfl⟩, _, _, ⟨_, htype', ⟨⟩, rfl⟩, rfl, horder, _, _, rfl, rfl,
      rfl⟩
    refine ⟨⟨rfl, _, htype, htype', horder⟩, ?_⟩
    rw [← Checker.operators_counting, Checker.counting_counting]
  · rintro ⟨⟨rfl, common, htype, htype', horder⟩, rfl⟩
    refine ⟨common, _, ⟨common, htype, rfl, rfl⟩, common, _, ⟨common, htype', rfl, rfl⟩, rfl,
      horder, ⟨⟩, _, rfl, rfl, ?_⟩
    rw [← Checker.operators_counting, Checker.counting_counting]

/-! Whatever a construct of an expression is, its rule is right if its parts are visited rightly. -/

/-- A node around an expression has the type of what is inside. -/
theorem apply_synthesizes_transparent (hkind : kind = .value ∨ kind = .expression)
    (h : Synthesizes visit kind operand) :
    Synthesizes (apply visit) parent ⟨kind, [operand], span⟩ := by
  rcases hkind with rfl | rfl <;> exact fun _ _ _ => visitChildren_synthesizes rfl rfl h

/-- The three kinds of chains differ in the type that they need. -/
theorem apply_synthesizes_chain {needed : ValueType} (hkind : kind.joined? = some needed)
    (hsome : operands ≠ []) (h : ∀ operand ∈ operands, Synthesizes visit kind operand) :
    Synthesizes (apply visit) parent ⟨kind, operands, span⟩ := by
  intro s produced s'
  rw [← chain_synthesizes hkind hsome h]
  cases kind <;> simp only [NodeKind.joined?, reduceCtorEq, Option.some.injEq] at hkind <;>
    subst hkind <;> rfl

theorem apply_synthesizes_stacked {operators : List String} {refused : ValueType}
    (hkind : kind.stacked? = some (operators, refused)) (h : Synthesizes visit kind operand) :
    Synthesizes (apply visit) parent ⟨kind, [operand], span⟩ := by
  intro s produced s'
  rw [← stacked_synthesizes hkind h]
  cases kind <;> simp only [NodeKind.stacked?, reduceCtorEq, Option.some.injEq,
    Prod.mk.injEq] at hkind <;> obtain ⟨rfl, rfl⟩ := hkind <;> rfl

theorem apply_synthesizes_alone (h : Synthesizes visit (.comparison none) operand) :
    Synthesizes (apply visit) parent ⟨.comparison none, [operand], span⟩ := by
  intro s produced s'
  show Succeeds (comparison visit _ none >>= fun type => pure (some type)) _ _ _ ↔ _
  simp only [succeeds_bind, succeeds_pure, comparison_synthesizes_alone h,
    hasType_alone_iff (rfl : NodeKind.passes (.comparison none) = true)]
  have hcounts : Node.counts ⟨.comparison none, [operand], span⟩ = operand.counts := by
    simp [Node.counts_mk, NodeKind.counts]
  rw [hcounts]
  constructor
  · rintro ⟨type, _, ⟨htype, rfl⟩, rfl, rfl⟩
    exact ⟨type, htype, rfl, rfl⟩
  · rintro ⟨type, htype, rfl, rfl⟩
    exact ⟨type, _, ⟨htype, rfl⟩, rfl, rfl⟩

/-- A comparison of two operands is of truth values, whatever they are. -/
theorem apply_synthesizes_comparison {operator : String} {left right : Node}
    (hleft : Synthesizes visit (.comparison (some operator)) left)
    (hright : Synthesizes visit (.comparison (some operator)) right) :
    Synthesizes (apply visit) parent ⟨.comparison (some operator), [left, right], span⟩ := by
  intro s produced s'
  show Succeeds (comparison visit _ (some operator) >>= fun type => pure (some type)) _ _ _ ↔ _
  simp only [succeeds_bind, succeeds_pure, comparison_synthesizes hleft hright]
  constructor
  · rintro ⟨type, _, ⟨htype, rfl⟩, rfl, rfl⟩
    exact ⟨type, htype, rfl, rfl⟩
  · rintro ⟨type, htype, rfl, rfl⟩
    exact ⟨type, _, ⟨htype, rfl⟩, rfl, rfl⟩

/-- A number has its type under any declarations. -/
theorem apply_synthesizes_integer {digits : String} :
    Synthesizes (apply visit) parent ⟨.integer digits, [], span⟩ := by
  intro s produced s'
  show Succeeds (literal visit ⟨.integer digits, [], span⟩ .num) _ _ _ ↔ _
  simp [literal, visitChildren, hasType_integer_iff, Node.counts_mk, NodeKind.counts, and_comm]

theorem apply_synthesizes_boolean {truth : Bool} :
    Synthesizes (apply visit) parent ⟨.boolean truth, [], span⟩ := by
  intro s produced s'
  show Succeeds (literal visit ⟨.boolean truth, [], span⟩ .bool) _ _ _ ↔ _
  simp [literal, visitChildren, hasType_boolean_iff, Node.counts_mk, NodeKind.counts, and_comm]

/-- Only as a value an identifier has a type to answer. -/
theorem apply_synthesizes_identifier {name : String} :
    Synthesizes (apply visit) .value ⟨.identifier name, [], span⟩ := by
  intro s produced s'
  have hcounts : Node.counts ⟨.identifier name, [], span⟩ = 0 := rfl
  show Succeeds (Rule.identifier .value ⟨.identifier name, [], span⟩ name) _ _ _ ↔ _
  simp only [Rule.identifier, NodeKind.isDeclaration, Bool.false_eq_true, if_false, if_true,
    succeeds_bind, succeeds_lookupType, succeeds_pure, hasType_identifier_iff,
    SymbolTable.types_eq_some_iff, hcounts, Checker.counting_zero]
  constructor
  · rintro ⟨type, _, ⟨hlookup, rfl⟩, rfl, rfl⟩
    exact ⟨type, hlookup, rfl, rfl⟩
  · rintro ⟨type, hlookup, rfl, rfl⟩
    exact ⟨type, _, ⟨hlookup, rfl⟩, rfl, rfl⟩

end Rules

end Rule

/-! ## Visits to expressions -/

/-- The constructs an expression is made of, down to values. -/
def Category.operands : List Category :=
  [.expression, .logical, .comparison, .sum, .product, .signed, .negation, .value]

/-- Literals and variables are visited rightly as values. -/
theorem visitWithin_synthesizes_leaf {tree : Node} {category : Category} {tokens : List Token}
    {levels : Nat} (hcategory : category ∈ [.identifier, .integer, .boolean])
    (h : Derives category tree tokens) (hheight : tree.height ≤ levels) :
    Synthesizes (visitWithin levels) .value tree := by
  obtain ⟨levels, rfl⟩ := Node.exists_levels hheight
  simp only [List.mem_cons, List.not_mem_nil, or_false] at hcategory
  rcases hcategory with rfl | rfl | rfl
  · obtain ⟨_, _, -, -, rfl⟩ := h.identifier
    exact Rule.apply_synthesizes_identifier
  · obtain ⟨_, _, -, -, rfl⟩ := h.integer
    exact Rule.apply_synthesizes_integer
  · obtain ⟨_, _, _, -, -, rfl⟩ := h.boolean
    exact Rule.apply_synthesizes_boolean

/-- Visits to expressions that are not too deep are right. -/
theorem visitWithin_synthesizes {tree : Node} {category : Category} {tokens : List Token}
    {levels : Nat} (h : Derives category tree tokens) (hcategory : category ∈ Category.operands)
    (hheight : tree.height ≤ levels) (parent : NodeKind) :
    Synthesizes (visitWithin levels) parent tree := by
  -- on the tree: the levels left go down with the height, the category goes down the ladder
  induction tree using Node.induction generalizing category tokens levels parent with
  | step kind children span ih =>
    obtain ⟨levels, rfl⟩ := Node.exists_levels hheight
    have hbelow := Node.height_le_of_mem hheight
    have hvisit {child : Node} {category : Category} {tokens : List Token}
        (hchild : child ∈ children) (h : Derives category child tokens)
        (hcategory : category ∈ Category.operands) (parent : NodeKind) :=
      ih child hchild h hcategory (hbelow child hchild) parent
    show Synthesizes (Rule.apply (visitWithin levels)) parent _
    simp only [Category.operands, List.mem_cons, List.not_mem_nil, or_false] at hcategory
    rcases hcategory with rfl | rfl | rfl | rfl | rfl | rfl | rfl | rfl
    · obtain ⟨content, _, ⟨⟩, hcontent⟩ := h.expression
      exact Rule.apply_synthesizes_transparent (.inr rfl)
        (hvisit List.mem_cons_self hcontent (by decide) _)
    · obtain ⟨_, first, others, _, _, _, -, ⟨⟩, -, hfirst, hothers⟩ := h.logical
      refine Rule.apply_synthesizes_chain rfl (by simp) fun operand hoperand => ?_
      obtain ⟨_, hinside⟩ := hfirst.operands hothers operand hoperand
      exact hvisit hoperand hinside (by decide) _
    · rcases h.comparison with ⟨left, _, ⟨⟩, hleft⟩ |
        ⟨left, right, _, _, _, _, -, ⟨⟩, -, hleft, hright⟩
      · exact Rule.apply_synthesizes_alone (hvisit (by simp) hleft (by decide) _)
      · exact Rule.apply_synthesizes_comparison (hvisit (by simp) hleft (by decide) _)
          (hvisit (by simp) hright (by decide) _)
    · obtain ⟨_, first, others, _, _, _, -, ⟨⟩, -, hfirst, hothers⟩ := h.sum
      refine Rule.apply_synthesizes_chain rfl (by simp) fun operand hoperand => ?_
      obtain ⟨_, hinside⟩ := hfirst.operands hothers operand hoperand
      exact hvisit hoperand hinside (by decide) _
    · obtain ⟨_, first, others, _, _, _, -, ⟨⟩, -, hfirst, hothers⟩ := h.product
      refine Rule.apply_synthesizes_chain rfl (by simp) fun operand hoperand => ?_
      obtain ⟨_, hinside⟩ := hfirst.operands hothers operand hoperand
      exact hvisit hoperand hinside (by decide) _
    · obtain ⟨_, content, _, _, -, ⟨⟩, -, hcontent⟩ := h.signed
      exact Rule.apply_synthesizes_stacked rfl (hvisit (by simp) hcontent (by decide) _)
    · obtain ⟨_, content, _, _, -, ⟨⟩, -, hcontent⟩ := h.negation
      exact Rule.apply_synthesizes_stacked rfl (hvisit (by simp) hcontent (by decide) _)
    · obtain ⟨content, _, ⟨⟩, ⟨category, hmem, hcontent⟩ | ⟨_, _, _, -, -, -, hcontent⟩⟩ := h.value
      · exact Rule.apply_synthesizes_transparent (.inl rfl)
          (visitWithin_synthesizes_leaf hmem hcontent (hbelow content (by simp)))
      · exact Rule.apply_synthesizes_transparent (.inl rfl)
          (hvisit (by simp) hcontent (by decide) _)

end Census
