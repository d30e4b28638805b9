import Census.Proofs.Grammar.Derivation

/-!
# Nesting levels and dangling branches

Two things that the grammar leaves open and a reader of programs has to decide.

- `Node.nesting`: how many statements and parentheses lie around each other. The parentheses of a
  condition do not count.
- `Node.endsOpen`: a statement that could go on with an `else`, because the conditional it ends
  with has none yet.
- `Node.NearestElse`: every `else` belongs to the nearest conditional that can take it.
-/

namespace Census

/-- Statements nest one level deeper than what is around them, and so do expressions that are
values, which means in parentheses. -/
def NodeKind.deepens (kind parent : NodeKind) : Bool :=
  kind == .statement || (kind == .expression && parent == .value)

namespace Node

/-! ## Nesting -/

mutual

/-- The largest number of nodes that nest deeper on a way from a node to a leaf, for a node whose
parent has the given kind. -/
def nestingIn (parent : NodeKind) : Node → Nat
  | ⟨kind, children, _⟩ => (if kind.deepens parent then 1 else 0) + nestingOfAll kind children

/-- The largest nesting in a row of nodes. -/
def nestingOfAll (parent : NodeKind) : List Node → Nat
  | [] => 0
  | node :: others => max (node.nestingIn parent) (nestingOfAll parent others)

end

/-- The largest number of statements and parenthesized expressions on a way from the root to a
leaf. -/
def nesting (tree : Node) : Nat := tree.nestingIn .program

theorem nestingOfAll_le_iff {parent : NodeKind} {trees : List Node} {levels : Nat} :
    nestingOfAll parent trees ≤ levels ↔ ∀ tree ∈ trees, tree.nestingIn parent ≤ levels := by
  induction trees with
  | nil => simp [nestingOfAll]
  | cons tree others ih => rw [nestingOfAll, Nat.max_le, ih, List.forall_mem_cons]

/-- Only under a value the place of a node matters. -/
theorem nestingIn_of_ne_value {parent : NodeKind} (h : parent ≠ .value) (tree : Node) :
    tree.nestingIn parent = tree.nesting := by
  obtain ⟨kind, children, span⟩ := tree
  simp [nesting, nestingIn, NodeKind.deepens, h]

/-- Constructs that are neither statements nor values nest as deep as their parts. -/
theorem nesting_le_iff {kind : NodeKind} (hs : kind ≠ .statement) (hv : kind ≠ .value)
    {children : List Node} {span : Span} {levels : Nat} :
    nesting ⟨kind, children, span⟩ ≤ levels ↔ ∀ child ∈ children, child.nesting ≤ levels := by
  -- such a construct does not count itself, wherever it stands
  have hd : kind.deepens .program = false := by simp [NodeKind.deepens, hs]
  rw [nesting, nestingIn, hd]
  simp [nestingOfAll_le_iff, nestingIn_of_ne_value hv]

theorem nesting_lt_succ_iff {kind : NodeKind} (hs : kind ≠ .statement) (hv : kind ≠ .value)
    {children : List Node} {span : Span} {levels : Nat} :
    nesting ⟨kind, children, span⟩ < levels + 1 ↔
      ∀ child ∈ children, child.nesting < levels + 1 := by
  simp only [Nat.lt_succ_iff, nesting_le_iff hs hv]

theorem nesting_statement (child : Node) (span : Span) :
    nesting ⟨.statement, [child], span⟩ = child.nesting + 1 := by
  simp [nesting, nestingIn, nestingOfAll, NodeKind.deepens,
    nestingIn_of_ne_value (by decide : NodeKind.statement ≠ .value), Nat.add_comm]

theorem nesting_parentheses {child : Node} (h : child.kind.category = .expression)
    (span : Span) : nesting ⟨.value, [child], span⟩ = child.nesting + 1 := by
  obtain ⟨kind, children, span'⟩ := child
  cases kind <;> simp only [NodeKind.category, reduceCtorEq] at h
  simp [nesting, nestingIn, nestingOfAll, NodeKind.deepens, Nat.add_comm]

theorem nesting_value {child : Node} (h : child.kind.category ≠ .expression) (span : Span) :
    nesting ⟨.value, [child], span⟩ = child.nesting := by
  obtain ⟨kind, children, span'⟩ := child
  have he : kind ≠ .expression := by rintro rfl; exact h rfl
  simp [nesting, nestingIn, nestingOfAll, NodeKind.deepens, he]

theorem nesting_leaf {kind : NodeKind} (h : kind ≠ .statement) (span : Span) :
    nesting ⟨kind, [], span⟩ = 0 := by
  simp [nesting, nestingIn, nestingOfAll, NodeKind.deepens, h]

theorem nesting_literal {kind : NodeKind} (hs : kind ≠ .statement) (he : kind ≠ .expression)
    (inner span : Span) : nesting ⟨.value, [⟨kind, [], inner⟩], span⟩ = 0 := by
  simp [nesting, nestingIn, nestingOfAll, NodeKind.deepens, hs, he]

/-! ## Conditionals that wait for a branch -/

mutual

/-- The statement ends, outside braces, in a conditional without an `else`. -/
def endsOpen : Node → Bool
  | ⟨.statement, children, _⟩ => lastEndsOpen children
  | ⟨.whileLoop, children, _⟩ => lastEndsOpen children
  | ⟨.forLoop, children, _⟩ => lastEndsOpen children
  | ⟨.foreachLoop, children, _⟩ => lastEndsOpen children
  | ⟨.conditional, children, _⟩ => children.length == 2 || lastEndsOpen children
  | _ => false

/-- The last of several parts ends open. -/
def lastEndsOpen : List Node → Bool
  | [] => false
  | [node] => node.endsOpen
  | _ :: others => lastEndsOpen others

end

/-- Only statements, and the constructs that end in one, can end open. -/
theorem category_of_endsOpen {tree : Node} (h : tree.endsOpen = true) :
    tree.kind.category ∈ [.statement, .conditional, .whileLoop, .forLoop, .foreachLoop] := by
  obtain ⟨kind, children, span⟩ := tree
  cases kind <;> simp_all [endsOpen, NodeKind.category]

/-- No conditional that has an `else` keeps it from a conditional at the end of its branch. -/
def NearestElse (tree : Node) : Prop :=
  ∀ test branch other span, ⟨.conditional, [test, branch, other], span⟩ ∈ tree.nodes →
    branch.endsOpen = false

theorem nearestElse_mk_iff {kind : NodeKind} {children : List Node} {span : Span} :
    NearestElse ⟨kind, children, span⟩ ↔
      (∀ test branch other, kind = .conditional → children = [test, branch, other] →
        branch.endsOpen = false) ∧ ∀ child ∈ children, child.NearestElse := by
  constructor
  · intro h
    refine ⟨?_, fun child hchild test branch other span' hmem => ?_⟩
    · rintro test branch other rfl rfl
      exact h test branch other span (self_mem_nodes _)
    · refine h test branch other span' ?_
      rw [nodes_mk]
      exact List.mem_cons_of_mem _ (List.mem_flatMap.mpr ⟨child, hchild, hmem⟩)
  · rintro ⟨hself, hchildren⟩ test branch other span' hmem
    rw [nodes_mk, List.mem_cons, List.mem_flatMap] at hmem
    rcases hmem with heq | ⟨child, hchild, hmem⟩
    · cases heq
      exact hself test branch other rfl rfl
    · exact hchildren child hchild test branch other span' hmem

theorem NearestElse.parts {kind : NodeKind} {children : List Node} {span : Span}
    (h : NearestElse ⟨kind, children, span⟩) : ∀ child ∈ children, child.NearestElse :=
  (nearestElse_mk_iff.mp h).2

/-- Below a construct that is no conditional, the parts are all that matters. -/
theorem nearestElse_iff_children {kind : NodeKind} (h : kind ≠ .conditional)
    {children : List Node} {span : Span} :
    NearestElse ⟨kind, children, span⟩ ↔ ∀ child ∈ children, child.NearestElse := by
  simp [nearestElse_mk_iff, h]

end Node

end Census
