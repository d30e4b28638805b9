import Census.Proofs.Grammar.Nesting
import Census.Proofs.Grammar.Print

/-!
# Heights of derivations

A level of nesting costs at most eight nodes on a way from the root to a leaf: parentheses and the
ladder of expressions inside them.

- `Category.slack`: what a construct may be higher than its nesting accounts for.
- `Derives.height_le`: the bound.
-/

namespace Census

/-- How much higher than eight nodes for each level of nesting a construct can be. -/
def Category.slack : Category → Nat
  | identifier => 1
  | integer => 1
  | boolean => 1
  | value => 2
  | negation => 3
  | signed => 4
  | product => 5
  | sum => 6
  | comparison => 7
  | logical => 8
  | expression => 9
  | scalarDeclaration => 2
  | listDeclaration => 2
  | declaration => 3
  | assignment => 10
  | conditional => 10
  | whileLoop => 10
  | forLoop => 11
  | foreachLoop => 10
  | statement => 4
  | block => 5
  | program => 6

namespace Production

variable {kind : NodeKind} {items : List Item}

/-- Apart from levels of nesting, a construct is higher than its parts. -/
theorem slack_lt (h : Production kind items) (hs : kind ≠ .statement) (hv : kind ≠ .value) :
    ∀ category ∈ Item.parts items, category.slack < kind.category.slack := by
  cases h with
  | block count => simp [Item.parts, Category.slack, NodeKind.category]
  | logical | sum | product =>
    rw [Operators.parts_links, List.forall_mem_cons, List.forall_mem_map]
    simp [Category.slack, NodeKind.category]
  | signed | negation => simp [Operators.parts_stacked, Category.slack, NodeKind.category]
  | simple | compound | braces => exact absurd rfl hs
  | plain | parentheses => exact absurd rfl hv
  | declaration hmem =>
    simp only [List.mem_cons, List.not_mem_nil, or_false] at hmem
    rcases hmem with rfl | rfl <;> decide
  | _ => simp [Item.parts, Category.slack, NodeKind.category]

/-- The one part of a statement, which nests one level less. -/
theorem slack_statement (h : Production .statement items) :
    ∃ category, Item.parts items = [category] ∧ category.slack ≤ 11 := by
  cases h with
  | simple hmem =>
    simp only [List.mem_cons, List.not_mem_nil, or_false] at hmem
    rcases hmem with rfl | rfl <;> exact ⟨_, rfl, by decide⟩
  | compound hmem =>
    simp only [List.mem_cons, List.not_mem_nil, or_false] at hmem
    rcases hmem with rfl | rfl | rfl | rfl <;> exact ⟨_, rfl, by decide⟩
  | braces => exact ⟨_, rfl, by decide⟩

/-- The one part of a value. -/
theorem slack_value (h : Production .value items) :
    ∃ category, Item.parts items = [category] ∧
      (category = .expression ∨ category ≠ .expression ∧ category.slack ≤ 1) := by
  cases h with
  | plain hmem =>
    simp only [List.mem_cons, List.not_mem_nil, or_false] at hmem
    rcases hmem with rfl | rfl | rfl <;> exact ⟨_, rfl, by decide⟩
  | parentheses => exact ⟨_, rfl, by decide⟩

end Production

namespace Node

/-- The bound on the height of a tree. -/
def Low (tree : Node) : Prop := tree.height ≤ 8 * tree.nesting + tree.category.slack

/-- A node is low if its parts are. -/
theorem low_mk {kind : NodeKind} {children : List Node} {span : Span} {items : List Item}
    (production : Production kind items) (hparts : Item.parts items = children.map category)
    (h : ∀ child ∈ children, child.Low) : Low ⟨kind, children, span⟩ := by
  show heightOfAll children + 1 ≤ 8 * nesting ⟨kind, children, span⟩ + kind.category.slack
  -- only statements and values nest, and a level of nesting pays for eight nodes
  by_cases hs : kind = .statement
  · subst hs
    obtain ⟨category, heq, hslack⟩ := production.slack_statement
    obtain ⟨child, rfl, rfl⟩ := List.map_eq_singleton_iff.mp (hparts.symm.trans heq)
    have hchild := h child List.mem_cons_self
    unfold Low at hchild
    rw [nesting_statement]
    simp only [heightOfAll, NodeKind.category, Category.slack]
    omega
  by_cases hv : kind = .value
  · subst hv
    obtain ⟨category, heq, hslack⟩ := production.slack_value
    obtain ⟨child, rfl, rfl⟩ := List.map_eq_singleton_iff.mp (hparts.symm.trans heq)
    have hchild := h child List.mem_cons_self
    unfold Low at hchild
    rcases hslack with hexpression | ⟨hplain, hslack⟩
    · rw [nesting_parentheses hexpression]
      rw [hexpression] at hchild
      simp only [heightOfAll, NodeKind.category, Category.slack] at hchild ⊢
      omega
    · rw [nesting_value hplain]
      simp only [heightOfAll, NodeKind.category, Category.slack]
      omega
  · have hbound : heightOfAll children
        ≤ 8 * nesting ⟨kind, children, span⟩ + (kind.category.slack - 1) := by
      rw [heightOfAll_le_iff]
      intro child hchild
      have hlow := h child hchild
      have hnesting : child.nesting ≤ nesting ⟨kind, children, span⟩ :=
        (nesting_le_iff hs hv).mp (Nat.le_refl _) child hchild
      have hslack := production.slack_lt hs hv child.category
        (hparts ▸ List.mem_map_of_mem hchild)
      unfold Low at hlow
      omega
    have hpositive : 0 < kind.category.slack := by cases kind.category <;> decide
    omega

end Node

theorem Fills.low {items : List Item} {trees : List Node} {tokens : List Token}
    (h : Fills items trees tokens) : ∀ tree ∈ trees, tree.Low := by
  induction h with
  | nil => simp
  | mark _ _ ih => exact ih
  | word _ _ _ ih => exact ih
  | @part _ tree _ _ _ _ _ _ production below _ ihBelow ih =>
    obtain ⟨kind, children, span⟩ := tree
    exact List.forall_mem_cons.mpr ⟨Node.low_mk production below.parts_eq ihBelow, ih⟩

/-- The height of a derivation is bounded by its nesting. -/
theorem Derives.height_le {category : Category} {tree : Node} {tokens : List Token}
    (h : Derives category tree tokens) : tree.height ≤ 8 * tree.nesting + category.slack := by
  have hlow := (Fills.lastTree h).low tree List.mem_cons_self
  rwa [Node.Low, Node.category, h.1] at hlow

end Census
