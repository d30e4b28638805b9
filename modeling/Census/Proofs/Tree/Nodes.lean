import Census.Tree.Basic

/-!
# Trees as collections of nodes

- `Node.induction`: what passes from the parts of every node to the node holds of every tree.
- `Node.nodes`: all nodes of a tree, parents before children.
- `Node.height`: how many nodes stand on the longest way from the root to a leaf. By
  `Node.forall_preorder_le_iff` it says how deep the deepest node lies.
- `Node.bare`: a tree without its spans; trees that are equal up to spans have one bare tree.
-/

namespace Census

namespace Node

/-- Induction on trees: a node may use the statement for each of its children. -/
@[elab_as_elim]
theorem induction {P : Node → Prop}
    (step : ∀ kind children span, (∀ child ∈ children, P child) → P ⟨kind, children, span⟩) :
    ∀ node, P node
  | ⟨kind, children, span⟩ => step kind children span fun child _ => induction step child

/-! ## All nodes of a tree -/

/-- Every node of a tree, parents before children. -/
def nodes (tree : Node) : List Node := (tree.preorder 0).map Prod.snd

private theorem preorderAllOnto_eq {trees : List Node}
    (h : ∀ tree ∈ trees, ∀ depth rest,
      tree.preorderOnto depth rest = tree.preorder depth ++ rest)
    (depth : Nat) (rest : List (Nat × Node)) :
    preorderAllOnto depth rest trees = trees.flatMap (preorder depth) ++ rest := by
  induction trees with
  | nil => rfl
  | cons tree others ih =>
    have hothers := ih fun other hother => h other (List.mem_cons_of_mem _ hother)
    rw [preorderAllOnto, h tree List.mem_cons_self, hothers, List.flatMap_cons,
      List.append_assoc]

private theorem preorderOnto_eq (tree : Node) :
    ∀ depth rest, tree.preorderOnto depth rest = tree.preorder depth ++ rest := by
  induction tree using Node.induction with
  | step kind children span ih =>
    intro depth rest
    rw [preorder, preorderOnto, preorderOnto, preorderAllOnto_eq ih, preorderAllOnto_eq ih]
    simp

/-- Behind a node, its parts are listed one after the other. -/
theorem preorder_mk (depth : Nat) (kind : NodeKind) (children : List Node) (span : Span) :
    preorder depth ⟨kind, children, span⟩
      = (depth, ⟨kind, children, span⟩) :: children.flatMap (preorder (depth + 1)) := by
  rw [preorder, preorderOnto, preorderAllOnto_eq fun tree _ => preorderOnto_eq tree,
    List.append_nil]

/-- Depths aside, it does not matter where the list of a tree starts. -/
private theorem map_snd_preorder (tree : Node) :
    ∀ depth, (tree.preorder depth).map Prod.snd = tree.nodes := by
  induction tree using Node.induction with
  | step kind children span ih =>
    intro depth
    have hchildren (depth : Nat) :
        (children.flatMap (preorder depth)).map Prod.snd = children.flatMap nodes := by
      rw [List.map_flatMap, List.flatMap_def, List.flatMap_def,
        List.map_congr_left fun child hchild => ih child hchild depth]
    rw [nodes, preorder_mk, preorder_mk, List.map_cons, List.map_cons, hchildren, hchildren]

@[simp] theorem nodes_mk (kind : NodeKind) (children : List Node) (span : Span) :
    nodes ⟨kind, children, span⟩ = ⟨kind, children, span⟩ :: children.flatMap nodes := by
  rw [nodes, preorder_mk, List.map_cons, List.map_flatMap]
  simp only [map_snd_preorder]

theorem self_mem_nodes (tree : Node) : tree ∈ tree.nodes := by
  cases tree
  simp

theorem mem_nodes_iff {tree node : Node} :
    node ∈ tree.nodes ↔ node = tree ∨ ∃ child ∈ tree.children, node ∈ child.nodes := by
  cases tree
  rw [nodes_mk, List.mem_cons, List.mem_flatMap]

/-- The parts of the nodes of a tree are nodes of the tree. -/
theorem mem_nodes_of_mem_children {tree node child : Node} (hnode : node ∈ tree.nodes)
    (hchild : child ∈ node.children) : child ∈ tree.nodes := by
  induction tree using Node.induction with
  | step kind children span ih =>
    rw [nodes_mk, List.mem_cons, List.mem_flatMap] at hnode ⊢
    rcases hnode with rfl | ⟨part, hpart, hnode⟩
    · exact .inr ⟨child, hchild, child.self_mem_nodes⟩
    · exact .inr ⟨part, hpart, ih part hpart hnode⟩

/-! ## Heights -/

mutual

/-- How many nodes stand on the longest way from the root to a leaf. -/
def height : Node → Nat
  | ⟨_, children, _⟩ => heightOfAll children + 1

/-- The largest height in a row of trees. -/
def heightOfAll : List Node → Nat
  | [] => 0
  | node :: others => max node.height (heightOfAll others)

end

theorem heightOfAll_le_iff {trees : List Node} {bound : Nat} :
    heightOfAll trees ≤ bound ↔ ∀ tree ∈ trees, tree.height ≤ bound := by
  induction trees with
  | nil => simp [heightOfAll]
  | cons tree others ih => rw [heightOfAll, Nat.max_le, ih, List.forall_mem_cons]

/-- Rows have one height if the heights of their trees have the same bounds. -/
theorem heightOfAll_eq_of_forall {trees trees' : List Node}
    (h : ∀ bound, (∀ tree ∈ trees, tree.height ≤ bound) ↔ ∀ tree ∈ trees', tree.height ≤ bound) :
    heightOfAll trees = heightOfAll trees' := by
  simp only [← heightOfAll_le_iff] at h
  exact Nat.le_antisymm ((h _).mpr (Nat.le_refl _)) ((h _).mp (Nat.le_refl _))

theorem height_pos (tree : Node) : 0 < tree.height := by
  cases tree
  simp [height]

theorem exists_levels {tree : Node} {levels : Nat} (h : tree.height ≤ levels) :
    ∃ fewer, levels = fewer + 1 :=
  Nat.exists_eq_add_one.mpr (Nat.lt_of_lt_of_le tree.height_pos h)

/-- A part of a construct is lower than the construct. -/
theorem height_le_of_mem {kind : NodeKind} {children : List Node} {span : Span} {levels : Nat}
    (h : height ⟨kind, children, span⟩ ≤ levels + 1) :
    ∀ child ∈ children, child.height ≤ levels :=
  heightOfAll_le_iff.mp (Nat.le_of_succ_le_succ h)

/-- No node lies deeper than a bound if the tree is not higher than that. -/
theorem forall_preorder_le_iff {tree : Node} {depth bound : Nat} :
    (∀ entry ∈ tree.preorder depth, entry.1 ≤ bound) ↔ depth + tree.height ≤ bound + 1 := by
  induction tree using Node.induction generalizing depth with
  | step kind children span ih =>
    rw [preorder_mk, List.forall_mem_cons, List.forall_mem_flatMap, height]
    have hchildren : (∀ child ∈ children, ∀ entry ∈ child.preorder (depth + 1), entry.1 ≤ bound) ↔
        ∀ child ∈ children, depth + 1 + child.height ≤ bound + 1 :=
      forall₂_congr fun child hchild => ih child hchild
    rw [hchildren]
    constructor
    · rintro ⟨hself, hbelow⟩
      have hheight : heightOfAll children ≤ bound - depth :=
        heightOfAll_le_iff.mpr fun child hchild => by have := hbelow child hchild; omega
      simp only at hself
      omega
    · intro hbound
      refine ⟨by simp only; omega, fun child hchild => ?_⟩
      have hheight := heightOfAll_le_iff.mp (Nat.le_refl _) child hchild
      omega

/-! ## Trees without spans -/

mutual

/-- The tree with every span forgotten. -/
def bare : Node → Node
  | ⟨kind, children, _⟩ => ⟨kind, bareAll children, {}⟩

/-- A row of trees with every span forgotten. -/
def bareAll : List Node → List Node
  | [] => []
  | node :: others => node.bare :: bareAll others

end

@[simp] theorem bareAll_eq_map (trees : List Node) : bareAll trees = trees.map bare := by
  induction trees with
  | nil => rfl
  | cons tree others ih => rw [bareAll, ih, List.map_cons]

theorem bare_mk (kind : NodeKind) (children : List Node) (span : Span) :
    bare ⟨kind, children, span⟩ = ⟨kind, children.map bare, {}⟩ := by
  rw [bare, bareAll_eq_map]

theorem height_bare (tree : Node) : tree.bare.height = tree.height := by
  induction tree using Node.induction with
  | step kind children span ih =>
    rw [bare_mk, height, height]
    refine congrArg (· + 1) (heightOfAll_eq_of_forall fun bound => ?_)
    rw [List.forall_mem_map]
    exact forall₂_congr fun child hchild => by rw [ih child hchild]

end Node

end Census
