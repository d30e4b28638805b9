import Mathlib.Data.List.Perm.Basic
import Census.Proofs.Check.Typing

/-!
# The order of checking

A check walks a tree from parents to children and from left to right, but for conditions, which
come after everything else in their construct.

- `Node.checkOrder`: the nodes of a tree in the order in which they are checked.
- `Scoped`: every name in a row of nodes is declared before it is used.
- `Node.WellTyped`: well-typed programs.
-/

namespace Census

namespace NodeKind

/-- Which part is the condition. -/
def conditionIndex? : NodeKind → Option Nat
  | conditional => some 0
  | whileLoop => some 0
  | forLoop => some 1
  | _ => none

/-- The parts of a construct with the condition moved to the end. -/
def inCheckOrder {α : Type} (kind : NodeKind) (parts : List α) : List α :=
  match kind.conditionIndex? with
  | some index => parts.eraseIdx index ++ parts[index]?.toList
  | none => parts

theorem inCheckOrder_perm {α : Type} (kind : NodeKind) (parts : List α) :
    (kind.inCheckOrder parts).Perm parts := by
  unfold inCheckOrder
  cases kind.conditionIndex? with
  | none => exact .refl parts
  | some index =>
    cases h : parts[index]? with
    | none =>
      have hlength := List.getElem?_eq_none_iff.mp h
      simp [List.eraseIdx_of_length_le hlength, h]
    | some part =>
      obtain ⟨hlength, rfl⟩ := List.getElem?_eq_some_iff.mp h
      simp only [h, Option.toList_some]
      exact List.perm_append_singleton _ _ |>.trans (List.getElem_cons_eraseIdx_perm hlength)

theorem inCheckOrder_map {α β : Type} (kind : NodeKind) (f : α → β) (parts : List α) :
    kind.inCheckOrder (parts.map f) = (kind.inCheckOrder parts).map f := by
  unfold inCheckOrder
  cases kind.conditionIndex? with
  | none => rfl
  | some index => simp [List.eraseIdx_map, Option.toList_map]

end NodeKind

namespace Node

mutual

/-- The nodes of a tree in the order in which they are checked, each with the kind of the node
around it. -/
def checkOrder (parent : NodeKind) : Node → List (NodeKind × Node)
  | ⟨kind, children, span⟩ =>
    (parent, ⟨kind, children, span⟩) :: (kind.inCheckOrder (checkOrderEach kind children)).flatten

/-- The same for each tree in a row. -/
def checkOrderEach (parent : NodeKind) : List Node → List (List (NodeKind × Node))
  | [] => []
  | node :: others => node.checkOrder parent :: checkOrderEach parent others

end

theorem checkOrderEach_eq_map (parent : NodeKind) (trees : List Node) :
    checkOrderEach parent trees = trees.map (checkOrder parent) := by
  induction trees with
  | nil => rfl
  | cons tree others ih => rw [checkOrderEach, ih, List.map_cons]

theorem checkOrder_mk (parent kind : NodeKind) (children : List Node) (span : Span) :
    checkOrder parent ⟨kind, children, span⟩
      = (parent, ⟨kind, children, span⟩)
        :: (kind.inCheckOrder children).flatMap (checkOrder kind) := by
  rw [checkOrder, checkOrderEach_eq_map, NodeKind.inCheckOrder_map, List.flatMap_def]

/-- Every node has its turn exactly once. -/
theorem checkOrder_perm (parent : NodeKind) (tree : Node) :
    ((tree.checkOrder parent).map Prod.snd).Perm tree.nodes := by
  induction tree using Node.induction generalizing parent with
  | step kind children span ih =>
    rw [checkOrder_mk, nodes_mk, List.map_cons, List.map_flatMap]
    -- the parts are walked in another order, then each of them in its own
    refine .cons _ (.trans ?_ ((kind.inCheckOrder_perm children).flatMap_right nodes))
    exact .flatMap_left _ fun child hchild =>
      ih child ((kind.inCheckOrder_perm children).subset hchild) kind

end Node

/-! ## Declaration before use -/

/-- The names that nodes declare. -/
def declaredNames (order : List (NodeKind × Node)) : List String :=
  order.filterMap fun entry => entry.2.declared?.map Symbol.name

/-- Every name that a row of nodes uses is known, or declared by a node before the use. The
identifier of a declaration is no use. -/
def Scoped (known : List String) : List (NodeKind × Node) → Prop
  | [] => True
  | (parent, node) :: rest =>
    (parent.isDeclaration = false → ∀ name, node.identifier? = some name → name ∈ known) ∧
      Scoped (known ++ declaredNames [(parent, node)]) rest

section Scoped

variable {known known' : List String} {order order' : List (NodeKind × Node)}

theorem declaredNames_append (order order' : List (NodeKind × Node)) :
    declaredNames (order ++ order') = declaredNames order ++ declaredNames order' := by
  rw [declaredNames, List.filterMap_append]
  rfl

/-- What is known matters only as a set. -/
theorem Scoped.mono (h : Scoped known order) (hknown : known ⊆ known') : Scoped known' order := by
  induction order generalizing known known' with
  | nil => trivial
  | cons entry rest ih =>
    obtain ⟨huse, hrest⟩ := h
    exact ⟨fun hparent name hname => hknown (huse hparent name hname),
      ih hrest (List.append_subset.mpr ⟨List.subset_append_of_subset_left _ hknown,
        List.subset_append_right _ _⟩)⟩

theorem scoped_append_iff :
    Scoped known (order ++ order') ↔
      Scoped known order ∧ Scoped (known ++ declaredNames order) order' := by
  induction order generalizing known with
  | nil => simp [Scoped, declaredNames]
  | cons entry rest ih =>
    have hnames : declaredNames (entry :: rest) = declaredNames [entry] ++ declaredNames rest :=
      declaredNames_append [entry] rest
    rw [List.cons_append, Scoped, Scoped, ih, hnames, List.append_assoc, and_assoc]

/-- Put without a walk: before every use stands a declaration. -/
theorem scoped_iff :
    Scoped known order ↔ ∀ before parent node after, order = before ++ (parent, node) :: after →
      parent.isDeclaration = false → ∀ name, node.identifier? = some name →
        name ∈ known ∨ ∃ entry ∈ before, ∃ symbol, entry.2.declared? = some symbol ∧
          symbol.name = name := by
  have hmem (before : List (NodeKind × Node)) (name : String) : name ∈ declaredNames before ↔
      ∃ entry ∈ before, ∃ symbol, entry.2.declared? = some symbol ∧ symbol.name = name := by
    simp [declaredNames]
  simp only [← hmem, ← List.mem_append]
  constructor
  · rintro h before parent node after rfl hparent name hname
    exact (scoped_append_iff.mp h).2.1 hparent name hname
  · intro h
    induction order generalizing known with
    | nil => trivial
    | cons entry rest ih =>
      refine ⟨fun hparent name hname => ?_,
        ih fun before parent node after heq hparent name hname => ?_⟩
      · simpa [declaredNames] using h [] entry.1 entry.2 rest rfl hparent name hname
      · subst heq
        -- the first node is one more that stands before the use
        have hbefore := h (entry :: before) parent node after rfl hparent name hname
        rwa [List.append_assoc, ← declaredNames_append [entry] before]

end Scoped

/-- The names that a tree declares, whatever the order. -/
theorem Node.mem_declaredNames_checkOrder {parent : NodeKind} {tree : Node} {name : String} :
    name ∈ declaredNames (tree.checkOrder parent) ↔ name ∈ tree.symbols.map Symbol.name := by
  have hperm := (tree.checkOrder_perm parent).filterMap declared?
  rw [List.filterMap_map] at hperm
  rw [symbols, ← (hperm.map Symbol.name).mem_iff, declaredNames, List.map_filterMap]
  rfl

/-! ## Well-typed programs -/

/-- What types a program gives to names: each name has the type of its declaration. -/
def Node.types (tree : Node) : String → Option ValueType := SymbolTable.types ⟨tree.symbols⟩

/-- The program declares every name once and before it is used, and all its nodes have the types
they ask for, given the declarations of the whole program. -/
structure Node.WellTyped (tree : Node) : Prop where
  distinct : (tree.symbols.map Symbol.name).Nodup
  declaredBefore : ∀ before parent node after,
    tree.checkOrder .program = before ++ (parent, node) :: after → parent.isDeclaration = false →
    ∀ name, node.identifier? = some name →
      ∃ entry ∈ before, ∃ symbol, entry.2.declared? = some symbol ∧ symbol.name = name
  typed : ∀ node ∈ tree.nodes, node.Typed tree.types

end Census
