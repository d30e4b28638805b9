import Mathlib.Algebra.BigOperators.Group.List.Basic
import Mathlib.Tactic.Abel
import Census.Check.Metrics
import Census.Proofs.Grammar.Print

/-!
# Counts of trees and of tokens

A program can be counted before it is checked: on its tree, where each node counts for what it is,
and on its tokens, where each token counts for its kind.

- `Metrics`: counts add up.
- `Node.counts`: what is counted in a tree.
- `Metrics.ofKinds`: what is counted in a row of tokens.
- `Derives.counts`: the two agree on derivations.
-/

namespace Census

namespace Metrics

/-! ## Sums -/

instance : Zero Metrics := ⟨{}⟩

instance : Add Metrics where
  add a b := {
    declarations := a.declarations + b.declarations
    whileLoops := a.whileLoops + b.whileLoops
    conditionals := a.conditionals + b.conditionals
    forLoops := a.forLoops + b.forLoops
    operators := a.operators + b.operators }

theorem zero_def : (0 : Metrics) = {} := rfl

theorem add_def (a b : Metrics) : a + b = {
    declarations := a.declarations + b.declarations
    whileLoops := a.whileLoops + b.whileLoops
    conditionals := a.conditionals + b.conditionals
    forLoops := a.forLoops + b.forLoops
    operators := a.operators + b.operators } := rfl

instance : AddCommMonoid Metrics where
  add_assoc a b c := by simp only [add_def, Nat.add_assoc]
  zero_add a := by simp only [add_def, zero_def, Nat.zero_add]
  add_zero a := rfl
  add_comm a b := by simp only [add_def, Nat.add_comm]
  nsmul := nsmulRec

/-! ## Tokens -/

/-- What is counted in a row of tokens of the given kinds: a declaration for each type keyword, a
loop or a conditional for its keyword, and every operator. Assignments count for nothing. -/
def ofKinds (kinds : List TokenKind) : Metrics where
  declarations := kinds.countP fun kind =>
    kind ∈ [.numKeyword, .boolKeyword, .listNumKeyword, .listBoolKeyword]
  whileLoops := kinds.countP fun kind => kind = .whileKeyword
  conditionals := kinds.countP fun kind => kind = .ifKeyword
  forLoops := kinds.countP fun kind => kind ∈ [.forKeyword, .foreachKeyword]
  operators := kinds.countP fun kind =>
    kind ∈ [.plus, .minus, .star, .slash, .percent, .equal, .notEqual, .less, .lessEqual, .greater,
      .greaterEqual, .conjunction, .disjunction, .bang]

theorem ofKinds_append (kinds kinds' : List TokenKind) :
    ofKinds (kinds ++ kinds') = ofKinds kinds + ofKinds kinds' := by
  simp only [ofKinds, add_def, List.countP_append]

theorem ofKinds_cons (kind : TokenKind) (kinds : List TokenKind) :
    ofKinds (kind :: kinds) = ofKinds [kind] + ofKinds kinds :=
  ofKinds_append [kind] kinds

end Metrics

/-! ## Trees -/

/-- What a node of the kind counts for, if it has the given number of parts. -/
def NodeKind.counts (parts : Nat) : NodeKind → Metrics
  | scalarDeclaration _ => { declarations := 1 }
  | listDeclaration _ => { declarations := 1 }
  | whileLoop => { whileLoops := 1 }
  | conditional => { conditionals := 1 }
  | forLoop => { forLoops := 1 }
  | foreachLoop => { forLoops := 1 }
  | comparison (some _) => { operators := 1 }
  | sum _ => { operators := parts - 1 }
  | product _ => { operators := parts - 1 }
  | logical _ => { operators := parts - 1 }
  | negation operators => { operators := operators.length }
  | signed operators => { operators := operators.length }
  | _ => 0

/-- What is counted in all nodes of a tree. -/
def Node.counts (tree : Node) : Metrics :=
  (tree.nodes.map fun node => node.kind.counts node.children.length).sum

theorem Node.counts_mk (kind : NodeKind) (children : List Node) (span : Span) :
    counts ⟨kind, children, span⟩
      = kind.counts children.length + (children.map counts).sum := by
  rw [counts, nodes_mk, List.map_cons, List.sum_cons, List.map_flatMap, List.flatMap_def,
    List.sum_flatten, List.map_map]
  rfl

/-! ## Trees and tokens count alike -/

/-- The kinds of the tokens among the items. -/
def Item.kinds (items : List Item) : List TokenKind :=
  items.filterMap fun
    | .mark kind => some kind
    | .word kind _ => some kind
    | .part _ => none

namespace Operators

variable {operators : Operators} {kinds : List TokenKind} {operand : Category}

theorem kinds_stacked :
    Item.kinds (operators.stacked ++ [.part operand]) = operators.map Prod.fst := by
  simp [Item.kinds, stacked, List.filterMap_map]

theorem kinds_links :
    Item.kinds (.part operand :: operators.links operand) = operators.map Prod.fst := by
  induction operators with
  | nil => rfl
  | cons operator others ih => simpa [links, Item.kinds] using ih

/-- Operators all count. -/
theorem ofKinds_eq (h : operators.Among kinds)
    (hkinds : ∀ kind ∈ kinds, Metrics.ofKinds [kind] = { operators := 1 }) :
    Metrics.ofKinds (operators.map Prod.fst) = { operators := operators.length } := by
  induction operators with
  | nil => rfl
  | cons operator others ih =>
    obtain ⟨hfirst, hothers⟩ := List.forall_mem_cons.mp h
    rw [List.map_cons, Metrics.ofKinds_cons, ih hothers, hkinds _ hfirst, List.length_cons,
      Nat.add_comm]
    rfl

end Operators

/-- The tokens of a right-hand side count for what the node does. -/
theorem Production.counts {kind : NodeKind} {items : List Item} (h : Production kind items) :
    Metrics.ofKinds (Item.kinds items) = kind.counts (Item.parts items).length := by
  cases h with
  | block count => simp [Item.kinds, NodeKind.counts, Metrics.ofKinds, Metrics.zero_def]
  | scalarDeclaration hkind =>
    exact (by decide : ∀ kind ∈ TokenKind.scalarKeywords,
      Metrics.ofKinds [kind] = { declarations := 1 }) _ hkind
  | listDeclaration hkind =>
    exact (by decide : ∀ kind ∈ TokenKind.listKeywords,
      Metrics.ofKinds [kind] = { declarations := 1 }) _ hkind
  | comparison hkind =>
    exact (by decide : ∀ kind ∈ TokenKind.comparisons,
      Metrics.ofKinds [kind] = { operators := 1 }) _ hkind
  | logical hamong | sum hamong | product hamong =>
    rw [Operators.kinds_links, Operators.parts_links, Operators.ofKinds_eq hamong (by decide)]
    simp [NodeKind.counts]
  | signed hamong | negation hamong =>
    rw [Operators.kinds_stacked, Operators.ofKinds_eq hamong (by decide)]
    simp [NodeKind.counts, Operators.texts]
  | boolean truth => cases truth <;> rfl
  | _ => rfl

theorem Fills.counts {items : List Item} {trees : List Node} {tokens : List Token}
    (h : Fills items trees tokens) :
    Metrics.ofKinds (tokens.map Token.kind)
      = Metrics.ofKinds (Item.kinds items) + (trees.map Node.counts).sum := by
  induction h with
  | nil => rfl
  | mark hkind _ ih =>
    rw [List.map_cons, Metrics.ofKinds_cons, ih, hkind, ← add_assoc, ← Metrics.ofKinds_cons]
    rfl
  | word hkind _ _ ih =>
    rw [List.map_cons, Metrics.ofKinds_cons, ih, hkind, ← add_assoc, ← Metrics.ofKinds_cons]
    rfl
  | @part category tree inside items _ _ _ _ production below _ ihBelow ih =>
    obtain ⟨kind, children, span⟩ := tree
    -- the production counts parts, the tree counts children
    have hlength := congrArg List.length below.parts_eq
    rw [List.length_map] at hlength
    have htree : Node.counts ⟨kind, children, span⟩ = _ := Node.counts_mk kind children span
    rw [← hlength, ← production.counts] at htree
    have hitems : Item.kinds (.part category :: items) = Item.kinds items := rfl
    rw [List.map_append, Metrics.ofKinds_append, ihBelow, ih, List.map_cons, List.sum_cons, htree,
      hitems]
    abel

/-- A derivation counts for what its tokens do. -/
theorem Derives.counts {category : Category} {tree : Node} {tokens : List Token}
    (h : Derives category tree tokens) :
    tree.counts = Metrics.ofKinds (tokens.map Token.kind) := by
  have hcounts := (Fills.lastTree h).counts
  simpa [Item.kinds, Metrics.ofKinds, ← Metrics.zero_def] using hcounts.symm

end Census
