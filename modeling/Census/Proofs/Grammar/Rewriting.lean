import Mathlib.Data.List.Forall2
import Census.Proofs.Grammar.Derivation

/-!
# Rewriting trees

A tree is rewritten by putting another construct in the place of one that it contains, all else as
it was.

- `Node.Rewrites`: one construct of a tree is rewritten.
- `Node.Rewrites.lift`: what rewriting keeps of a construct, if constructs keep it when their parts
  do.
- `Node.Rewrites.restrict`: what is rewritten in a derivation.
- `Node.Rewrites.derives`: derivations are rewritten to derivations.
-/

namespace Census

/-! ## Rows that are related place by place -/

section Rows

variable {α β : Type} {R : α → β → Prop} {row : List α} {row' : List β}
  (h : List.Forall₂ R row row')
include h

theorem forall₂_getElem? (index : Nat) : Option.Rel R row[index]? row'[index]? := by
  induction h generalizing index with
  | nil => exact .none
  | cons hfirst _ ih =>
    cases index with
    | zero => exact .some hfirst
    | succ index => exact ih index

theorem forall₂_eraseIdx (index : Nat) :
    List.Forall₂ R (row.eraseIdx index) (row'.eraseIdx index) := by
  rw [List.eraseIdx_eq_take_drop_succ, List.eraseIdx_eq_take_drop_succ]
  exact List.rel_append (List.forall₂_take _ h) (List.forall₂_drop _ h)

end Rows

/-! ## Rewriting -/

namespace Node

/-- One construct somewhere in a tree is rewritten as the relation allows. -/
inductive Rewrites (R : Node → Node → Prop) : Node → Node → Prop where
  | here {tree tree' : Node} (h : R tree tree') : Rewrites R tree tree'
  | inside {kind : NodeKind} {front back : List Node} {part part' : Node} {span : Span}
      (h : Rewrites R part part') :
      Rewrites R ⟨kind, front ++ part :: back, span⟩ ⟨kind, front ++ part' :: back, span⟩

variable {R Q : Node → Node → Prop} {tree tree' : Node}

/-- Rows that differ in one place. -/
theorem forall₂_append_cons {front back : List Node} (hrefl : ∀ node, Q node node)
    (h : Q tree tree') : List.Forall₂ Q (front ++ tree :: back) (front ++ tree' :: back) := by
  have hback : List.Forall₂ Q back back := List.forall₂_same.mpr fun node _ => hrefl node
  induction front with
  | nil => exact .cons h hback
  | cons node front ih => exact .cons (hrefl node) ih

/-- What the rewriting of constructs keeps, the rewriting of parts keeps as well. -/
theorem Rewrites.lift (h : Rewrites R tree tree') (hrefl : ∀ node, Q node node)
    (hR : ∀ {tree tree'}, R tree tree' → Q tree tree')
    (hQ : ∀ {kind children children' span}, List.Forall₂ Q children children' →
      Q ⟨kind, children, span⟩ ⟨kind, children', span⟩) : Q tree tree' := by
  induction h with
  | here h => exact hR h
  | inside _ ih => exact hQ (forall₂_append_cons hrefl ih)

end Node

/-- What derives from a construct of a category still does when the construct is rewritten. -/
def Node.KeepsDerivations (tree tree' : Node) : Prop :=
  ∀ category tokens, Derives category tree tokens → ∃ tokens', Derives category tree' tokens'

theorem Fills.rewrite {items : List Item} {trees trees' : List Node} {tokens : List Token}
    (h : Fills items trees tokens) (hrow : List.Forall₂ Node.KeepsDerivations trees trees') :
    ∃ tokens', Fills items trees' tokens' := by
  induction h generalizing trees' with
  | nil =>
    cases hrow
    exact ⟨[], .nil⟩
  | mark hkind _ ih =>
    obtain ⟨rest, hrest⟩ := ih hrow
    exact ⟨_, .mark hkind hrest⟩
  | word hkind htext _ ih =>
    obtain ⟨rest, hrest⟩ := ih hrow
    exact ⟨_, .word hkind htext hrest⟩
  | part hcategory production below _ _ ih =>
    cases hrow with
    | cons hfirst hothers =>
      obtain ⟨front, hfront⟩ := hfirst _ _ ⟨hcategory, _, production, below⟩
      obtain ⟨back, hback⟩ := ih hothers
      exact ⟨_, .tree hfront hback⟩

/-- What is rewritten in a derivation is a derivation itself. -/
theorem Node.Rewrites.restrict {R : Node → Node → Prop} {tree tree' : Node} {category : Category}
    {tokens : List Token} (h : Rewrites R tree tree') (hderives : Derives category tree tokens) :
    Rewrites (fun tree tree' => R tree tree' ∧ ∃ inside, Derives tree.kind.category tree inside)
      tree tree' := by
  induction h generalizing category tokens with
  | here h => exact .here ⟨h, tokens, rfl, hderives.2⟩
  | @inside kind front back part part' span _ ih =>
    obtain ⟨-, items, -, hfills⟩ := hderives
    obtain ⟨inside, hpart⟩ := hfills.exists_derives part (by simp) part part.self_mem_nodes
    exact .inside (ih hpart)

theorem Node.Rewrites.derives {R : Node → Node → Prop} {tree tree' : Node}
    (h : Rewrites R tree tree') (hR : ∀ {tree tree'}, R tree tree' → KeepsDerivations tree tree') :
    KeepsDerivations tree tree' := by
  refine h.lift (fun _ _ tokens hderives => ⟨tokens, hderives⟩) hR ?_
  rintro kind children children' span hrow category tokens ⟨hcategory, items, production, hfills⟩
  obtain ⟨tokens', hfills'⟩ := hfills.rewrite hrow
  exact ⟨tokens', hcategory, items, production, hfills'⟩

end Census
