import Mathlib.Data.List.Flatten
import Mathlib.Data.List.Pairwise
import Census.Proofs.Check.Programs
import Census.Proofs.Parse.Places

/-!
# Declaration before use

A name that a checked program uses is declared before it in the text, as the order of checking is
the order of the text. Only conditions are checked later than they are written, so what stands in
a condition may also be declared in another part of the same construct.

- `Node.Tests`: a use stands in a condition, a declaration in another part of the construct.
- `Node.sublist_nodes_of_checkOrder`: how the order of checking differs from that of the text.
- `analyze_declares_before_use`: where the names that a checked program uses are declared.
- `use_before_declaration_accepted`: a program that passes the check and uses a name before it is
  declared.
-/

namespace Census

open Check Token

/-! ## Nodes one after the other -/

section Pairs

variable {α β : Type}

/-- Two elements of two rows stand in the first one, in the second one, or one in each. -/
theorem pair_sublist_append_iff {front back : List α} {first second : α} :
    [first, second].Sublist (front ++ back) ↔
      [first, second].Sublist front ∨ [first, second].Sublist back ∨
        first ∈ front ∧ second ∈ back := by
  constructor
  · intro h
    obtain ⟨inFront, inBack, heq, hfront, hback⟩ := List.sublist_append_iff.mp h
    match inFront, heq with
    | [], heq =>
      rw [List.nil_append] at heq
      exact .inr (.inl (heq ▸ hback))
    | [_], rfl =>
      exact .inr (.inr ⟨List.singleton_sublist.mp hfront, List.singleton_sublist.mp hback⟩)
    | [_, _], heq =>
      obtain ⟨rfl, rfl, -⟩ : first = _ ∧ second = _ ∧ inBack = [] := by simpa using heq
      exact .inl hfront
    | _ :: _ :: _ :: _, heq => simp at heq
  · rintro (h | h | ⟨hfirst, hsecond⟩)
    · exact h.trans (List.sublist_append_left _ _)
    · exact h.trans (List.sublist_append_right _ _)
    · exact (List.singleton_sublist.mpr hfirst).append (List.singleton_sublist.mpr hsecond)

/-- Two elements of a row of rows stand in one of them, or in two that stand in this order. -/
theorem pair_sublist_flatMap_iff {f : α → List β} {row : List α} {first second : β} :
    [first, second].Sublist (row.flatMap f) ↔
      (∃ a ∈ row, [first, second].Sublist (f a)) ∨
        ∃ a b, [a, b].Sublist row ∧ first ∈ f a ∧ second ∈ f b := by
  constructor
  · intro h
    induction row with
    | nil => simp at h
    | cons a row ih =>
      rw [List.flatMap_cons, pair_sublist_append_iff] at h
      rcases h with hpair | hpair | ⟨hfirst, hsecond⟩
      · exact .inl ⟨a, List.mem_cons_self, hpair⟩
      · rcases ih hpair with ⟨b, hb, hpair⟩ | ⟨b, c, hpair, hfirst, hsecond⟩
        · exact .inl ⟨b, List.mem_cons_of_mem _ hb, hpair⟩
        · exact .inr ⟨b, c, hpair.cons _, hfirst, hsecond⟩
      · obtain ⟨b, hb, hsecond⟩ := List.mem_flatMap.mp hsecond
        exact .inr ⟨a, b, List.cons_sublist_cons.mpr (List.singleton_sublist.mpr hb), hfirst,
          hsecond⟩
  · rintro (⟨a, ha, hpair⟩ | ⟨a, b, hpair, hfirst, hsecond⟩)
    · exact hpair.trans (by simpa using (List.singleton_sublist.mpr ha).flatMap f)
    · have hrow : (f a ++ f b).Sublist (row.flatMap f) := by simpa using hpair.flatMap f
      exact (pair_sublist_append_iff.mpr (.inr (.inr ⟨hfirst, hsecond⟩))).trans hrow

end Pairs

/-- Only a condition has its turn in another order than it is written, and that is the last. -/
theorem NodeKind.pair_sublist_of_inCheckOrder {α : Type} {kind : NodeKind} {parts : List α}
    {first second : α} (h : [first, second].Sublist (kind.inCheckOrder parts)) :
    [first, second].Sublist parts ∨ ∃ index, kind.conditionIndex? = some index ∧
      parts[index]? = some second ∧ first ∈ parts.eraseIdx index := by
  cases hindex : kind.conditionIndex? with
  | none =>
    rw [inCheckOrder, hindex] at h
    exact .inl h
  | some index =>
    rw [inCheckOrder, hindex, pair_sublist_append_iff] at h
    rcases h with hothers | htest | ⟨hother, htest⟩
    · exact .inl (hothers.trans (List.eraseIdx_sublist _ _))
    · have hlength := htest.length_le
      cases hsome : parts[index]? <;> simp [hsome] at hlength
    · exact .inr ⟨index, rfl, Option.mem_toList.mp htest, hother⟩

namespace Node

variable {tree node child use : Node} {parent kind : NodeKind} {symbol : Symbol}

/-- Every part of a construct is checked inside of it. -/
theorem mem_checkOrder_of_mem_children (hnode : (kind, node) ∈ tree.checkOrder parent)
    (hchild : child ∈ node.children) : (node.kind, child) ∈ tree.checkOrder parent := by
  induction tree using Node.induction generalizing parent with
  | step treeKind children span ih =>
    have hperm := treeKind.inCheckOrder_perm children
    rw [checkOrder_mk, List.mem_cons, List.mem_flatMap] at hnode ⊢
    rcases hnode with hroot | ⟨part, hpart, hnode⟩
    · obtain ⟨rfl, rfl⟩ := Prod.mk.inj hroot
      refine .inr ⟨child, hperm.mem_iff.mpr hchild, ?_⟩
      obtain ⟨childKind, grandchildren, childSpan⟩ := child
      rw [checkOrder_mk]
      exact List.mem_cons_self
    · exact .inr ⟨part, hpart, ih part (hperm.mem_iff.mp hpart) hnode⟩

/-- What stands before a node stands before the parts that start with a leaf, or is that leaf. -/
theorem sublist_nodes_of_children {first : Node} {others : List Node}
    (h : [node, use].Sublist tree.nodes) (hchildren : node.children = first :: others) :
    use = first ∨ [first, use].Sublist tree.nodes := by
  induction tree using Node.induction with
  | step kind children span ih =>
    rw [nodes_mk] at h ⊢
    rcases List.sublist_cons_iff.mp h with h | ⟨rest, heq, hrest⟩
    · rcases pair_sublist_flatMap_iff.mp h with
        ⟨part, hpart, h⟩ | ⟨part, part', hparts, hnode, huse⟩
      · rcases ih part hpart h with rfl | h
        · exact .inl rfl
        · refine .inr (.cons _ (pair_sublist_flatMap_iff.mpr (.inl ⟨part, hpart, h⟩)))
      · have hfirst : first ∈ part.nodes := mem_nodes_of_mem_children hnode (by simp [hchildren])
        exact .inr (.cons _
          (pair_sublist_flatMap_iff.mpr (.inr ⟨part, part', hparts, hfirst, huse⟩)))
    · -- the node is the root, so its first part comes next
      obtain ⟨rfl, rfl⟩ := List.cons.inj heq
      obtain ⟨firstKind, below, firstSpan⟩ := first
      obtain rfl : children = _ := hchildren
      have huse := List.singleton_sublist.mp hrest
      rw [List.flatMap_cons, nodes_mk, List.cons_append, List.mem_cons] at huse
      rcases huse with rfl | huse
      · exact .inl rfl
      · refine .inr (.cons _ ?_)
        rw [List.flatMap_cons, nodes_mk, List.cons_append]
        exact List.cons_sublist_cons.mpr (List.singleton_sublist.mpr huse)

/-! ## The order of checking and the order of the text -/

/-- The node stands in the condition of a construct, which declares the variable in another part. -/
def Tests (construct use : Node) (symbol : Symbol) : Prop :=
  ∃ index test, construct.kind.conditionIndex? = some index ∧
    construct.children[index]? = some test ∧ use ∈ test.nodes ∧
    ∃ part ∈ construct.children.eraseIdx index, symbol ∈ part.symbols

theorem mem_nodes_of_mem_checkOrder {entry : NodeKind × Node}
    (h : entry ∈ tree.checkOrder parent) : entry.2 ∈ tree.nodes :=
  (tree.checkOrder_perm parent).subset (List.mem_map_of_mem h)

/-- What is checked before something else stands before it in the text, unless this is in a
condition. -/
theorem sublist_nodes_of_checkOrder {first second : NodeKind × Node}
    (h : [first, second].Sublist (tree.checkOrder parent))
    (hsymbol : first.2.declared? = some symbol) :
    [first.2, second.2].Sublist tree.nodes ∨
      ∃ construct ∈ tree.nodes, construct.Tests second.2 symbol := by
  induction tree using Node.induction generalizing parent with
  | step kind children span ih =>
    have hperm := kind.inCheckOrder_perm children
    rw [checkOrder_mk, List.sublist_cons_iff] at h
    rw [nodes_mk]
    rcases h with h | ⟨rest, heq, hrest⟩
    · rcases pair_sublist_flatMap_iff.mp h with ⟨part, hpart, h⟩ |
        ⟨part, part', hparts, hfirst, hsecond⟩
      · have hmem := hperm.mem_iff.mp hpart
        rcases ih part hmem h with h | ⟨construct, hconstruct, htests⟩
        · exact .inl (.cons _ (pair_sublist_flatMap_iff.mpr (.inl ⟨part, hmem, h⟩)))
        · exact .inr ⟨construct, List.mem_cons_of_mem _ (List.mem_flatMap.mpr
            ⟨part, hmem, hconstruct⟩), htests⟩
      · have hfirst' := mem_nodes_of_mem_checkOrder hfirst
        have hsecond' := mem_nodes_of_mem_checkOrder hsecond
        have hordered (hchildren : [part, part'].Sublist children) :
            [first.2, second.2].Sublist (⟨kind, children, span⟩ :: children.flatMap nodes) :=
          .cons _ (pair_sublist_flatMap_iff.mpr (.inr ⟨part, part', hchildren, hfirst', hsecond'⟩))
        rcases NodeKind.pair_sublist_of_inCheckOrder hparts with
          hparts | ⟨index, hindex, htest, hother⟩
        · exact .inl (hordered hparts)
        · have hdeclared : symbol ∈ part.symbols := List.mem_filterMap.mpr ⟨_, hfirst', hsymbol⟩
          exact .inr ⟨_, List.mem_cons_self, index, part', hindex, htest, hsecond', part, hother,
            hdeclared⟩
    · obtain ⟨rfl, rfl⟩ := List.cons.inj heq
      obtain ⟨part, hpart, hsecond⟩ := List.mem_flatMap.mp (List.singleton_sublist.mp hrest)
      have hbelow : second.2 ∈ children.flatMap nodes :=
        List.mem_flatMap.mpr ⟨part, hperm.mem_iff.mp hpart, mem_nodes_of_mem_checkOrder hsecond⟩
      exact .inl (List.cons_sublist_cons.mpr (List.singleton_sublist.mpr hbelow))

/-! ## Places of names -/

theorem wordSpan_of_identifier? {name : String} (h : use.identifier? = some name) :
    use.wordSpan? = some use.span := by
  obtain ⟨kind, children, span⟩ := use
  cases kind <;> cases h
  rfl

/-- What a declaration declares is its first part. -/
theorem children_of_declared? (h : node.declared? = some symbol) :
    node.kind.isDeclaration = true ∧ ∃ first others, node.children = first :: others ∧
      first.identifier? = some symbol.name ∧ first.span = symbol.span := by
  unfold declared? at h
  split at h <;> cases h <;> exact ⟨rfl, _, _, rfl, rfl, rfl⟩

end Node

section Parsed

variable {tokens : List Token} {tree : Node} (hparse : parse tokens = .ok tree)
  (horder : InOrder tokens)
include hparse horder

/-- The names and numbers of a program stand one behind the other. -/
theorem pairwise_wordSpans :
    tree.wordSpans.Pairwise fun span next =>
      span.stop.offset ≤ next.start.offset ∧ span ≠ next := by
  by_cases hsome : tokens = []
  · -- a program without tokens has no words
    subst hsome
    obtain rfl := Except.ok.inj hparse
    exact .nil
  have hsublist := (parse_placed hsome hparse).last.wordSpans_sublist horder
  rw [List.flatMap_singleton] at hsublist
  refine List.Pairwise.sublist hsublist (List.pairwise_map.mpr ?_)
  refine horder.disjoint.imp_of_mem fun {token next} _ hnext hbefore => ⟨hbefore, fun heq => ?_⟩
  have hlength := horder.nonempty next hnext
  rw [heq] at hbefore
  omega

/-- No two names stand in the same place. -/
theorem eq_of_mem_checkOrder {entry entry' : NodeKind × Node} {name name' : String}
    (h : entry ∈ tree.checkOrder .program) (h' : entry' ∈ tree.checkOrder .program)
    (hname : entry.2.identifier? = some name) (hname' : entry'.2.identifier? = some name')
    (hspan : entry.2.span = entry'.2.span) : entry = entry' := by
  have hnodup : tree.wordSpans.Nodup := (pairwise_wordSpans hparse horder).imp And.right
  -- each node has its turn once, so the spans are distinct in the order of checking too
  have hturns := ((tree.checkOrder_perm .program).filterMap Node.wordSpan?).nodup_iff.mpr hnodup
  rw [List.filterMap_map, List.Nodup, List.pairwise_filterMap] at hturns
  by_contra hne
  have : Std.Symm fun entry entry' : NodeKind × Node =>
      ∀ span, (Node.wordSpan? ∘ Prod.snd) entry = some span →
        ∀ span', (Node.wordSpan? ∘ Prod.snd) entry' = some span' → span ≠ span' :=
    ⟨fun _ _ hab span hspan span' hspan' heq => hab span' hspan' span hspan heq.symm⟩
  exact hturns.forall h h' hne _ (Node.wordSpan_of_identifier? hname) _
    (Node.wordSpan_of_identifier? hname') hspan

/-- A name that stands before another one ends before it. -/
theorem stop_le_of_sublist {node use : Node} {name name' : String}
    (h : [node, use].Sublist tree.nodes) (hname : node.identifier? = some name)
    (huse : use.identifier? = some name') :
    node.span.stop.offset ≤ use.span.start.offset := by
  have hspans := (pairwise_wordSpans hparse horder).sublist (h.filterMap Node.wordSpan?)
  simp only [List.filterMap_cons, Node.wordSpan_of_identifier? hname,
    Node.wordSpan_of_identifier? huse] at hspans
  exact (List.rel_of_pairwise_cons hspans List.mem_cons_self).1

end Parsed

/-- **Declaration before use**. A name that a checked program uses is declared before it in the
text, or the use stands in a condition and the declaration in another part of the construct that
the condition belongs to. -/
theorem analyze_declares_before_use {source : String} {tokens : List Token} {tree : Node}
    {metrics : Metrics} (htokens : tokenize source = .ok tokens) (hparse : parse tokens = .ok tree)
    (hanalyze : analyze tree = .ok metrics) {around use : Node} {name : String}
    (haround : around ∈ tree.nodes) (hparent : around.kind.isDeclaration = false)
    (huse : use ∈ around.children) (hname : use.identifier? = some name) :
    ∃ symbol ∈ tree.symbols, symbol.name = name ∧
      (symbol.span.stop.offset ≤ use.span.start.offset ∨
        ∃ construct ∈ tree.nodes, construct.Tests use symbol) := by
  have horder := tokenize_inOrder htokens
  have hrun := Checker.succeeds_of_check hanalyze
  have htyped := Node.wellTyped_iff.mpr (accepts_of_succeeds hparse hrun).1
  -- the use has its turn in the check, and a declaration of the name has its turn before
  obtain ⟨⟨parent, _⟩, hturn, rfl⟩ :=
    List.mem_map.mp ((tree.checkOrder_perm .program).mem_iff.mpr haround)
  have huseTurn := Node.mem_checkOrder_of_mem_children hturn huse
  obtain ⟨before, after, hsplit⟩ := List.append_of_mem huseTurn
  obtain ⟨⟨kind, declaration⟩, hentry, symbol, hsymbol, rfl⟩ :=
    htyped.declaredBefore before _ use after hsplit hparent name hname
  have hpair : [(kind, declaration), (_, use)].Sublist (tree.checkOrder .program) :=
    hsplit ▸ pair_sublist_append_iff.mpr (.inr (.inr ⟨hentry, List.mem_cons_self⟩))
  have hdeclaration : (kind, declaration) ∈ tree.checkOrder .program :=
    hsplit ▸ List.mem_append_left _ hentry
  refine ⟨symbol, List.mem_filterMap.mpr
    ⟨_, Node.mem_nodes_of_mem_checkOrder hdeclaration, hsymbol⟩, rfl, ?_⟩
  rcases Node.sublist_nodes_of_checkOrder hpair hsymbol with htext | htests
  · obtain ⟨hkind, first, others, hchildren, hfirst, hspan⟩ := Node.children_of_declared? hsymbol
    rcases Node.sublist_nodes_of_children htext hchildren with rfl | htext
    · -- the name in the declaration is no use
      have hfirstTurn := Node.mem_checkOrder_of_mem_children hdeclaration
        (hchildren ▸ List.mem_cons_self : use ∈ declaration.children)
      have hsame := eq_of_mem_checkOrder hparse horder hfirstTurn huseTurn hfirst hname rfl
      rw [← (Prod.mk.inj hsame).1, hkind] at hparent
      cases hparent
    · exact .inl (hspan ▸ stop_le_of_sublist hparse horder htext hfirst hname)
  · exact .inr htests

/-- A variable in an assignment. -/
theorem analyze_declares_before_use_assignment :
    ∃ tokens tree, tokenize "num x; x = 1;" = .ok tokens ∧ parse tokens = .ok tree ∧
      analyze tree = .ok ⟨1, 0, 0, 0, 0⟩ ∧
      ∃ around ∈ tree.nodes, around.kind.isDeclaration = false ∧ ∃ use ∈ around.children,
        use.identifier? = some "x" ∧ ∃ symbol ∈ tree.symbols, symbol.name = "x" ∧
          (symbol.span.stop.offset ≤ use.span.start.offset ∨
            ∃ construct ∈ tree.nodes, construct.Tests use symbol) := by
  obtain ⟨tokens, tree, htokens, hparse, hfacts⟩ := exists_of_map_parse (by decide +kernel :
    (tokenize "num x; x = 1;" >>= parse).map (fun tree =>
        decide (analyze tree = .ok ⟨1, 0, 0, 0, 0⟩ ∧
          ∃ around ∈ tree.nodes, around.kind.isDeclaration = false ∧
            ∃ use ∈ around.children, use.identifier? = some "x"))
      = .ok true)
  obtain ⟨hanalyze, around, haround, hkind, use, huse, hname⟩ := of_decide_eq_true hfacts
  exact ⟨tokens, tree, htokens, hparse, hanalyze, around, haround, hkind, use, huse, hname,
    analyze_declares_before_use htokens hparse hanalyze haround hkind huse hname⟩

/-- **Conditions see what the body declares**. A program that uses a name before any declaration of
it passes the check. -/
theorem use_before_declaration_accepted :
    ∃ tokens tree, tokenize "while (x < 3) { num x; }" = .ok tokens ∧ parse tokens = .ok tree ∧
      analyze tree = .ok ⟨1, 1, 0, 0, 1⟩ ∧
      ∃ around ∈ tree.nodes, around.kind.isDeclaration = false ∧ ∃ use ∈ around.children,
        use.identifier? = some "x" ∧ ∀ symbol ∈ tree.symbols, symbol.name = "x" →
          use.span.start.offset < symbol.span.start.offset := by
  obtain ⟨tokens, tree, htokens, hparse, hfacts⟩ := exists_of_map_parse (by decide +kernel :
    (tokenize "while (x < 3) { num x; }" >>= parse).map (fun tree =>
        decide (analyze tree = .ok ⟨1, 1, 0, 0, 1⟩ ∧
          ∃ around ∈ tree.nodes, around.kind.isDeclaration = false ∧ ∃ use ∈ around.children,
            use.identifier? = some "x" ∧ ∀ symbol ∈ tree.symbols, symbol.name = "x" →
              use.span.start.offset < symbol.span.start.offset))
      = .ok true)
  exact ⟨tokens, tree, htokens, hparse, of_decide_eq_true hfacts⟩

end Census
