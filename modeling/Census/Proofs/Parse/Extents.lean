import Census.Proofs.Parse.Places
import Census.Proofs.Parse.Spans
import Census.Proofs.Token.Tiling

/-!
# Extents of the nodes of a tree

The spans of a tree are the tree over again: what belongs to a construct lies inside it, and what
stands side by side does not overlap. The readers make spans in many ways, as hulls of parts, from
a first token to the last one, or as the place of a closing brace. They all come to this because
parts stand in order on tokens of their own, and tokens are in order.

- `Node.Nested`: a node has its parts inside it, in order.
- `Stand.nested`: trees that stand on tokens are nested all the way down.
- `Span.MadeOf.pointsInto`: what is made of the tokens of a text points into the text.
- `parse_fitted`: the nodes of a program and its text.
-/

namespace Census

open Token

/-- The parts of the node lie inside it, and each one ends before the next ones start. -/
structure Node.Nested (node : Node) : Prop where
  within : ∀ child ∈ node.children, node.span.start.offset ≤ child.span.start.offset ∧
    child.span.stop.offset ≤ node.span.stop.offset
  disjoint : node.children.Pairwise fun child next =>
    child.span.stop.offset ≤ next.span.start.offset

/-- The node stands in the text where its span says. -/
structure Node.Fitted (source : String) (node : Node) : Prop where
  points : node.span.PointsInto source
  nested : node.Nested
  /-- The name of an identifier and the digits of a number are what the text has there. -/
  word : ∀ word ∈ node.word?, node.span.slice source = word

/-! ## Trees inside trees -/

section Nested

variable {tree : Node} {trees : List Node} {span : Span} {tokens : List Token}

/-- A span over tokens starts with the first of them and stops with the last one. -/
theorem Covers.exists_ends (h : Covers span tokens) (horder : InOrder tokens) :
    ∃ first ∈ tokens.head?, ∃ last ∈ tokens.getLast?,
      span = ⟨first.span.start, last.span.stop⟩ := by
  obtain ⟨first, hfirst⟩ : ∃ first, tokens.head? = some first :=
    ⟨_, List.head?_eq_some_head h.nonempty⟩
  obtain ⟨last, hlast⟩ : ∃ last, tokens.getLast? = some last :=
    ⟨_, List.getLast?_eq_some_getLast h.nonempty⟩
  exact ⟨first, hfirst, last, hlast, h.eq_mk horder first hfirst last hlast⟩

/-- A span over tokens has all of them in it. -/
theorem Covers.contains (h : Covers span tokens) (horder : InOrder tokens) :
    ∀ token ∈ tokens, span.start.offset ≤ token.span.start.offset ∧
      token.span.stop.offset ≤ span.stop.offset := by
  intro token htoken
  obtain ⟨first, hfirst, last, hlast, rfl⟩ := h.exists_ends horder
  refine ⟨horder.start_le hfirst htoken, ?_⟩
  rcases horder.eq_or_stop_lt hlast htoken with rfl | hlt
  · exact Nat.le_refl _
  · exact Nat.le_of_lt hlt

/-- Every tree that stands on tokens lies between the start of one and the stop of one. -/
theorem Stand.between (h : Stand trees tokens) (horder : InOrder tokens) :
    ∀ tree ∈ trees, ∃ first ∈ tokens, ∃ last ∈ tokens,
      first.span.start.offset ≤ tree.span.start.offset ∧
        tree.span.stop.offset ≤ last.span.stop.offset := by
  induction h with
  | nil tokens => nofun
  | skip token _ ih =>
    intro tree htree
    obtain ⟨first, hfirst, last, hlast, hbetween⟩ := ih horder.tail tree htree
    exact ⟨first, List.mem_cons_of_mem _ hfirst, last, List.mem_cons_of_mem _ hlast, hbetween⟩
  | @tree tree trees inside tokens hspan _ _ _ _ ih =>
    refine List.forall_mem_cons.mpr ⟨?_, fun other hother => ?_⟩
    · obtain ⟨first, hfirst, last, hlast, heq⟩ := hspan.exists_ends horder.left
      rw [heq]
      exact ⟨first, List.mem_append_left _ (List.mem_of_mem_head? hfirst), last,
        List.mem_append_left _ (List.mem_of_getLast? hlast), Nat.le_refl _, Nat.le_refl _⟩
    · obtain ⟨first, hfirst, last, hlast, hbetween⟩ := ih horder.right other hother
      exact ⟨first, List.mem_append_right _ hfirst, last, List.mem_append_right _ hlast, hbetween⟩
  | @block tree trees next tokens _ _ hspan _ ih =>
    refine List.forall_mem_cons.mpr ⟨?_, ih horder⟩
    rw [hspan]
    exact ⟨next, List.mem_cons_self, next, List.mem_cons_self, Nat.le_refl _,
      Nat.le_of_lt (horder.nonempty next List.mem_cons_self)⟩

/-- Trees that stand on tokens stand one behind the other. -/
theorem Stand.disjoint (h : Stand trees tokens) (horder : InOrder tokens) :
    trees.Pairwise fun tree next => tree.span.stop.offset ≤ next.span.start.offset := by
  induction h with
  | nil tokens => exact .nil
  | skip token _ ih => exact ih horder.tail
  | @tree tree trees inside tokens hspan _ _ hrest _ ih =>
    refine .cons (fun other hother => ?_) (ih horder.right)
    obtain ⟨_, -, last, hlast, heq⟩ := hspan.exists_ends horder.left
    obtain ⟨first, hfirst, -, -, hstart, -⟩ := hrest.between horder.right other hother
    have hapart : last.span.stop.offset ≤ first.span.start.offset :=
      (List.pairwise_append.mp horder.disjoint).2.2 last (List.mem_of_getLast? hlast) first hfirst
    rw [heq]
    exact Nat.le_trans hapart hstart
  | @block tree trees next tokens _ _ hspan hrest ih =>
    refine .cons (fun other hother => ?_) (ih horder)
    obtain ⟨first, hfirst, -, -, hstart, -⟩ := hrest.between horder other hother
    rw [hspan]
    exact Nat.le_trans (horder.start_le rfl hfirst) hstart

/-- All nodes of trees that stand on tokens are nested. -/
theorem Stand.nested (h : Stand trees tokens) (horder : InOrder tokens) :
    ∀ tree ∈ trees, ∀ node ∈ tree.nodes, node.Nested := by
  induction h with
  | nil tokens => nofun
  | skip token _ ih => exact ih horder.tail
  | @tree tree trees inside tokens hspan _ hbelow _ ihBelow ih =>
    refine List.forall_mem_cons.mpr ⟨fun node hnode => ?_, ih horder.right⟩
    rcases Node.mem_nodes_iff.mp hnode with rfl | ⟨child, hchild, hnode'⟩
    · refine ⟨fun child hchild => ?_, hbelow.disjoint horder.left⟩
      obtain ⟨first, hfirst, last, hlast, hstart, hstop⟩ := hbelow.between horder.left child hchild
      exact ⟨Nat.le_trans (hspan.contains horder.left first hfirst).1 hstart,
        Nat.le_trans hstop (hspan.contains horder.left last hlast).2⟩
    · exact ihBelow horder.left child hchild node hnode'
  | block _ hchildren _ _ ih =>
    refine List.forall_mem_cons.mpr ⟨fun node hnode => ?_, ih horder⟩
    -- an empty block is its only node
    rcases Node.mem_nodes_iff.mp hnode with rfl | ⟨child, hchild, -⟩
    · exact ⟨by simp [hchildren], by simp [hchildren]⟩
    · simp [hchildren] at hchild

end Nested

/-! ## Trees of texts -/

/-- A text that is a program, known by what is computed from its tree. -/
theorem exists_of_map_parse {α : Type} {source : String} {f : Node → α} {answer : α}
    (h : (tokenize source >>= parse).map f = .ok answer) :
    ∃ tokens tree, tokenize source = .ok tokens ∧ parse tokens = .ok tree ∧ f tree = answer := by
  cases htokens : tokenize source with
  | error diagnostic =>
    rw [htokens] at h
    cases h
  | ok tokens =>
    cases hparse : parse tokens with
    | error diagnostic =>
      rw [htokens] at h
      simp [bind, Except.bind, hparse, Except.map] at h
    | ok tree =>
      rw [htokens] at h
      simp only [bind, Except.bind, hparse, Except.map, Except.ok.injEq] at h
      exact ⟨tokens, tree, rfl, hparse, h⟩

section Places

variable {source : String} {tokens : List Token} {span : Span}

theorem Span.MadeOf.pointsInto (htokens : tokenize source = .ok tokens)
    (h : span.MadeOf tokens) : span.PointsInto source := by
  -- hulls keep their ends in order
  have hends : span.start.StandsIn source ∧ span.stop.StandsIn source ∧
      span.start.offset ≤ span.stop.offset := by
    induction h with
    | token htoken =>
      obtain ⟨hstart, hstop, -⟩ := tokenize_standsIn htokens _ htoken
      exact ⟨hstart, hstop, Nat.le_of_lt ((tokenize_inOrder htokens).nonempty _ htoken)⟩
    | before htoken =>
      obtain ⟨hstart, -⟩ := tokenize_standsIn htokens _ htoken
      exact ⟨hstart, hstart, Nat.le_refl _⟩
    | behind htoken =>
      obtain ⟨-, hstop, -⟩ := tokenize_standsIn htokens _ htoken
      exact ⟨hstop, hstop, Nat.le_refl _⟩
    | @merge span span' _ _ ih ih' =>
      obtain ⟨hstart, hstop, hle⟩ := ih
      obtain ⟨hstart', hstop', hle'⟩ := ih'
      unfold Span.merge
      refine ⟨?_, ?_, ?_⟩
      · dsimp only
        split <;> assumption
      · dsimp only
        split <;> assumption
      · dsimp only
        split <;> split <;> omega
  exact pointsInto_of_standsIn hends.1 hends.2.1 hends.2.2

/-- **Trees fit their texts**. When a text has tokens and they are a program, the span of every
node is one of the text, with the lines and columns that the text has there. It has the spans of
the node's parts inside it, in order and without overlap, and names and numbers are the text under
their spans. -/
theorem parse_fitted {tree : Node} (htokens : tokenize source = .ok tokens) (hsome : tokens ≠ [])
    (hparse : parse tokens = .ok tree) : ∀ node ∈ tree.nodes, node.Fitted source := by
  intro node hnode
  have horder := tokenize_inOrder htokens
  have hstand : Stand [tree] tokens := (parse_placed hsome hparse).last
  refine ⟨(parse_madeOf hsome hparse node hnode).pointsInto htokens,
    hstand.nested horder tree (by simp) node hnode, fun word hword => ?_⟩
  obtain ⟨token, htoken, rfl, hspan⟩ := hstand.exists_token horder tree (by simp) node hnode hword
  obtain ⟨-, -, htext⟩ := tokenize_standsIn htokens token htoken
  rw [htext, hspan]

/-- Parentheses that belong to their value, braces that belong to no block, and an empty block
behind a comment with a character of two bytes. -/
theorem parse_fitted_braces :
    ∃ tokens tree, tokenize "x=(1);//é\n{}{y=2;}" = .ok tokens ∧ tokens ≠ [] ∧
      parse tokens = .ok tree ∧
      ((tree.nodes.filter fun node => node.kind = .value ∨ node.kind = .block).map fun node =>
          (node.kind, node.span.slice "x=(1);//é\n{}{y=2;}"))
        = [(.block, "x=(1);//é\n{}{y=2;}"), (.value, "(1)"), (.value, "1"), (.block, ""),
          (.block, "y=2;"), (.value, "2")] ∧
      ∀ node ∈ tree.nodes, node.Fitted "x=(1);//é\n{}{y=2;}" := by
  obtain ⟨tokens, tree, htokens, hparse, hfacts⟩ := exists_of_map_parse (by decide +kernel :
    (tokenize "x=(1);//é\n{}{y=2;}" >>= parse).map (fun tree =>
        (tree.nodes.filter fun node => node.kind = .value ∨ node.kind = .block).map fun node =>
          (node.kind, node.span.slice "x=(1);//é\n{}{y=2;}"))
      = .ok [(.block, "x=(1);//é\n{}{y=2;}"), (.value, "(1)"), (.value, "1"), (.block, ""),
          (.block, "y=2;"), (.value, "2")])
  have hsome : tokens ≠ [] := by
    rintro rfl
    obtain rfl := Except.ok.inj hparse
    exact absurd hfacts (by decide)
  exact ⟨tokens, tree, htokens, hsome, hparse, hfacts, parse_fitted htokens hsome hparse⟩

end Places

end Census
