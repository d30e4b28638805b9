import Census.Proofs.Check.Precedence
import Census.Proofs.Check.Turns

/-!
# Turns in the order of the text

The check of a program that parsing gives takes some turns later than the text has them, as
conditions are checked behind all else in their construct. But conditions declare nothing, so what
a check does before it declares a variable stands before the variable in the text.

- `Node.Regular`: what the nodes of parsed programs are like.
- `Node.pair_sublist_wordSpans`: turns before a declaration, in trees of such nodes.
- `exists_token_of_mem_turns`, `stop_le_of_turns`: turns of parsed programs.
-/

namespace Census

open Token

/-! ## Regular nodes -/

/-- All parts of the node are visited, none is a condition that declares something, and the only
part of a declaration is an identifier. -/
structure Node.Regular (node : Node) : Prop where
  visited : node.kind.visited node.children = node.kind.inCheckOrder node.children
  condition : ∀ index ∈ node.kind.conditionIndex?, ∀ test ∈ node.children[index]?,
    test.symbols = []
  target : node.kind.isDeclaration = true →
    ∃ name span, node.children = [⟨.identifier name, [], span⟩]

section Nodes

variable {kind : NodeKind} {children : List Node} {span : Span}

/-- Most nodes have no condition and declare nothing. -/
theorem Node.regular_plain (hvisited : kind.visited children = kind.inCheckOrder children)
    (hcondition : kind.conditionIndex? = none) (hdeclaration : kind.isDeclaration = false) :
    Regular ⟨kind, children, span⟩ :=
  ⟨hvisited, by simp [hcondition], by simp [hdeclaration]⟩

theorem Node.regular_declaration {name : String} {place : Span}
    (h : kind.isDeclaration = true) : Regular ⟨kind, [⟨.identifier name, [], place⟩], span⟩ := by
  refine ⟨?_, ?_, fun _ => ⟨name, place, rfl⟩⟩ <;> cases kind <;> cases h
  · rfl
  · rfl
  · rintro _ ⟨⟩
  · rintro _ ⟨⟩

/-- A condition is an expression, which declares nothing. -/
theorem Node.regular_test {index : Nat} {test : Node} {inside : List Token}
    (hvisited : kind.visited children = kind.inCheckOrder children)
    (hcondition : kind.conditionIndex? = some index) (htest : children[index]? = some test)
    (hexpression : Derives .expression test inside) : Regular ⟨kind, children, span⟩ := by
  refine ⟨hvisited, fun index' hindex' test' htest' => ?_, fun hdeclaration => ?_⟩
  · obtain rfl := Option.some.inj (hcondition.symm.trans hindex')
    obtain rfl := Option.some.inj (htest.symm.trans htest')
    exact symbols_eq_nil hexpression.isDeclaration_eq_false
  · cases kind <;> cases hcondition <;> cases hdeclaration

end Nodes

theorem Derives.regular {category : Category} {tree : Node} {tokens : List Token}
    (h : Derives category tree tokens) : tree.Regular := by
  obtain ⟨kind, children, span⟩ := tree
  obtain rfl : category = kind.category := h.1.symm
  cases kind with
  | scalarDeclaration keyword =>
    obtain ⟨_, target, _, _, -, heq, -, htarget⟩ := h.scalarDeclaration
    obtain ⟨_, _, -, -, rfl⟩ := htarget.identifier
    cases heq
    exact Node.regular_declaration rfl
  | listDeclaration keyword =>
    obtain ⟨_, target, _, _, -, heq, -, htarget⟩ := h.listDeclaration
    obtain ⟨_, _, -, -, rfl⟩ := htarget.identifier
    cases heq
    exact Node.regular_declaration rfl
  | identifier name =>
    obtain ⟨_, _, -, -, heq⟩ := h.identifier
    cases heq
    exact Node.regular_plain rfl rfl rfl
  | foreachLoop =>
    obtain ⟨_, _, _, _, _, _, _, _, _, _, _, -, -, -, -, -, -, -, -, heq⟩ := h.foreachLoop
    cases heq
    exact Node.regular_plain rfl rfl rfl
  | conditional =>
    obtain ⟨_, _, test, _, _, _, _, _, _, -, -, -, -, htest, -, heq⟩ := h.conditional
    rcases heq with ⟨⟨⟩, -⟩ | ⟨_, _, _, -, -, -, ⟨⟩⟩
    · exact Node.regular_test rfl rfl rfl htest
    · exact Node.regular_test rfl rfl rfl htest
  | whileLoop =>
    obtain ⟨_, _, test, _, _, _, _, _, -, -, -, -, htest, -, ⟨⟩⟩ := h.whileLoop
    exact Node.regular_test rfl rfl rfl htest
  | forLoop =>
    obtain ⟨_, _, _, _, _, test, _, _, _, _, _, _, _, _, -, -, -, -, -, -, -, htest, -, -, ⟨⟩⟩ :=
      h.forLoop
    exact Node.regular_test rfl rfl rfl htest
  | _ => exact Node.regular_plain rfl rfl rfl

/-- The nodes of parsed programs are regular. -/
theorem regular_of_parse {tokens : List Token} {tree : Node} (h : parse tokens = .ok tree) :
    ∀ node ∈ tree.nodes, node.Regular := by
  intro node hnode
  obtain ⟨inside, hderives⟩ :=
    (Fills.lastTree (parse_ok h).1).exists_derives tree List.mem_cons_self node hnode
  exact hderives.regular

/-! ## Turns and nodes -/

/-- The name that a turn is about. -/
@[simp]
def Turn.name : Turn → String
  | use name _ => name
  | declare symbol => symbol.name

/-- Where the name stands. -/
@[simp]
def Turn.span : Turn → Span
  | use _ span => span
  | declare symbol => symbol.span

theorem NodeKind.visited_subset {α : Type} (kind : NodeKind) (parts : List α) :
    kind.visited parts ⊆ parts := by
  have hall := (kind.inCheckOrder_perm parts).subset
  cases kind with
  | identifier => exact List.nil_subset _
  | scalarDeclaration | listDeclaration | foreachLoop => exact List.take_subset _ _
  | _ => exact hall

namespace Node

variable {tree node : Node} {parent : NodeKind} {turn : Turn} {symbol : Symbol}

theorem turn?_eq_declare_iff :
    node.turn? parent = some (.declare symbol) ↔ node.declared? = some symbol := by
  obtain ⟨kind, children, span⟩ := node
  cases kind with
  | identifier name => by_cases h : parent.isDeclaration <;> simp [turn?, declared?, h]
  | _ => simp [turn?]

theorem exists_of_mem_turns (h : turn ∈ tree.turns parent) :
    ∃ node ∈ tree.nodes, ∃ around, node.turn? around = some turn := by
  induction tree using Node.induction generalizing parent with
  | step kind children span ih =>
    rw [turns_mk, List.mem_append, List.mem_flatMap, Option.mem_toList] at h
    rcases h with ⟨part, hpart, hturn⟩ | hself
    · have hmem := kind.visited_subset children hpart
      obtain ⟨node, hnode, hturn⟩ := ih part hmem hturn
      exact ⟨node, mem_nodes_iff.mpr (.inr ⟨part, hmem, hnode⟩), hturn⟩
    · exact ⟨_, self_mem_nodes _, parent, hself⟩

/-- Only what the nodes of a tree declare is declared in a turn. -/
theorem mem_symbols_of_mem_turns (h : .declare symbol ∈ tree.turns parent) :
    symbol ∈ tree.symbols := by
  obtain ⟨node, hnode, around, hturn⟩ := exists_of_mem_turns h
  exact List.mem_filterMap.mpr ⟨node, hnode, turn?_eq_declare_iff.mp hturn⟩

/-- A turn is about an identifier. -/
theorem exists_identifier_of_mem_turns (h : turn ∈ tree.turns parent) :
    ∃ node ∈ tree.nodes, node.identifier? = some turn.name ∧ node.span = turn.span := by
  obtain ⟨node, hnode, around, hturn⟩ := exists_of_mem_turns h
  cases turn with
  | declare symbol =>
    obtain ⟨-, first, others, hchildren, hname, hspan⟩ :=
      children_of_declared? (turn?_eq_declare_iff.mp hturn)
    exact ⟨first, mem_nodes_of_mem_children hnode (by simp [hchildren]), hname, hspan⟩
  | use name place =>
    refine ⟨node, hnode, ?_⟩
    obtain ⟨kind, children, span⟩ := node
    cases kind with
    | identifier found =>
      by_cases hdeclaration : around.isDeclaration <;> simp [turn?, hdeclaration] at hturn
      exact ⟨congrArg some hturn.1, hturn.2⟩
    | _ => simp [turn?] at hturn

theorem span_mem_wordSpans (h : turn ∈ tree.turns parent) : turn.span ∈ tree.wordSpans := by
  obtain ⟨node, hnode, hname, hspan⟩ := exists_identifier_of_mem_turns h
  exact List.mem_filterMap.mpr ⟨node, hnode, by rw [wordSpan_of_identifier? hname, hspan]⟩

section Regular

variable (hregular : ∀ node ∈ tree.nodes, node.Regular)
include hregular

/-- All that regular nodes declare is declared in some turn. -/
theorem mem_turns_of_mem_symbols (h : symbol ∈ tree.symbols) :
    .declare symbol ∈ tree.turns parent := by
  induction tree using Node.induction generalizing parent with
  | step kind children span ih =>
    have hself := hregular _ (self_mem_nodes _)
    rw [symbols_mk, List.mem_append, Option.mem_toList, List.mem_flatMap] at h
    rw [turns_mk, List.mem_append, Option.mem_toList, List.mem_flatMap, hself.visited]
    rcases h with hdeclared | ⟨part, hpart, hsymbol⟩
    · exact .inr (turn?_eq_declare_iff.mpr hdeclared)
    · refine .inl ⟨part, (kind.inCheckOrder_perm children).mem_iff.mpr hpart, ?_⟩
      exact ih part hpart (fun node hnode =>
        hregular node (mem_nodes_iff.mpr (.inr ⟨part, hpart, hnode⟩))) hsymbol

/-- What has its turn before a declaration stands before the declared name. -/
theorem pair_sublist_wordSpans (h : [turn, .declare symbol].Sublist (tree.turns parent)) :
    [turn.span, symbol.span].Sublist tree.wordSpans := by
  induction tree using Node.induction generalizing parent with
  | step kind children span ih =>
    have hself := hregular _ (self_mem_nodes _)
    have hperm := kind.inCheckOrder_perm children
    rw [wordSpans_eq]
    refine List.Sublist.trans ?_ (List.sublist_append_right _ _)
    rw [turns_mk, hself.visited, pair_sublist_append_iff] at h
    rcases h with hparts | hboth | ⟨hturn, hdeclares⟩
    · refine pair_sublist_flatMap_iff.mpr ?_
      rcases pair_sublist_flatMap_iff.mp hparts with ⟨part, hpart, hpair⟩ |
        ⟨part, part', hparts, hturn, hdeclares⟩
      · have hmem := hperm.mem_iff.mp hpart
        exact .inl ⟨part, hmem, ih part hmem (fun node hnode =>
          hregular node (mem_nodes_iff.mpr (.inr ⟨part, hmem, hnode⟩))) hpair⟩
      · rcases NodeKind.pair_sublist_of_inCheckOrder hparts with
          hordered | ⟨index, hindex, htest, -⟩
        · exact .inr ⟨part, part', hordered, span_mem_wordSpans hturn,
            span_mem_wordSpans hdeclares⟩
        · -- what is moved is a condition, which declares nothing
          have hsymbol := mem_symbols_of_mem_turns hdeclares
          rw [hself.condition index hindex part' htest] at hsymbol
          cases hsymbol
    · have hlength := hboth.length_le
      cases hsome : turn? parent ⟨kind, children, span⟩ <;> simp [hsome] at hlength
    · -- before a variable is declared, its declaration takes no turn
      have hdeclared := turn?_eq_declare_iff.mp (Option.mem_toList.mp hdeclares)
      have hkind := (children_of_declared? hdeclared).1
      obtain ⟨name, place, rfl⟩ := hself.target hkind
      obtain ⟨part, hpart, hturn⟩ := List.mem_flatMap.mp hturn
      obtain rfl := List.mem_singleton.mp (hperm.mem_iff.mp hpart)
      rw [turns_mk, turn?] at hturn
      simp [NodeKind.visited, hkind] at hturn

end Regular

end Node

/-! ## Parsed programs -/

section Parsed

variable {tokens : List Token} {tree : Node} {turn : Turn} {symbol : Symbol}
  (hparse : parse tokens = .ok tree) (horder : InOrder tokens)
include hparse horder

/-- A turn is about a token: its text is the name. -/
theorem exists_token_of_mem_turns (h : turn ∈ tree.turns .program) :
    ∃ token ∈ tokens, token.text = turn.name ∧ token.span = turn.span := by
  obtain ⟨node, hnode, hname, hspan⟩ := Node.exists_identifier_of_mem_turns h
  have hsome : tokens ≠ [] := by
    rintro rfl
    obtain rfl := Except.ok.inj hparse
    cases h
  have hword : node.word? = some turn.name := by
    obtain ⟨kind, children, span⟩ := node
    cases kind <;> cases hname
    rfl
  rw [← hspan]
  have hstand : Stand [tree] tokens := (parse_placed hsome hparse).last
  exact hstand.exists_token horder tree List.mem_cons_self node hnode hword

/-- A turn that is taken before a declaration is about a name that ends before the declared name. -/
theorem stop_le_of_turns (h : [turn, .declare symbol].Sublist (tree.turns .program)) :
    turn.span.stop.offset ≤ symbol.span.start.offset := by
  have hspans := Node.pair_sublist_wordSpans (regular_of_parse hparse) h
  have hpair := (pairwise_wordSpans hparse horder).sublist hspans
  exact (List.rel_of_pairwise_cons hpair List.mem_cons_self).1

end Parsed

end Census
