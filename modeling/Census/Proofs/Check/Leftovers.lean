import Census.Proofs.Check.Sessions
import Census.Proofs.Check.TextOrder

/-!
# What a check leaves behind

A check that fails keeps what it has declared until then. Conditions are checked behind the other
parts of their construct, but they declare nothing, so the declarations are made in the order of the
text, and those that are left are the first ones.

- `Node.declaredIn_turns`: turns declare what the tree declares, in the same order.
- `Checker.check_taken`: a check takes some first turns, and all of them if it succeeds.
- `Walker.check_leaves_first`: the first declarations of a program are left, as many as are counted.
-/

namespace Census

open Check

/-! ## Declarations in the order of turns -/

/-- Where a condition yields nothing, it may as well stand in its place. -/
theorem NodeKind.flatMap_inCheckOrder {α β : Type} {kind : NodeKind} {parts : List α}
    {f : α → List β}
    (h : ∀ index ∈ kind.conditionIndex?, ∀ test ∈ parts[index]?, f test = []) :
    (kind.inCheckOrder parts).flatMap f = parts.flatMap f := by
  unfold inCheckOrder
  cases hindex : kind.conditionIndex? with
  | none => rfl
  | some index =>
    cases htest : parts[index]? with
    | none =>
      have hlength := List.getElem?_eq_none_iff.mp htest
      simp [List.eraseIdx_of_length_le hlength, htest]
    | some test =>
      obtain ⟨hlength, hget⟩ := List.getElem?_eq_some_iff.mp htest
      have hparts : parts = parts.take index ++ test :: parts.drop (index + 1) := by
        rw [← hget, List.cons_getElem_drop_succ, List.take_append_drop]
      have hnone := h index hindex test htest
      conv_rhs => rw [hparts]
      simp [List.eraseIdx_eq_take_drop_succ, htest, hnone]

namespace Node

variable {tree : Node} {parent : NodeKind}

/-- A declaration of the language declares something. -/
theorem Regular.isSome_declared? {node : Node} (h : node.Regular) :
    node.declared?.isSome = node.kind.isDeclaration := by
  obtain ⟨kind, children, span⟩ := node
  cases hkind : kind.isDeclaration with
  | false => rw [declared?_eq_none hkind, Option.isSome_none]
  | true =>
    obtain ⟨name, place, rfl⟩ := h.target hkind
    cases kind <;> cases hkind <;> rfl

theorem declaredIn_turn? (node : Node) :
    declaredIn (node.turn? parent).toList = node.declared?.toList := by
  have hdeclares (found : Option Symbol) :
      declaredIn (found.map Turn.declare).toList = found.toList := by
    cases found <;> rfl
  obtain ⟨kind, children, span⟩ := node
  cases kind with
  | identifier name => cases h : parent.isDeclaration <;> simp [turn?, h] <;> rfl
  | scalarDeclaration | listDeclaration => exact hdeclares _
  | _ => rfl

/-- The turns of a tree declare what the tree declares, in the same order. -/
theorem declaredIn_turns (hregular : ∀ node ∈ tree.nodes, node.Regular) :
    declaredIn (tree.turns parent) = tree.symbols := by
  induction tree using Node.induction generalizing parent with
  | step kind children span ih =>
    have hself := hregular _ (self_mem_nodes _)
    have hparts : declaredIn ((kind.visited children).flatMap (turns kind))
        = children.flatMap symbols := by
      rw [hself.visited, declaredIn, List.filterMap_flatMap,
        ← NodeKind.flatMap_inCheckOrder hself.condition, List.flatMap_def, List.flatMap_def]
      refine congrArg List.flatten (List.map_congr_left fun part hpart => ?_)
      have hmem := (kind.inCheckOrder_perm children).subset hpart
      exact ih part hmem fun node hnode =>
        hregular node (mem_nodes_iff.mpr (.inr ⟨part, hmem, hnode⟩))
    rw [turns_mk, symbols_mk, declaredIn_append, hparts, declaredIn_turn?]
    cases hkind : kind.isDeclaration with
    | false => rw [declared?_eq_none hkind]; simp
    | true =>
      -- a declaration takes its turn behind its identifier, which declares nothing
      obtain ⟨name, place, rfl⟩ := hself.target hkind
      have hnone : [Node.mk (.identifier name) [] place].flatMap symbols = [] := rfl
      rw [hnone, List.nil_append, List.append_nil]

/-- The variables of a tree of regular nodes belong to the declarations in it, one to each. -/
theorem map_some_symbols (hregular : ∀ node ∈ tree.nodes, node.Regular) :
    tree.symbols.map some = (tree.nodes.filter (·.kind.isDeclaration)).map declared? := by
  rw [symbols]
  generalize tree.nodes = nodes at hregular ⊢
  induction nodes with
  | nil => rfl
  | cons node others ih =>
    obtain ⟨hnode, hothers⟩ := List.forall_mem_cons.mp hregular
    have hsome := hnode.isSome_declared?
    cases hdeclared : node.declared? with
    | none =>
      rw [List.filterMap_cons_none hdeclared, List.filter_cons_of_neg (by simp_all), ih hothers]
    | some symbol =>
      rw [List.filterMap_cons_some hdeclared, List.filter_cons_of_pos (by simp_all), List.map_cons,
        List.map_cons, ih hothers, hdeclared]

end Node

/-! ## Turns that are taken -/

variable {tree : Node} {tokens : List Token}

/-- However a check ends, it has declared what some first turns of the tree declare; if it succeeds
these are all. -/
theorem Checker.check_taken (s : Checker) (tree : Node) :
    ∃ done, done <+: tree.turns .program ∧
      (s.check tree).2.symbols = s.symbols.extend (declaredIn done) ∧
      ∀ metrics, (s.check tree).1 = .ok metrics → done = tree.turns .program := by
  have hends := checkProgram_trace tree s
  revert hends
  unfold Check.Trace Ends
  rw [check_eq]
  rcases (checkProgram tree).run.run s with ⟨problem | metrics, s'⟩
  · intro hhalts
    obtain ⟨done, rest, hturns, -, hsymbols⟩ := hhalts.taken
    exact ⟨done, ⟨rest, hturns.symm⟩, hsymbols, nofun⟩
  · rintro ⟨hfinishes, -⟩
    exact ⟨_, List.prefix_refl _, hfinishes.symbols, fun _ _ => rfl⟩

/-- **The first declarations are left**. After the check of a parsed program in a session, whether
it succeeds or fails, the table has become longer by the first declarations of the program, each
with the type that its keyword names and the place of its identifier. They are as many as the check
has counted declarations, and all of them if it succeeds. -/
theorem Walker.check_leaves_first (earlier : List Node) (hparse : parse tokens = .ok tree) :
    let s := session earlier
    let s' := (s.check tree).2
    let declarations := tree.nodes.filter (·.kind.isDeclaration)
    ∃ k added, s'.metrics.declarations = s.metrics.declarations + k ∧ k ≤ declarations.length ∧
      s'.symbols.entries = s.symbols.entries ++ added ∧
      added.map some = (declarations.take k).map Node.declared? ∧
      ∀ metrics, (s.check tree).1 = .ok metrics → k = declarations.length := by
  intro s s' declarations
  have hregular := regular_of_parse hparse
  have hall : tree.symbols.map some = declarations.map Node.declared? :=
    Node.map_some_symbols hregular
  have hlength : tree.symbols.length = declarations.length := by
    simpa using congrArg List.length hall
  obtain ⟨checker, hchecker⟩ := exists_session_eq earlier
  obtain ⟨done, ⟨rest, hturns⟩, hsymbols, hfinished⟩ := checker.check_taken tree
  have hsplit : declaredIn done ++ declaredIn rest = tree.symbols := by
    rw [← declaredIn_append, hturns, Node.declaredIn_turns hregular]
  have hentries : s'.symbols.entries = s.symbols.entries ++ declaredIn done := by
    simp only [s', s, hchecker, check_eq, hsymbols, SymbolTable.extend]
  refine ⟨(declaredIn done).length, declaredIn done, ?_, ?_, hentries, ?_, ?_⟩
  · -- there are as many new entries as declarations are counted
    obtain ⟨counts, hcounts, hcount⟩ := (check_expands earlier tree).counts
    have hgrowth : s'.symbols.entries.length = s.symbols.entries.length + counts.declarations :=
      hcount
    rw [hentries, List.length_append, Nat.add_left_cancel_iff] at hgrowth
    rw [hgrowth]
    exact congrArg Metrics.declarations hcounts
  · rw [← hlength, ← hsplit, List.length_append]
    exact Nat.le_add_right _ _
  · rw [List.map_take, ← hall, ← List.map_take, ← hsplit, List.take_left]
  · intro metrics hmetrics
    have hok : (checker.check tree).1 = .ok metrics := by
      simpa only [s, hchecker, check_eq] using hmetrics
    rw [hfinished metrics hok, Node.declaredIn_turns hregular, hlength]

/-- The check fails at the condition of a loop, when the body has been checked. -/
theorem Walker.check_leaves_first_condition :
    ∃ tokens tree, tokenize "num x; while (y) \x7bbool z;\x7d num w;" = .ok tokens ∧
      parse tokens = .ok tree ∧
      let s' := ((session []).check tree).2
      let declarations := tree.nodes.filter (·.kind.isDeclaration)
      s'.symbols.names = ["x", "z"] ∧ declarations.length = 3 ∧
        ∃ k added, s'.metrics.declarations = 0 + k ∧ k ≤ declarations.length ∧
          s'.symbols.entries = [] ++ added ∧
          added.map some = (declarations.take k).map Node.declared? ∧
          ∀ metrics, ((session []).check tree).1 = .ok metrics → k = declarations.length := by
  obtain ⟨tokens, tree, htokens, hparse, hfacts⟩ := exists_of_map_parse (by decide +kernel :
    (tokenize "num x; while (y) \x7bbool z;\x7d num w;" >>= parse).map (fun tree =>
        (((session []).check tree).2.symbols.names,
          (tree.nodes.filter (·.kind.isDeclaration)).length))
      = .ok (["x", "z"], 3))
  obtain ⟨hnames, hlength⟩ := Prod.mk.inj hfacts
  exact ⟨tokens, tree, htokens, hparse, hnames, hlength, check_leaves_first [] hparse⟩

end Census
