import Census.Proofs.Check.Programs

/-!
# Types of operands

In a program that passes the check, the operands of every operator have types that the operator
takes, given the declarations that are left in the end. Operators between operands take one type
each. Operators before an operand only refuse one, so that they take lists as well.

- `Node.OperandsTyped`: what an operator asks of its operands.
- `HasType.unique`: no expression has two types.
- `analyze_types_operands`: all operators of a checked program get what they ask for.
- `negation_of_list_accepted`: a program that passes the check and negates a list.
-/

namespace Census

open Check

variable {types : String → Option ValueType} {kind : NodeKind} {items : List Item}
  {tree : Node} {tokens : List Token}

/-- What the operators of a node ask of the types of its operands. -/
def Node.OperandsTyped (types : String → Option ValueType) : Node → Prop
  | ⟨.sum _, operands, _⟩ => 2 ≤ operands.length → ∀ operand ∈ operands, HasType types operand .num
  | ⟨.product _, operands, _⟩ =>
    2 ≤ operands.length → ∀ operand ∈ operands, HasType types operand .num
  | ⟨.logical _, operands, _⟩ =>
    2 ≤ operands.length → ∀ operand ∈ operands, HasType types operand .bool
  | ⟨.comparison (some operator), [left, right], _⟩ =>
    ∃ type, HasType types left type ∧ HasType types right type ∧
      (operator = "==" ∨ operator = "!=" ∨ type = .num)
  | ⟨.negation operators, [operand], _⟩ => operators ≠ [] →
    ∃ type, HasType types operand type ∧ (type = .bool ∨ type.isList = true)
  | ⟨.signed operators, [operand], _⟩ => operators ≠ [] →
    ∃ type, HasType types operand type ∧ (type = .num ∨ type.isList = true)
  | _ => True

/-! ## Expressions -/

namespace HasType

variable {type type' : ValueType}

/-- No expression has two types. -/
theorem unique (h : HasType types tree type) (h' : HasType types tree type') : type = type' := by
  induction h generalizing type' with
  | identifier h => exact Option.some.inj (h.symm.trans (hasType_identifier_iff.mp h'))
  | integer => exact (hasType_integer_iff.mp h').symm
  | boolean => exact (hasType_boolean_iff.mp h').symm
  | alone hkind _ ih => exact ih ((hasType_alone_iff hkind).mp h')
  | joined hkind hmany => exact ((hasType_joined_iff hkind hmany).mp h').1.symm
  | compared => exact (hasType_compared_iff.mp h').1.symm
  | stacked hkind _ _ ih => exact ih ((hasType_stacked_iff hkind).mp h').1

/-- An expression has its type because all its operators get what they ask for. -/
theorem operandsTyped (h : HasType types tree type) :
    ∀ node ∈ tree.nodes, node.OperandsTyped types := by
  induction h with
  | identifier | integer | boolean => simp [Node.OperandsTyped]
  | @alone kind operand span type hkind h ih =>
    -- a lone operand stands under no operator
    have hself : Node.OperandsTyped types ⟨kind, [operand], span⟩ := by
      cases kind <;> cases hkind <;> simp [Node.OperandsTyped]
    simpa [hself] using ih
  | @joined kind operands span type hkind hmany h ih =>
    have hself : Node.OperandsTyped types ⟨kind, operands, span⟩ := by
      cases kind <;> cases hkind <;> exact fun _ => h
    simpa [hself] using fun node operand hoperand => ih operand hoperand node
  | @compared operator left right span type hleft hright horder ihLeft ihRight =>
    have hself : Node.OperandsTyped types ⟨.comparison (some operator), [left, right], span⟩ :=
      ⟨type, hleft, hright, horder⟩
    simpa [hself, or_imp, forall_and] using ⟨ihLeft, ihRight⟩
  | @stacked kind operators refused operand span type hkind h hrefused ih =>
    have hself : Node.OperandsTyped types ⟨kind, [operand], span⟩ := by
      cases kind <;> cases hkind <;> refine fun hsome => ⟨type, h, ?_⟩ <;>
        revert hrefused <;> cases type <;> simp [hsome, ValueType.isList]
    simpa [hself] using ih

end HasType

/-! ## Programs -/

/-- The constructs that stand around expressions. -/
def Category.aroundExpressions : List Category := .program :: .identifier :: Category.statements

theorem Production.aroundExpressions (h : Production kind items)
    (hkind : kind.category ∈ Category.aroundExpressions) :
    ∀ category ∈ Item.parts items,
      category = .expression ∨ category ∈ Category.aroundExpressions := by
  cases h with
  | block count => simp [Item.parts, Category.aroundExpressions, Category.statements]
  | simple hmem | declaration hmem =>
    simp only [List.mem_cons, List.not_mem_nil, or_false] at hmem
    rcases hmem with rfl | rfl <;> decide
  | compound hmem =>
    simp only [List.mem_cons, List.not_mem_nil, or_false] at hmem
    rcases hmem with rfl | rfl | rfl | rfl <;> decide
  | plain _ => exact absurd hkind (by decide)
  | _ => revert hkind; simp [Item.parts, NodeKind.category, Category.aroundExpressions,
      Category.statements]

/-- Operators only stand in expressions. -/
theorem Fills.operandsTyped {trees : List Node} (h : Fills items trees tokens)
    (hitems : ∀ category ∈ Item.parts items,
      category = .expression ∨ category ∈ Category.aroundExpressions)
    (htyped : ∀ tree ∈ trees, ∀ node ∈ tree.nodes, node.Typed types) :
    ∀ tree ∈ trees, ∀ node ∈ tree.nodes, node.OperandsTyped types := by
  induction h with
  | nil => simp
  | mark _ _ ih => exact ih hitems htyped
  | word _ _ _ ih => exact ih hitems htyped
  | @part category tree _ _ _ _ _ hcategory production below _ ihBelow ih =>
    obtain ⟨hfirst, hothers⟩ := List.forall_mem_cons.mp hitems
    obtain ⟨htree, htrees⟩ := List.forall_mem_cons.mp htyped
    refine List.forall_mem_cons.mpr ⟨?_, ih hothers htrees⟩
    rcases hfirst with rfl | haround
    · have hexpression : Derives .expression tree _ := ⟨hcategory, _, production, below⟩
      obtain ⟨content, span, rfl, -⟩ := hexpression.expression
      obtain ⟨type, htype⟩ := htree _ (Node.self_mem_nodes _)
      exact htype.operandsTyped
    · obtain ⟨kind, children, span⟩ := tree
      subst hcategory
      have hbelow := ihBelow (production.aroundExpressions haround) fun child hchild node hnode =>
        htree node (by simpa using .inr ⟨child, hchild, hnode⟩)
      have hself : Node.OperandsTyped types ⟨kind, children, span⟩ := by
        cases kind <;> first | exact trivial | contradiction
      simpa [hself] using fun node child hchild => hbelow child hchild node

/-- **Operators get the types they take**. In a program that passes the check, the operands of
every operator have types that it takes, under the declarations that the check leaves. -/
theorem analyze_types_operands {metrics : Metrics} (hparse : parse tokens = .ok tree)
    (h : analyze tree = .ok metrics) :
    ∀ node ∈ tree.nodes, node.OperandsTyped (Checker.check {} tree).2.symbols.types := by
  have hrun := Checker.succeeds_of_check h
  obtain ⟨haccepts, hend⟩ := accepts_of_succeeds hparse hrun
  rw [hend, Checker.types_after]
  exact (Fills.lastTree (parse_ok hparse).1).operandsTyped (by decide) haccepts.typed tree
    List.mem_cons_self

/-- A negated comparison in an assignment. -/
theorem analyze_types_operands_negation :
    ∃ tokens tree, tokenize "num x; bool y; y = !(x < 3) && true;" = .ok tokens ∧
      parse tokens = .ok tree ∧ analyze tree = .ok ⟨2, 0, 0, 0, 3⟩ ∧
      ∀ node ∈ tree.nodes, node.OperandsTyped (Checker.check {} tree).2.symbols.types := by
  obtain ⟨tokens, tree, htokens, hparse, hanalyze⟩ := exists_of_map_parse (by decide +kernel :
    (tokenize "num x; bool y; y = !(x < 3) && true;" >>= parse).map analyze
      = .ok (.ok ⟨2, 0, 0, 0, 3⟩))
  exact ⟨tokens, tree, htokens, hparse, hanalyze, analyze_types_operands hparse hanalyze⟩

/-- Whether the node negates a variable of the given name, and nothing else. -/
def Node.negates (name : String) : Node → Bool
  | ⟨.negation ["!"], [⟨.value, [⟨.identifier found, [], _⟩], _⟩], _⟩ => found == name
  | _ => false

/-- **Lists can be negated**. A program that negates a list passes the check, although the operand
is not `bool`. -/
theorem negation_of_list_accepted :
    ∃ tokens tree, tokenize "listnum a; listnum b; a = !b;" = .ok tokens ∧
      parse tokens = .ok tree ∧ analyze tree = .ok ⟨2, 0, 0, 0, 1⟩ ∧
      ∃ operand span, ⟨.negation ["!"], [operand], span⟩ ∈ tree.nodes ∧
        HasType (Checker.check {} tree).2.symbols.types operand .listNum ∧
        ¬ HasType (Checker.check {} tree).2.symbols.types operand .bool := by
  obtain ⟨tokens, tree, htokens, hparse, hfacts⟩ := exists_of_map_parse (by decide +kernel :
    (tokenize "listnum a; listnum b; a = !b;" >>= parse).map (fun tree =>
        (analyze tree, (Checker.check {} tree).2.symbols.types "b", tree.nodes.any (·.negates "b")))
      = .ok (.ok ⟨2, 0, 0, 0, 1⟩, some .listNum, true))
  simp only [Prod.mk.injEq, List.any_eq_true] at hfacts
  obtain ⟨hanalyze, hlist, node, hnode, hnegates⟩ := hfacts
  unfold Node.negates at hnegates
  split at hnegates
  · next found place inner span =>
    obtain rfl := beq_iff_eq.mp hnegates
    have htype : HasType (Checker.check {} tree).2.symbols.types
        ⟨.value, [⟨.identifier "b", [], place⟩], inner⟩ .listNum :=
      .alone rfl (.identifier hlist)
    exact ⟨tokens, tree, htokens, hparse, hanalyze, _, _, hnode, htype,
      fun hbool => by cases htype.unique hbool⟩
  · cases hnegates

end Census
