import Census.Proofs.Check.Endings
import Census.Proofs.Check.Programs

/-!
# What checks find

A check of a program that parsing gives succeeds or finds a problem that programs can have: no
part is missing where a rule looks for one, every expression has a type to answer, and the walk
stays above the limit on depth.

- `Category.produces`: the constructs that produce types.
- `ProperVisit`: a visit that finds no malformation.
- `visitWithin_proper`: visits to constructs that are not too deep are proper. There is a lemma for
  each rule, which says what parts the rule needs.
- `check_never_malformed`: what a check of a program finds.
-/

namespace Census

open Check

/-- Whether a construct produces a type inside a construct of the given kind. Identifiers only do
so as values. -/
def Category.produces (parent : NodeKind) : Category → Bool
  | identifier => parent = .value
  | scalarDeclaration => true
  | expression => true
  | comparison => true
  | sum => true
  | product => true
  | logical => true
  | negation => true
  | signed => true
  | value => true
  | boolean => true
  | integer => true
  | _ => false

/-- Visiting the node finds no malformation, and produces a type if the node's construct does. -/
def ProperVisit (visit : Visit) (parent : NodeKind) (node : Node) : Prop :=
  Proper (visit parent node) fun produced =>
    node.category.produces parent = true → produced.isSome = true

/-- A visit to a node whose construct produces a type. -/
theorem ProperVisit.typed {visit : Visit} {parent : NodeKind} {node : Node}
    (h : ProperVisit visit parent node) (hproduces : node.category.produces parent = true) :
    Proper (visit parent node) fun produced => produced.isSome = true :=
  h.imp fun _ hsome => hsome hproduces

namespace Rule

variable {visit : Visit} {parent kind : NodeKind} {children : List Node} {span : Span}

/-! ## Visits in a row -/

/-- A row produces a type if one of its nodes does. -/
theorem visitEach_proper {nodes : List Node} (h : ∀ node ∈ nodes, ProperVisit visit parent node) :
    Proper (visitEach visit parent nodes) fun produced =>
      (∃ node ∈ nodes, node.category.produces parent = true) → produced.isSome = true := by
  -- the fold starts with any type, as the induction meets it in the middle
  have hfold : ∀ before, Proper (nodes.foldlM
      (fun produced node => return (← visit parent node).or produced) before) fun produced =>
      (before.isSome = true ∨ ∃ node ∈ nodes, node.category.produces parent = true) →
        produced.isSome = true := by
    induction nodes with
    | nil => exact fun before => proper_pure (by simp)
    | cons node others ih =>
      intro before
      obtain ⟨hfirst, hothers⟩ := List.forall_mem_cons.mp h
      rw [List.foldlM_cons, bind_assoc]
      refine hfirst.bind fun first hsome => ?_
      rw [pure_bind]
      refine (ih hothers (first.or before)).imp fun produced hproduced hany => hproduced ?_
      simp only [List.mem_cons, exists_eq_or_imp] at hany
      rcases hany with hbefore | hnode | hrest
      · exact .inl (by simp [hbefore])
      · exact .inl (by simp [hsome hnode])
      · exact .inr hrest
  exact (hfold none).imp fun _ hproduced hany => hproduced (.inr hany)

theorem visitTyped_proper {node : Node}
    (h : Proper (visit parent node) fun produced => produced.isSome = true) :
    Proper (visitTyped visit parent node) fun _ => True :=
  h.bind fun _ hsome => proper_typeOf hsome

/-! ## Rules of statements -/

/-- A declaration needs a part with a name; that the name is taken is a problem that programs can
have. -/
theorem declaration_proper {target : Node} {name : String} {type : ValueType}
    (h : ProperVisit visit kind target) (hname : target.identifier? = some name) :
    Proper (declaration visit ⟨kind, [target], span⟩ type) fun _ => True := by
  refine proper_child_bind target rfl ?_
  exact h.bind fun _ _ => (proper_nameOf hname).bind fun _ _ => proper_declare _ _ _

/-- An assignment needs two parts, the name of the first and the type of the second. -/
theorem assignment_proper {target content : Node} {name : String}
    (htarget : ProperVisit visit .assignment target) (hname : target.identifier? = some name)
    (hcontent : ProperVisit visit .assignment content)
    (hproduces : content.category.produces .assignment = true) :
    Proper (assignment visit ⟨.assignment, [target, content], span⟩) fun _ => True := by
  refine proper_child_bind target rfl (proper_child_bind content rfl ?_)
  have hrow := visitEach_proper
    (List.forall_mem_cons.mpr ⟨htarget, List.forall_mem_singleton.mpr hcontent⟩)
  exact hrow.bind fun _ hsome => (proper_nameOf hname).bind fun _ _ =>
    (proper_lookupType _ _).bind fun _ _ =>
    (proper_typeOf (hsome ⟨_, by simp, hproduces⟩)).bind fun _ _ =>
    proper_ite (proper_pure trivial) (proper_throw rfl)

/-- What is under a condition needs the condition where the index says, and its type. -/
theorem conditional_proper {index : Nat} {test : Node} (htest : children[index]? = some test)
    (h : ∀ child ∈ children, ProperVisit visit kind child)
    (hproduces : test.category.produces kind = true) :
    Proper (conditional visit ⟨kind, children, span⟩ index) fun _ => True := by
  have hvisit := (h test (List.mem_of_getElem? htest)).typed hproduces
  refine proper_child_bind test htest ?_
  have hothers : ∀ child ∈ children.eraseIdx index, ProperVisit visit kind child :=
    fun child hchild => h child (List.mem_of_mem_eraseIdx hchild)
  exact (visitEach_proper hothers).bind fun _ _ => (visitTyped_proper hvisit).bind fun _ _ =>
    proper_ite (proper_pure trivial) (proper_throw rfl)

/-- A loop over a list needs the type of its variable and the name of the list. -/
theorem foreachLoop_proper {entry array body : Node} {name : String}
    (h : ∀ child ∈ [entry, array, body], ProperVisit visit .foreachLoop child)
    (hproduces : entry.category.produces .foreachLoop = true)
    (hname : array.identifier? = some name) :
    Proper (foreachLoop visit ⟨.foreachLoop, [entry, array, body], span⟩) fun _ => True := by
  refine proper_child_bind entry rfl (proper_child_bind array rfl (proper_child_bind body rfl ?_))
  exact (visitTyped_proper ((h _ (by simp)).typed hproduces)).bind fun _ _ =>
    (h _ (by simp)).bind fun _ _ => (proper_nameOf hname).bind fun _ _ =>
    (proper_lookupType _ _).bind fun _ _ =>
    proper_ite (proper_ite ((h _ (by simp)).bind fun _ _ => proper_pure trivial)
      (proper_throw_bind rfl)) (proper_throw_bind rfl)

/-! ## Rules of expressions -/

section Operands

variable {operands : List Node}
  (h : ∀ operand ∈ operands, Proper (visit kind operand) fun produced => produced.isSome = true)
include h

/-- As many types as operands. -/
theorem mapM_visitTyped_proper :
    Proper (operands.mapM (visitTyped visit kind)) fun types => types.length = operands.length := by
  induction operands with
  | nil => exact proper_pure rfl
  | cons operand others ih =>
    obtain ⟨hfirst, hothers⟩ := List.forall_mem_cons.mp h
    rw [List.mapM_cons]
    exact (visitTyped_proper hfirst).bind fun _ _ => (ih hothers).bind fun _ hlength =>
      proper_pure (by simp [hlength])

/-- A comparison needs one operand, or two and an operator. -/
theorem comparison_proper {operator : Option String}
    (harity : operands.length = 1 ∨ operands.length = 2 ∧ operator.isSome = true) :
    Proper (comparison visit ⟨kind, operands, span⟩ operator) fun _ => True := by
  refine (mapM_visitTyped_proper h).bind fun types hlength => ?_
  split
  · exact proper_pure trivial
  · exact proper_ite (proper_ite ((proper_count _).bind fun _ _ => proper_pure trivial)
      (proper_throw_bind rfl)) (proper_throw_bind rfl)
  · next halone hpair =>
    -- the types are as many as the operands, so one of the other cases applies
    rcases harity with hone | ⟨htwo, hoperator⟩
    · obtain ⟨type, rfl⟩ := List.length_eq_one_iff.mp (hlength.trans hone)
      exact (halone type rfl).elim
    · obtain ⟨left, right, rfl⟩ := List.length_eq_two.mp (hlength.trans htwo)
      obtain ⟨first, second, rfl⟩ := List.length_eq_two.mp htwo
      obtain ⟨operator, rfl⟩ := Option.isSome_iff_exists.mp hoperator
      exact (hpair first second left right operator rfl rfl rfl).elim

/-- Operands of the wrong type are a problem that programs can have. -/
theorem forM_operand_proper {needed : ValueType} :
    Proper (operands.forM (operand visit kind needed)) fun _ => True := by
  induction operands with
  | nil => exact proper_pure trivial
  | cons operand others ih =>
    obtain ⟨hfirst, hothers⟩ := List.forall_mem_cons.mp h
    have hoperand : Proper (Rule.operand visit kind needed operand) fun _ => True :=
      (visitTyped_proper hfirst).bind fun _ _ => proper_ite (proper_pure trivial) (proper_throw rfl)
    exact hoperand.bind fun _ _ => ih hothers

/-- A chain produces the type of its operators, or of its only operand. -/
theorem chain_proper {needed : ValueType} (hsome : operands ≠ []) :
    Proper (chain visit ⟨kind, operands, span⟩ needed) fun produced => produced.isSome = true := by
  match operands, hsome, h with
  | [operand], _, h =>
    have hvisit := h operand List.mem_cons_self
    show Proper (visitEach visit kind [operand]) _
    simpa [visitEach] using hvisit
  | _ :: _ :: _, _, h =>
    exact (forM_operand_proper h).bind fun _ _ => (proper_count _).bind fun _ _ => proper_pure rfl

end Operands

/-- Operators before an operand need its type and produce it. -/
theorem stacked_proper {operand : Node} {operators : List String} {refused : ValueType}
    (h : Proper (visit kind operand) fun produced => produced.isSome = true) :
    Proper (stacked visit ⟨kind, [operand], span⟩ operators refused) fun produced =>
      produced.isSome = true := by
  have hrow : Proper (visitChildren visit ⟨kind, [operand], span⟩) fun produced =>
      produced.isSome = true := by
    simpa [visitChildren, visitEach] using h
  refine hrow.bind fun produced hsome => ?_
  have hcounted : Proper (do
      count fun metrics => { metrics with operators := metrics.operators + operators.length }
      return produced) fun produced => produced.isSome = true :=
    (proper_count _).bind fun _ _ => proper_pure hsome
  split
  · exact (proper_typeOf hsome).bind fun _ _ => proper_ite (proper_throw_bind rfl) hcounted
  · exact hcounted

/-- A literal has no parts, so the type it produces is its own. -/
theorem literal_proper {type : ValueType} :
    Proper (literal visit ⟨kind, [], span⟩ type) fun produced => produced.isSome = true :=
  (visitEach_proper (by simp)).bind fun _ _ => proper_pure (by simp)

/-- Inside a declaration an identifier produces no type, but a declaration is no value. -/
theorem identifier_proper {node : Node} {name : String} :
    Proper (identifier parent node name) fun produced =>
      parent = .value → produced.isSome = true := by
  unfold identifier
  split
  · next hdeclaration =>
    refine proper_pure fun hvalue => ?_
    rw [hvalue] at hdeclaration
    cases hdeclaration
  · refine (proper_lookupType _ _).bind fun _ _ => proper_pure fun hvalue => ?_
    simp [hvalue]

/-! ## Rules of constructs -/

/-- A rule that runs a check and answers nothing. -/
theorem proper_answering {α : Type} {check : Check α} {answers : Option ValueType → Prop}
    {answer : Option ValueType} (h : Proper check fun _ => True) (hanswer : answers answer) :
    Proper (do let _ ← check; return answer) answers :=
  h.bind fun _ _ => proper_pure hanswer

/-- The same behind a count. -/
theorem proper_counting {check : Check Unit} {answers : Option ValueType → Prop}
    {step : Metrics → Metrics} {answer : Option ValueType} (h : Proper check fun _ => True)
    (hanswer : answers answer) : Proper (do count step; check; return answer) answers :=
  (proper_count step).bind fun _ _ => proper_answering h hanswer

/-- Constructs that only stand around their parts. -/
theorem apply_proper_transparent
    (hkind : kind ∈ [.program, .declaration, .block, .statement, .expression, .value])
    (h : ∀ child ∈ children, ProperVisit visit kind child)
    (hproduces : kind.category.produces parent = true →
      ∃ child ∈ children, child.category.produces kind = true) :
    ProperVisit (apply visit) parent ⟨kind, children, span⟩ := by
  have hrow := (visitEach_proper h).imp fun _ hsome hkind => hsome (hproduces hkind)
  simp only [List.mem_cons, List.not_mem_nil, or_false] at hkind
  rcases hkind with rfl | rfl | rfl | rfl | rfl | rfl <;> exact hrow

/-- Both kinds of declarations go by one rule, and only scalar ones produce a type. -/
theorem apply_proper_declaration {target : Node} {name : String}
    (hkind : kind.isDeclaration = true) (h : ProperVisit visit kind target)
    (hname : target.identifier? = some name) :
    ProperVisit (apply visit) parent ⟨kind, [target], span⟩ := by
  cases kind <;> cases hkind
  · exact proper_answering (declaration_proper h hname) fun _ => rfl
  · exact proper_answering (declaration_proper h hname) nofun

/-- The three constructs under conditions differ in where the condition is and in what they count.
-/
theorem apply_proper_conditional {index : Nat} {test : Node}
    (hindex : kind.conditionIndex? = some index) (htest : children[index]? = some test)
    (h : ∀ child ∈ children, ProperVisit visit kind child)
    (hproduces : test.category.produces kind = true) :
    ProperVisit (apply visit) parent ⟨kind, children, span⟩ := by
  cases kind <;> cases hindex <;>
    exact proper_counting (conditional_proper htest h hproduces) nofun

/-- One operand or two with an operator between them are all that the rule allows for. -/
theorem apply_proper_comparison {operands : List Node} {operator : Option String}
    (harity : operands.length = 1 ∨ operands.length = 2 ∧ operator.isSome = true)
    (h : ∀ operand ∈ operands,
      Proper (visit (.comparison operator) operand) fun produced => produced.isSome = true) :
    ProperVisit (apply visit) parent ⟨.comparison operator, operands, span⟩ :=
  (comparison_proper h harity).bind fun _ _ => proper_pure fun _ => rfl

/-- Which operators join the operands only decides what type they need. -/
theorem apply_proper_chain {operands : List Node} {needed : ValueType}
    (hkind : kind.joined? = some needed) (hsome : operands ≠ [])
    (h : ∀ operand ∈ operands, Proper (visit kind operand) fun produced => produced.isSome = true) :
    ProperVisit (apply visit) parent ⟨kind, operands, span⟩ := by
  cases kind <;> cases hkind <;> exact (chain_proper h hsome).imp fun _ hsome _ => hsome

/-- Which operators are stacked only decides what type they refuse. -/
theorem apply_proper_stacked {operand : Node} {operators : List String} {refused : ValueType}
    (hkind : kind.stacked? = some (operators, refused))
    (h : Proper (visit kind operand) fun produced => produced.isSome = true) :
    ProperVisit (apply visit) parent ⟨kind, [operand], span⟩ := by
  cases kind <;> cases hkind <;> exact (stacked_proper h).imp fun _ hsome _ => hsome

end Rule

/-! ## Visits to constructs -/

/-- A visit is proper to all constructs of at most the given height. -/
def ProperWithin (visit : Visit) (levels : Nat) : Prop :=
  ∀ {category : Category} {tree : Node} {tokens : List Token} (parent : NodeKind),
    Derives category tree tokens → tree.height ≤ levels → ProperVisit visit parent tree

namespace ProperWithin

variable {visit : Visit} {levels : Nat} (hvisit : ProperWithin visit levels)
include hvisit

section Parts

variable {kind : NodeKind} {children : List Node} {span : Span} {child : Node}
  {category : Category} {inside : List Token}
  (hheight : Node.height ⟨kind, children, span⟩ ≤ levels + 1) (hchild : child ∈ children)
  (h : Derives category child inside)
include hheight hchild h

theorem part : ProperVisit visit kind child :=
  hvisit kind h (Node.height_le_of_mem hheight child hchild)

/-- A part that a rule reads a type from produces one. -/
theorem typedPart (hproduces : category.produces kind = true) :
    Proper (visit kind child) fun produced => produced.isSome = true :=
  (hvisit.part hheight hchild h).typed (by rwa [Node.category, h.1])

end Parts

/-- The operands of a chain stand one level deeper. -/
theorem chain {kind : NodeKind} {operands : List Node} {span : Span} {category : Category}
    {parent : NodeKind} {needed : ValueType}
    (hheight : Node.height ⟨kind, operands, span⟩ ≤ levels + 1)
    (hkind : kind.joined? = some needed) (hsome : operands ≠ [])
    (hproduces : category.produces kind = true)
    (h : ∀ operand ∈ operands, ∃ inside, Derives category operand inside) :
    ProperVisit (Rule.apply visit) parent ⟨kind, operands, span⟩ :=
  Rule.apply_proper_chain hkind hsome fun operand hoperand =>
    have ⟨_, hinside⟩ := h operand hoperand
    hvisit.typedPart hheight hoperand hinside hproduces

variable {tree : Node} {tokens : List Token} {parent : NodeKind}
  (hheight : tree.height ≤ levels + 1)
include hheight

/-! Each construct is one level above its parts, to which the visit is proper. -/

theorem apply_program (h : Derives .program tree tokens) :
    ProperVisit (Rule.apply visit) parent tree := by
  obtain ⟨content, span, rfl, hcontent⟩ := h.program
  exact Rule.apply_proper_transparent (by decide)
    (List.forall_mem_singleton.mpr (hvisit.part hheight List.mem_cons_self hcontent)) nofun

/-- A block asks nothing of its statements but to be visited. -/
theorem apply_block (h : Derives .block tree tokens) :
    ProperVisit (Rule.apply visit) parent tree := by
  obtain ⟨trees, span, rfl, count, hfills⟩ := h.block
  refine Rule.apply_proper_transparent (by decide) (fun child hchild => ?_) nofun
  obtain ⟨inside, hinside⟩ := hfills.derives_of_replicate child hchild
  exact hvisit.part hheight hchild hinside

theorem apply_statement (h : Derives .statement tree tokens) :
    ProperVisit (Rule.apply visit) parent tree := by
  obtain ⟨content, span, rfl, hcontent⟩ := h.statement
  refine Rule.apply_proper_transparent (by decide) (List.forall_mem_singleton.mpr ?_) nofun
  rcases hcontent with ⟨category, -, _, _, -, -, hcontent⟩ | ⟨category, -, hcontent⟩ |
    ⟨_, _, _, -, -, -, hcontent⟩ <;>
    exact hvisit.part hheight List.mem_cons_self hcontent

theorem apply_declaration (h : Derives .declaration tree tokens) :
    ProperVisit (Rule.apply visit) parent tree := by
  obtain ⟨content, span, rfl, hcontent⟩ := h.declaration
  refine Rule.apply_proper_transparent (by decide) (List.forall_mem_singleton.mpr ?_) nofun
  rcases hcontent with hcontent | hcontent <;>
    exact hvisit.part hheight List.mem_cons_self hcontent

/-- The only part of a declaration is an identifier, and so has a name. -/
theorem apply_singleDeclaration
    (h : Derives .scalarDeclaration tree tokens ∨ Derives .listDeclaration tree tokens) :
    ProperVisit (Rule.apply visit) parent tree := by
  rcases h with h | h
  · obtain ⟨keyword, target, span, _, -, rfl, -, htarget⟩ := h.scalarDeclaration
    have hpart := hvisit.part hheight List.mem_cons_self htarget
    obtain ⟨token, place, -, -, rfl⟩ := htarget.identifier
    exact Rule.apply_proper_declaration rfl hpart rfl
  · obtain ⟨keyword, target, span, _, -, rfl, -, htarget⟩ := h.listDeclaration
    have hpart := hvisit.part hheight List.mem_cons_self htarget
    obtain ⟨token, place, -, -, rfl⟩ := htarget.identifier
    exact Rule.apply_proper_declaration rfl hpart rfl

/-- By the grammar the parts are an identifier and an expression. -/
theorem apply_assignment (h : Derives .assignment tree tokens) :
    ProperVisit (Rule.apply visit) parent tree := by
  obtain ⟨target, content, span, _, _, _, -, rfl, -, htarget, hcontent⟩ := h.assignment
  have htargetVisit := hvisit.part hheight (by simp) htarget
  have hcontentVisit := hvisit.part hheight (by simp) hcontent
  obtain ⟨token, place, -, -, rfl⟩ := htarget.identifier
  obtain ⟨_, _, rfl, -⟩ := hcontent.expression
  exact Rule.proper_answering (Rule.assignment_proper htargetVisit rfl hcontentVisit rfl) nofun

/-- By the grammar the condition comes first, whether there is an `else` or not. -/
theorem apply_conditional (h : Derives .conditional tree tokens) :
    ProperVisit (Rule.apply visit) parent tree := by
  obtain ⟨_, _, test, _, _, branch, _, span, _, -, -, -, -, htest, hbranch, ⟨rfl, -⟩ |
    ⟨_, _, otherwise, -, -, hotherwise, rfl⟩⟩ := h.conditional
  · have hparts : ∀ child ∈ [test, branch], ProperVisit visit .conditional child := by
      rw [List.forall_mem_cons, List.forall_mem_singleton]
      exact ⟨hvisit.part hheight (by simp) htest, hvisit.part hheight (by simp) hbranch⟩
    obtain ⟨_, _, rfl, -⟩ := htest.expression
    exact Rule.apply_proper_conditional rfl rfl hparts rfl
  · have hparts : ∀ child ∈ [test, branch, otherwise], ProperVisit visit .conditional child := by
      rw [List.forall_mem_cons, List.forall_mem_cons, List.forall_mem_singleton]
      exact ⟨hvisit.part hheight (by simp) htest, hvisit.part hheight (by simp) hbranch,
        hvisit.part hheight (by simp) hotherwise⟩
    obtain ⟨_, _, rfl, -⟩ := htest.expression
    exact Rule.apply_proper_conditional rfl rfl hparts rfl

theorem apply_whileLoop (h : Derives .whileLoop tree tokens) :
    ProperVisit (Rule.apply visit) parent tree := by
  obtain ⟨_, _, test, _, _, body, _, span, -, -, -, -, htest, hbody, rfl⟩ := h.whileLoop
  have hparts : ∀ child ∈ [test, body], ProperVisit visit .whileLoop child := by
    rw [List.forall_mem_cons, List.forall_mem_singleton]
    exact ⟨hvisit.part hheight (by simp) htest, hvisit.part hheight (by simp) hbody⟩
  obtain ⟨_, _, rfl, -⟩ := htest.expression
  exact Rule.apply_proper_conditional rfl rfl hparts rfl

/-- By the grammar the condition is the second of four parts. -/
theorem apply_forLoop (h : Derives .forLoop tree tokens) :
    ProperVisit (Rule.apply visit) parent tree := by
  obtain ⟨_, _, first, _, _, test, _, _, step, _, _, body, _, span, -, -, -, -, -, -, hfirst,
    htest, hstep, hbody, rfl⟩ := h.forLoop
  have hparts : ∀ child ∈ [first, test, step, body], ProperVisit visit .forLoop child := by
    rw [List.forall_mem_cons, List.forall_mem_cons, List.forall_mem_cons,
      List.forall_mem_singleton]
    exact ⟨hvisit.part hheight (by simp) hfirst, hvisit.part hheight (by simp) htest,
      hvisit.part hheight (by simp) hstep, hvisit.part hheight (by simp) hbody⟩
  obtain ⟨_, _, rfl, -⟩ := htest.expression
  exact Rule.apply_proper_conditional rfl rfl hparts rfl

/-- By the grammar the variable is declared as a scalar and the list is an identifier. -/
theorem apply_foreachLoop (h : Derives .foreachLoop tree tokens) :
    ProperVisit (Rule.apply visit) parent tree := by
  obtain ⟨_, _, element, _, _, array, _, _, body, _, span, -, -, -, -, -, helement, harray, hbody,
    rfl⟩ := h.foreachLoop
  have hparts : ∀ child ∈ [element, array, body], ProperVisit visit .foreachLoop child := by
    rw [List.forall_mem_cons, List.forall_mem_cons, List.forall_mem_singleton]
    exact ⟨hvisit.part hheight (by simp) helement, hvisit.part hheight (by simp) harray,
      hvisit.part hheight (by simp) hbody⟩
  obtain ⟨_, _, _, _, -, rfl, -, -⟩ := helement.scalarDeclaration
  obtain ⟨token, place, -, -, rfl⟩ := harray.identifier
  exact Rule.proper_counting (Rule.foreachLoop_proper hparts rfl rfl) nofun

theorem apply_expression (h : Derives .expression tree tokens) :
    ProperVisit (Rule.apply visit) parent tree := by
  obtain ⟨content, span, rfl, hcontent⟩ := h.expression
  have hpart := hvisit.part hheight List.mem_cons_self hcontent
  obtain ⟨_, _, _, _, _, _, -, rfl, -, -, -⟩ := hcontent.logical
  exact Rule.apply_proper_transparent (by decide) (List.forall_mem_singleton.mpr hpart)
    fun _ => ⟨_, List.mem_cons_self, rfl⟩

theorem apply_logical (h : Derives .logical tree tokens) :
    ProperVisit (Rule.apply visit) parent tree := by
  obtain ⟨_, first, others, _, _, _, -, rfl, -, hfirst, hothers⟩ := h.logical
  exact hvisit.chain hheight rfl (by simp) rfl (hfirst.operands hothers)

theorem apply_sum (h : Derives .sum tree tokens) :
    ProperVisit (Rule.apply visit) parent tree := by
  obtain ⟨_, first, others, _, _, _, -, rfl, -, hfirst, hothers⟩ := h.sum
  exact hvisit.chain hheight rfl (by simp) rfl (hfirst.operands hothers)

theorem apply_product (h : Derives .product tree tokens) :
    ProperVisit (Rule.apply visit) parent tree := by
  obtain ⟨_, first, others, _, _, _, -, rfl, -, hfirst, hothers⟩ := h.product
  exact hvisit.chain hheight rfl (by simp) rfl (hfirst.operands hothers)

/-- By the grammar there is one operand, or there are two around an operator. -/
theorem apply_comparison (h : Derives .comparison tree tokens) :
    ProperVisit (Rule.apply visit) parent tree := by
  rcases h.comparison with ⟨left, _, rfl, hleft⟩ |
    ⟨left, right, _, _, _, _, -, rfl, -, hleft, hright⟩
  · exact Rule.apply_proper_comparison (.inl rfl)
      (List.forall_mem_singleton.mpr (hvisit.typedPart hheight (by simp) hleft rfl))
  · refine Rule.apply_proper_comparison (.inr ⟨rfl, rfl⟩) ?_
    rw [List.forall_mem_cons, List.forall_mem_singleton]
    exact ⟨hvisit.typedPart hheight (by simp) hleft rfl,
      hvisit.typedPart hheight (by simp) hright rfl⟩

/-- Signs stand before negations and negations before values, and all of these produce types. -/
theorem apply_stacked (h : Derives .signed tree tokens ∨ Derives .negation tree tokens) :
    ProperVisit (Rule.apply visit) parent tree := by
  rcases h with h | h
  · obtain ⟨_, content, _, _, -, rfl, -, hcontent⟩ := h.signed
    exact Rule.apply_proper_stacked rfl (hvisit.typedPart hheight (by simp) hcontent rfl)
  · obtain ⟨_, content, _, _, -, rfl, -, hcontent⟩ := h.negation
    exact Rule.apply_proper_stacked rfl (hvisit.typedPart hheight (by simp) hcontent rfl)

/-- A value is a leaf, or an expression between parentheses. -/
theorem apply_value (h : Derives .value tree tokens) :
    ProperVisit (Rule.apply visit) parent tree := by
  obtain ⟨content, span, rfl, hcontent⟩ := h.value
  have hplain : ∀ category ∈ [Category.identifier, .integer, .boolean],
      category.produces .value = true := by
    decide
  have hproduces : content.category.produces .value = true := by
    rcases hcontent with ⟨category, hmem, hcontent⟩ | ⟨_, _, _, -, -, -, hcontent⟩
    · rw [Node.category, hcontent.1]
      exact hplain category hmem
    · rw [Node.category, hcontent.1]
      rfl
  have hpart : ProperVisit visit .value content := by
    rcases hcontent with ⟨category, -, hcontent⟩ | ⟨_, _, _, -, -, -, hcontent⟩ <;>
      exact hvisit.part hheight List.mem_cons_self hcontent
  exact Rule.apply_proper_transparent (by decide) (List.forall_mem_singleton.mpr hpart)
    fun _ => ⟨content, List.mem_cons_self, hproduces⟩

omit hvisit hheight in
/-- Leaves have no parts that could be missing. -/
theorem apply_leaf
    (h : Derives .boolean tree tokens ∨ Derives .integer tree tokens ∨
      Derives .identifier tree tokens) :
    ProperVisit (Rule.apply visit) parent tree := by
  rcases h with h | h | h
  · obtain ⟨_, _, _, -, -, rfl⟩ := h.boolean
    exact Rule.literal_proper.imp fun _ hsome _ => hsome
  · obtain ⟨_, _, -, -, rfl⟩ := h.integer
    exact Rule.literal_proper.imp fun _ hsome _ => hsome
  · obtain ⟨_, _, -, -, rfl⟩ := h.identifier
    exact Rule.identifier_proper.imp fun _ hsome hproduces => hsome (of_decide_eq_true hproduces)

end ProperWithin

/-- Visits to constructs that are not too deep are proper. -/
theorem visitWithin_proper (levels : Nat) : ProperWithin (visitWithin levels) levels := by
  -- the rules are proper one level above what the visits are proper to
  induction levels with
  | zero => exact fun _ _ hheight => absurd hheight (Nat.not_le_of_lt (Node.height_pos _))
  | succ levels ih =>
    intro category tree tokens parent h hheight
    cases category with
    | program => exact ih.apply_program hheight h
    | block => exact ih.apply_block hheight h
    | statement => exact ih.apply_statement hheight h
    | declaration => exact ih.apply_declaration hheight h
    | scalarDeclaration => exact ih.apply_singleDeclaration hheight (.inl h)
    | listDeclaration => exact ih.apply_singleDeclaration hheight (.inr h)
    | assignment => exact ih.apply_assignment hheight h
    | conditional => exact ih.apply_conditional hheight h
    | whileLoop => exact ih.apply_whileLoop hheight h
    | forLoop => exact ih.apply_forLoop hheight h
    | foreachLoop => exact ih.apply_foreachLoop hheight h
    | expression => exact ih.apply_expression hheight h
    | logical => exact ih.apply_logical hheight h
    | comparison => exact ih.apply_comparison hheight h
    | sum => exact ih.apply_sum hheight h
    | product => exact ih.apply_product hheight h
    | signed => exact ih.apply_stacked hheight (.inl h)
    | negation => exact ih.apply_stacked hheight (.inr h)
    | value => exact ih.apply_value hheight h
    | boolean => exact ProperWithin.apply_leaf (.inl h)
    | integer => exact ProperWithin.apply_leaf (.inr (.inl h))
    | identifier => exact ProperWithin.apply_leaf (.inr (.inr h))

/-! ## Checks of programs -/

section Programs

variable {tokens : List Token} {tree : Node}

/-- A program of the parser is no deeper than walks may go. -/
theorem checkProgram_proper (h : parse tokens = .ok tree) :
    Proper (checkProgram tree) fun _ => True := by
  have hlow := height_le_depthLimit h
  obtain ⟨content, span, rfl, hcontent⟩ := (parse_ok h).1.program
  have hheight : content.height ≤ depthLimit :=
    Node.height_le_of_mem (Nat.le_succ_of_le hlow) content List.mem_cons_self
  have hrow := Rule.visitEach_proper
    (List.forall_mem_singleton.mpr (visitWithin_proper depthLimit .program hcontent hheight))
  have hget : Proper get fun _ => True := fun _ => trivial
  unfold checkProgram checkProgramBy
  rw [if_pos rfl]
  exact hrow.bind fun _ _ => hget.bind fun _ _ => proper_pure trivial

/-- **Parsed programs are well formed**. However a checker was used before, the check of a program
that parsing gives succeeds or finds one of the problems that programs can have. The walk does not
get near its limit on depth. -/
theorem check_never_malformed (h : parse tokens = .ok tree) (s : Checker) :
    tree.height ≤ depthLimit ∧
      ((∃ metrics, (s.check tree).1 = .ok metrics) ∨
        ∃ problem, (s.check tree).1 = .error problem ∧ problem.isOfLanguage = true) := by
  refine ⟨height_le_depthLimit h, ?_⟩
  have hends := checkProgram_proper h s
  revert hends
  rw [Ends, Checker.check_eq]
  rcases (checkProgram tree).run.run s with ⟨problem | metrics, s'⟩
  · exact fun hproblem => .inr ⟨problem, rfl, hproblem⟩
  · exact fun _ => .inl ⟨metrics, rfl⟩

/-- A program that is checked twice declares its variables twice. -/
theorem check_never_malformed_twice :
    let tokens : List Token := [⟨.numKeyword, "num", {}⟩, ⟨.identifier, "x", {}⟩,
      ⟨.semicolon, ";", {}⟩]
    ∃ tree, parse tokens = .ok tree ∧ tree.height ≤ depthLimit ∧
      ∃ problem, ((Checker.check {} tree).2.check tree).1 = .error problem ∧
        problem.isOfLanguage = true := by
  intro tokens
  have hruns : ((parse tokens).map fun tree => ((Checker.check {} tree).2.check tree).1)
      = .ok (.error (.duplicateDeclaration "x" {} {})) := by
    decide +kernel
  cases hparse : parse tokens with
  | error diagnostic =>
    rw [hparse] at hruns
    cases hruns
  | ok tree =>
    rw [hparse] at hruns
    have hfails : ((Checker.check {} tree).2.check tree).1 = _ := Except.ok.inj hruns
    obtain ⟨hheight, ⟨metrics, hmetrics⟩ | hproblem⟩ :=
      check_never_malformed hparse (Checker.check {} tree).2
    · rw [hfails] at hmetrics
      cases hmetrics
    · exact ⟨tree, rfl, hheight, hproblem⟩

end Programs

end Census
