import Census.Proofs.Check.Declarations

/-!
# Checking statements

A visit to a statement succeeds exactly when the statement is accepted behind what is declared so
far.

- `Check.Passes`: a check succeeds, whatever it answers.
- `Synthesizes.decides`: visits to expressions decide them.
- `DecidesWithin`: a visit is right about constructs of some height. There is a lemma for each
  construct, which says that its rule is right one level higher.
- `visitWithin_decides`: visits are right about what is not too deep for them.
-/

namespace Census

open Check

variable {types : String → Option ValueType} {table : SymbolTable} {parent kind : NodeKind}
  {tree : Node} {tokens : List Token} {items : List Item} {category : Category}

/-! ## Rules of expressions -/

/-- Expressions are visited once and for all. -/
theorem Synthesizes.decides {visit : Visit} (hvisit : Synthesizes visit parent tree)
    (h : Derives .expression tree tokens) (hparent : parent.isDeclaration = false)
    (type : ValueType) :
    Decides types (fun s s' => Succeeds (visit parent tree) s (some type) s') parent [tree]
      (HasType types tree type) := by
  intro s s' hdistinct hagrees
  have hquiet := h.isDeclaration_eq_false
  have hwalk : Succeeds (visit parent tree) s (some type) s' ↔
      HasType s.symbols.types tree type ∧ s' = s.counting tree.counts := by
    simp [hvisit s (some type) s']
  simp only [hwalk, hagrees.hasType_iff, Checker.after_quiet hquiet,
    accepts_quiet_iff hparent hquiet hdistinct hagrees]
  constructor
  · rintro ⟨⟨⟨htype, hknown⟩, rfl⟩, -⟩
    exact ⟨⟨⟨hknown, htype.typed⟩, htype⟩, rfl⟩
  · rintro ⟨⟨⟨hknown, -⟩, htype⟩, rfl⟩
    exact ⟨⟨⟨htype, hknown⟩, rfl⟩, hagrees⟩

/-! ## Rules of statements -/

/-- The check succeeds, whatever it answers. -/
def Check.Passes {α : Type} (check : Check α) (s s' : Checker) : Prop :=
  ∃ answer, Succeeds check s answer s'

namespace Rule

variable {visit : Visit} {children : List Node} {span : Span}

/-- A rule that answers nothing of its own. -/
theorem passes_answering {check : Check Unit} {answer : Option ValueType} {s s' : Checker} :
    Passes (do check; return answer) s s' ↔ Succeeds check s () s' := by
  simp only [Passes, succeeds_bind, succeeds_pure]
  constructor
  · rintro ⟨_, _, _, h, rfl, rfl⟩
    exact h
  · intro h
    exact ⟨answer, ⟨⟩, s', h, rfl, rfl⟩

/-- The same behind a count. -/
theorem passes_counting {check : Check Unit} {step : Metrics → Metrics} {metrics : Metrics}
    {answer : Option ValueType} {s s' : Checker}
    (hstep : ∀ before, step before = before + metrics) :
    Passes (do count step; check; return answer) s s' ↔
      Succeeds check (s.counting metrics) () s' := by
  simp only [Passes, succeeds_bind, succeeds_count, succeeds_pure, hstep]
  constructor
  · rintro ⟨_, _, _, rfl, _, _, h, rfl, rfl⟩
    exact h
  · intro h
    exact ⟨answer, ⟨⟩, _, rfl, ⟨⟩, s', h, rfl, rfl⟩

section Rows

variable (hgrows : ∀ parent node, Check.Keeps Grows (visit parent node))
include hgrows

/-- By induction on the nodes: what the first ones declare is known to the others. -/
theorem visitEach_decides {nodes : List Node}
    (h : ∀ node ∈ nodes, Decides types (Passes (visit parent node)) parent [node] True) :
    Decides types (Passes (visitEach visit parent nodes)) parent nodes True := by
  induction nodes with
  | nil => exact Decides.nil.congr (by simp [Passes]) .rfl
  | cons node others ih =>
    obtain ⟨hfirst, hothers⟩ := List.forall_mem_cons.mp h
    refine (hfirst.trans (ih hothers) ?_).congr ?_ (by simp)
    · rintro s s' ⟨_, hrun⟩
      exact (visitEach_keeps growth_grows hgrows parent others).of_succeeds hrun
    · intro s s' _
      simp only [Passes, succeeds_visitEach_cons]
      constructor
      · rintro ⟨_, first, between, last, hfirst, hlast, -⟩
        exact ⟨between, ⟨first, hfirst⟩, last, hlast⟩
      · rintro ⟨between, ⟨first, hfirst⟩, last, hlast⟩
        exact ⟨_, first, between, last, hfirst, hlast, rfl⟩

/-- Constructs that only stand around their parts. -/
theorem apply_decides_transparent (hkind : kind ∈ [.declaration, .block, .statement])
    (h : ∀ child ∈ children, Decides types (Passes (visit kind child)) kind [child] True) :
    Decides types (Passes (apply visit parent ⟨kind, children, span⟩)) parent
      [⟨kind, children, span⟩] True := by
  have hrow := visitEach_decides hgrows h
  simp only [List.mem_cons, List.not_mem_nil, or_false] at hkind
  rcases hkind with rfl | rfl | rfl <;>
    exact (hrow.enclose rfl rfl rfl (by simp [Node.Typed])).congr
      (fun s s' _ => by simp [NodeKind.counts]; rfl) .rfl

section Condition

variable {index : Nat} {test : Node} (hindex : kind.conditionIndex? = some index)
  (htest : children[index]? = some test) (hderives : Derives .expression test tokens)
  (hvisit : Synthesizes visit kind test)
  (hdemand : Node.Typed types ⟨kind, children, span⟩ ↔ HasType types test .bool)
  (h : ∀ child ∈ children.eraseIdx index,
    Decides types (Passes (visit kind child)) kind [child] True)
include hindex htest hderives hvisit hdemand h

/-- The condition comes last. -/
theorem conditional_decides :
    Decides types (fun s s' => Succeeds (conditional visit ⟨kind, children, span⟩ index)
      (s.counting (kind.counts children.length)) () s') parent [⟨kind, children, span⟩] True := by
  have horder : kind.inCheckOrder children = children.eraseIdx index ++ [test] := by
    simp [NodeKind.inCheckOrder, hindex, htest]
  have hkind : kind.isDeclaration = false := by cases kind <;> first | rfl | cases hindex
  have huse : Node.identifier? ⟨kind, children, span⟩ = none := by
    cases kind <;> first | rfl | cases hindex
  -- the condition declares nothing, so moving it to the end moves no declaration
  have hsymbols : (kind.inCheckOrder children).flatMap Node.symbols
      = children.flatMap Node.symbols := by
    have hquiet : test.symbols = [] := Node.symbols_eq_nil hderives.isDeclaration_eq_false
    obtain ⟨hlength, rfl⟩ := List.getElem?_eq_some_iff.mp htest
    rw [horder]
    conv_rhs => rw [← List.take_append_drop index children, List.drop_eq_getElem_cons hlength]
    simp only [List.eraseIdx_eq_take_drop_succ, List.flatMap_append, List.flatMap_cons, hquiet,
      List.flatMap_nil, List.nil_append, List.append_nil]
  have hlast : Decides types _ kind [test] _ := hvisit.decides hderives hkind .bool
  have hrow := (visitEach_decides hgrows h).trans hlast
    fun hrun => (hgrows kind test).of_succeeds hrun
  rw [← horder] at hrow
  refine (hrow.enclose (Node.declared?_eq_none hkind) huse hsymbols (by simpa using hdemand)).congr
    (fun s s' _ => ?_) .rfl
  simp only [conditional, succeeds_bind, succeeds_child, succeeds_visitTyped, succeeds_demand,
    succeeds_pure, Node.child?, htest]
  constructor
  · rintro ⟨_, _, ⟨⟨⟩, rfl⟩, produced, between, hrow, _, _, hrun, rfl, -, rfl⟩
    exact ⟨between, ⟨produced, hrow⟩, hrun⟩
  · rintro ⟨between, ⟨produced, hrow⟩, hrun⟩
    exact ⟨test, _, ⟨rfl, rfl⟩, produced, between, hrow, .bool, s', hrun, rfl, trivial, rfl⟩

/-- All constructs under conditions have one rule. -/
theorem apply_decides_conditional :
    Decides types (Passes (apply visit parent ⟨kind, children, span⟩)) parent
      [⟨kind, children, span⟩] True := by
  have hrule : Decides types _ parent _ True :=
    conditional_decides hgrows hindex htest hderives hvisit hdemand h
  cases kind <;> cases hindex <;>
    exact hrule.congr (fun _ _ _ => passes_counting fun _ => rfl) .rfl

end Condition

end Rows

section Identifiers

variable {name : String} {place : Span}
  (hidentifier : ∀ parent name span, visit parent ⟨.identifier name, [], span⟩
    = identifier parent ⟨.identifier name, [], span⟩ name)
include hidentifier

/-- An identifier in use must be known, and answers nothing outside of values. -/
theorem succeeds_use_iff {s s' : Checker} {answer : Option ValueType}
    (hparent : parent.isDeclaration = false) (hvalue : parent ≠ .value) :
    Succeeds (visit parent ⟨.identifier name, [], place⟩) s answer s' ↔
      name ∈ s.symbols.names ∧ answer = none ∧ s' = s := by
  rw [hidentifier, identifier]
  simp only [hparent, hvalue, Bool.false_eq_true, if_false, succeeds_bind, succeeds_lookupType,
    succeeds_pure, ← SymbolTable.exists_lookup?_iff]
  constructor
  · rintro ⟨_, _, ⟨⟨symbol, hsymbol, -⟩, rfl⟩, rfl, rfl⟩
    exact ⟨⟨symbol, hsymbol⟩, rfl, rfl⟩
  · rintro ⟨⟨symbol, hsymbol⟩, rfl, rfl⟩
    exact ⟨symbol.type, _, ⟨⟨symbol, hsymbol, rfl⟩, rfl⟩, rfl, rfl⟩

/-- Outside of declarations and values an identifier is only asked to be declared. -/
theorem use_decides (hparent : parent.isDeclaration = false) (hvalue : parent ≠ .value) :
    Decides types (Passes (visit parent ⟨.identifier name, [], place⟩)) parent
      [⟨.identifier name, [], place⟩] True := by
  intro s s' hdistinct hagrees
  have hquiet : ∀ node ∈ Node.nodes ⟨.identifier name, [], place⟩,
      node.kind.isDeclaration = false := by
    simp [NodeKind.isDeclaration]
  have hcounts : Node.counts ⟨.identifier name, [], place⟩ = 0 := rfl
  simp only [Passes, succeeds_use_iff hidentifier hparent hvalue, Checker.after_quiet hquiet,
    accepts_quiet_iff hparent hquiet hdistinct hagrees, hcounts, Checker.counting_zero]
  constructor
  · rintro ⟨⟨_, hknown, -, rfl⟩, -⟩
    exact ⟨⟨⟨by simpa [Node.mentions_mk, Node.identifier?] using hknown, by simp [Node.Typed]⟩,
      trivial⟩, rfl⟩
  · rintro ⟨⟨⟨hknown, -⟩, -⟩, rfl⟩
    exact ⟨⟨none, hknown name (by simp [Node.mentions_mk, Node.identifier?]), rfl, rfl⟩, hagrees⟩

/-- A declaration visits its identifier only to take its name. -/
theorem declaration_decides {type : ValueType} (hkind : kind.isDeclaration = true)
    (hdeclared : Node.declared? ⟨kind, [⟨.identifier name, [], place⟩], span⟩
      = some ⟨name, type, place⟩) :
    Decides types (fun s s' => Succeeds
        (declaration visit ⟨kind, [⟨.identifier name, [], place⟩], span⟩ type) s () s') parent
      [⟨kind, [⟨.identifier name, [], place⟩], span⟩] True := by
  intro s s' hdistinct hagrees
  have hafter : s.after [⟨kind, [⟨.identifier name, [], place⟩], span⟩]
      = ⟨⟨s.symbols.entries ++ [⟨name, type, place⟩]⟩,
        { s.metrics with declarations := s.metrics.declarations + 1 }⟩ := by
    have hcounts : Node.counts ⟨kind, [⟨.identifier name, [], place⟩], span⟩
        = { declarations := 1 } := by
      cases kind <;> first | rfl | cases hkind
    simp only [Checker.after, List.flatMap_singleton, symbols_declaration hdeclared,
      List.map_singleton, List.sum_singleton, hcounts]
    rfl
  -- the visit to the identifier does nothing, as it stands in its declaration
  have hwalk : Succeeds (declaration visit ⟨kind, [⟨.identifier name, [], place⟩], span⟩ type)
      s () s' ↔ name ∉ s.symbols.names ∧
        s' = s.after [⟨kind, [⟨.identifier name, [], place⟩], span⟩] := by
    simp [declaration, Node.child?, hidentifier, identifier, hkind, Node.identifier?,
      SymbolTable.lookup?_eq_none_iff, hafter]
  have haccepts : Accepts types s.symbols parent
      [⟨kind, [⟨.identifier name, [], place⟩], span⟩] ↔ _ :=
    accepts_declaration_iff hdeclared hkind hdistinct hagrees
  simp only [hwalk, haccepts, and_true]
  constructor
  · rintro ⟨⟨hnew, rfl⟩, hend⟩
    exact ⟨⟨hnew, hend ⟨name, type, place⟩ (by simp [hafter])⟩, rfl⟩
  · rintro ⟨hlegal, rfl⟩
    exact ⟨⟨hlegal.1, rfl⟩, (haccepts.mpr hlegal).agrees⟩

end Identifiers

/-- What is looked up where the name is known is the type that it has in the end. -/
theorem succeeds_lookupType_iff {name : String} {place : Span} {s s' : Checker} {type : ValueType}
    (hagrees : s.symbols.Agrees types) (hknown : name ∈ s.symbols.names) :
    Succeeds (lookupType name place) s type s' ↔ types name = some type ∧ s' = s := by
  rw [succeeds_lookupType, ← SymbolTable.types_eq_some_iff, hagrees.types_eq hknown]

section Lookups

variable {name : String} {place : Span} {s s' : Checker}
  (hidentifier : ∀ parent name span, visit parent ⟨.identifier name, [], span⟩
    = identifier parent ⟨.identifier name, [], span⟩ name)
  (hgrows : ∀ parent node, Check.Keeps Grows (visit parent node))
include hidentifier hgrows

/-- An assignment needs the type that its variable has in the end. -/
theorem succeeds_assignment_iff {content : Node} (hend : s'.symbols.Agrees types) :
    Succeeds (assignment visit ⟨.assignment, [⟨.identifier name, [], place⟩, content], span⟩)
        s () s' ↔
      ∃ type, types name = some type ∧
        ∃ between, Passes (visit .assignment ⟨.identifier name, [], place⟩) s between ∧
          Succeeds (visit .assignment content) between (some type) s' := by
  have huse {answer : Option ValueType} {between : Checker} :
      Succeeds (visit .assignment ⟨.identifier name, [], place⟩) s answer between ↔ _ :=
    succeeds_use_iff hidentifier rfl (by decide)
  -- the value is visited after the variable and before its type is looked up
  have hknown {between : Checker} {answer : Option ValueType} (hname : name ∈ s.symbols.names)
      (hrun : Succeeds (visit .assignment content) s answer between) :
      name ∈ between.symbols.names :=
    ((hgrows _ content).of_succeeds hrun).names_subset hname
  simp only [assignment, visitChildren, Node.child?, Passes, succeeds_bind, succeeds_child,
    succeeds_visitEach_cons, succeeds_visitEach_nil, succeeds_nameOf, succeeds_typeOf,
    succeeds_demand, succeeds_pure]
  constructor
  · rintro ⟨_, _, ⟨⟨⟩, rfl⟩, _, _, ⟨⟨⟩, rfl⟩, _, _, ⟨_, _, _, htarget,
      ⟨_, _, _, hrun, ⟨rfl, rfl⟩, rfl⟩, rfl⟩, _, _, ⟨⟨⟩, rfl⟩, type, _, hlookup, found, _,
      ⟨hfound, rfl⟩, rfl, -, rfl⟩
    obtain ⟨hname, rfl, rfl⟩ := huse.mp htarget
    obtain rfl := (succeeds_lookupType.mp hlookup).2
    obtain ⟨htype, -⟩ := (succeeds_lookupType_iff hend (hknown hname hrun)).mp hlookup
    rw [Option.or_none] at hfound
    exact ⟨found, htype, _, ⟨none, htarget⟩, hfound ▸ hrun⟩
  · rintro ⟨type, htype, _, ⟨_, htarget⟩, hrun⟩
    obtain ⟨hname, rfl, rfl⟩ := huse.mp htarget
    have hlookup : Succeeds (lookupType name place) s' type s' :=
      (succeeds_lookupType_iff hend (hknown hname hrun)).mpr ⟨htype, rfl⟩
    exact ⟨_, _, ⟨rfl, rfl⟩, _, _, ⟨rfl, rfl⟩, _, _, ⟨_, _, _, htarget,
      ⟨_, _, _, hrun, ⟨rfl, rfl⟩, rfl⟩, rfl⟩, _, _, ⟨rfl, rfl⟩, type, _, hlookup, type, _,
      ⟨by simp, rfl⟩, rfl, trivial, rfl⟩

/-- What is assigned is visited before the variable's type is looked up, and declares nothing. -/
theorem assignment_decides {content : Node} (hderives : Derives .expression content tokens)
    (hvisit : Synthesizes visit .assignment content) :
    Decides types (fun s s' => Succeeds
        (assignment visit ⟨.assignment, [⟨.identifier name, [], place⟩, content], span⟩) s () s')
      parent [⟨.assignment, [⟨.identifier name, [], place⟩, content], span⟩] True := by
  have htarget : Decides types _ .assignment [⟨.identifier name, [], place⟩] _ :=
    use_decides hidentifier rfl (by decide)
  have hrow := Decides.choose fun type => (htarget.trans (hvisit.decides hderives rfl type)
    fun hrun => (hgrows _ content).of_succeeds hrun).guard (types name = some type)
  refine (hrow.enclose rfl rfl rfl ?_).congr (fun s s' hend => ?_) .rfl
  · simp [Node.Typed, Node.identifier?]
  · rw [succeeds_assignment_iff hidentifier hgrows hend]
    rfl

/-- A loop over a list needs the type that the list has in the end. -/
theorem succeeds_foreachLoop_iff {entry body : Node} (hend : s'.symbols.Agrees types) :
    Succeeds (foreachLoop visit ⟨.foreachLoop, [entry, ⟨.identifier name, [], place⟩, body], span⟩)
        s () s' ↔
      ∃ element, (∃ type, types name = some type ∧ element.listOf? = some type) ∧
        ∃ between, (∃ before, Succeeds (visit .foreachLoop entry) s (some element) before ∧
            Passes (visit .foreachLoop ⟨.identifier name, [], place⟩) before between) ∧
          Passes (visit .foreachLoop body) between s' := by
  have huse {answer : Option ValueType} {between between' : Checker} :
      Succeeds (visit .foreachLoop ⟨.identifier name, [], place⟩) between answer between' ↔ _ :=
    succeeds_use_iff hidentifier rfl (by decide)
  -- the body is visited after the type of the list is looked up
  have hagrees {between : Checker} {answer : Option ValueType}
      (hrun : Succeeds (visit .foreachLoop body) between answer s') :
      between.symbols.Agrees types :=
    ((hgrows _ body).of_succeeds hrun).agrees hend
  simp only [foreachLoop, Node.child?, Passes, succeeds_bind, succeeds_child, succeeds_visitTyped,
    succeeds_nameOf, succeeds_demand_bind, succeeds_pure]
  constructor
  · rintro ⟨_, _, ⟨⟨⟩, rfl⟩, _, _, ⟨⟨⟩, rfl⟩, _, _, ⟨⟨⟩, rfl⟩, element, _, hentry, _, _, harray,
      _, _, ⟨⟨⟩, rfl⟩, type, _, hlookup, -, hlist, _, _, hbody, -, rfl⟩
    obtain ⟨hname, rfl, rfl⟩ := huse.mp harray
    obtain rfl := (succeeds_lookupType.mp hlookup).2
    obtain ⟨htype, -⟩ := (succeeds_lookupType_iff (hagrees hbody) hname).mp hlookup
    exact ⟨element, ⟨type, htype, hlist⟩, _, ⟨_, hentry, none, harray⟩, _, hbody⟩
  · rintro ⟨element, ⟨type, htype, hlist⟩, _, ⟨_, hentry, _, harray⟩, _, hbody⟩
    obtain ⟨hname, rfl, rfl⟩ := huse.mp harray
    have hlookup : Succeeds (lookupType name place) _ type _ :=
      (succeeds_lookupType_iff (hagrees hbody) hname).mpr ⟨htype, rfl⟩
    exact ⟨_, _, ⟨rfl, rfl⟩, _, _, ⟨rfl, rfl⟩, _, _, ⟨rfl, rfl⟩, element, _, hentry, _, _, harray,
      _, _, ⟨rfl, rfl⟩, type, _, hlookup, (type.isList_iff_exists_listOf?).mpr ⟨element, hlist⟩,
      hlist, _, _, hbody, trivial, rfl⟩

/-- The variable of the loop is declared when the list is looked up, so the list may be the variable
itself and is then refused for its type. -/
theorem foreachLoop_decides {entry body : Node}
    (hentry : ∀ element, Decides types
      (fun s s' => Succeeds (visit .foreachLoop entry) s (some element) s') .foreachLoop [entry]
      (∃ symbol, entry.declared? = some symbol ∧ symbol.type = element))
    (hbody : Decides types (Passes (visit .foreachLoop body)) .foreachLoop [body] True) :
    Decides types (fun s s' => Succeeds
        (foreachLoop visit ⟨.foreachLoop, [entry, ⟨.identifier name, [], place⟩, body], span⟩)
        (s.counting (NodeKind.counts 3 .foreachLoop)) () s') parent
      [⟨.foreachLoop, [entry, ⟨.identifier name, [], place⟩, body], span⟩] True := by
  have harray : Decides types _ .foreachLoop [⟨.identifier name, [], place⟩] _ :=
    use_decides hidentifier rfl (by decide)
  have hrow := Decides.choose fun element => (((hentry element).trans harray
    fun ⟨_, hrun⟩ => (hgrows _ _).of_succeeds hrun).trans hbody
    fun ⟨_, hrun⟩ => (hgrows _ body).of_succeeds hrun).guard
      (∃ type, types name = some type ∧ element.listOf? = some type)
  refine (hrow.enclose rfl rfl rfl ?_).congr (fun s s' hend => ?_) .rfl
  · simp only [Node.Typed, and_true]
    constructor
    · rintro ⟨symbol, _, type, hsymbol, ⟨⟩, htype, hlist⟩
      exact ⟨symbol.type, ⟨type, htype, hlist⟩, symbol, hsymbol, rfl⟩
    · rintro ⟨_, ⟨type, htype, hlist⟩, symbol, hsymbol, rfl⟩
      exact ⟨symbol, name, type, hsymbol, rfl, htype, hlist⟩
  · rw [succeeds_foreachLoop_iff hidentifier hgrows hend]
    rfl

end Lookups

end Rule

/-! ## Visits to statements -/

/-- The constructs that are no expressions. -/
def Category.statements : List Category :=
  [.block, .statement, .declaration, .scalarDeclaration, .listDeclaration, .assignment,
    .conditional, .whileLoop, .forLoop, .foreachLoop]

/-- A visit is right about all constructs of at most the given height. -/
structure DecidesWithin (types : String → Option ValueType) (visit : Visit) (levels : Nat) :
    Prop where
  grows : ∀ parent node, Check.Keeps Grows (visit parent node)
  identifier : 0 < levels → ∀ parent name span, visit parent ⟨.identifier name, [], span⟩
    = Rule.identifier parent ⟨.identifier name, [], span⟩ name
  expression : ∀ {tree tokens} parent, Derives .expression tree tokens → tree.height ≤ levels →
    Synthesizes visit parent tree
  /-- A scalar declaration answers the type it declares. -/
  scalarDeclaration : ∀ {tree tokens} parent type, Derives .scalarDeclaration tree tokens →
    tree.height ≤ levels →
    Decides types (fun s s' => Succeeds (visit parent tree) s (some type) s') parent [tree]
      (∃ symbol, tree.declared? = some symbol ∧ symbol.type = type)
  statement : ∀ {category tree tokens} parent, Derives category tree tokens →
    category ∈ Category.statements → tree.height ≤ levels →
    Decides types (Passes (visit parent tree)) parent [tree] True

namespace DecidesWithin

variable {visit : Visit} {levels : Nat} (hvisit : DecidesWithin types visit levels)
  (hheight : tree.height ≤ levels + 1)
include hvisit hheight

/-! Each construct is one level above its parts, about which the visit is right. -/

/-- A block is accepted if its statements are, each behind the ones before it. -/
theorem apply_block (h : Derives .block tree tokens) :
    Decides types (Passes (Rule.apply visit parent tree)) parent [tree] True := by
  obtain ⟨trees, span, rfl, count, hfills⟩ := h.block
  refine Rule.apply_decides_transparent hvisit.grows (by decide) fun child hchild => ?_
  obtain ⟨inside, hinside⟩ := hfills.derives_of_replicate child hchild
  exact hvisit.statement _ hinside (by decide) (Node.height_le_of_mem hheight child hchild)

/-- A statement is accepted if the construct inside is. -/
theorem apply_statement (h : Derives .statement tree tokens) :
    Decides types (Passes (Rule.apply visit parent tree)) parent [tree] True := by
  obtain ⟨content, span, rfl, hcontent⟩ := h.statement
  have hlow := Node.height_le_of_mem hheight content List.mem_cons_self
  refine Rule.apply_decides_transparent hvisit.grows (by decide)
    (List.forall_mem_singleton.mpr ?_)
  rcases hcontent with ⟨category, hmem, _, _, -, -, hcontent⟩ | ⟨category, hmem, hcontent⟩ |
    ⟨_, _, _, -, -, -, hcontent⟩
  · have hcategory : [.declaration, .assignment] ⊆ Category.statements := by decide
    exact hvisit.statement _ hcontent (hcategory hmem) hlow
  · have hcategory : [.conditional, .whileLoop, .forLoop, .foreachLoop] ⊆ Category.statements := by
      decide
    exact hvisit.statement _ hcontent (hcategory hmem) hlow
  · exact hvisit.statement _ hcontent (by decide) hlow

theorem apply_declaration (h : Derives .declaration tree tokens) :
    Decides types (Passes (Rule.apply visit parent tree)) parent [tree] True := by
  obtain ⟨content, span, rfl, hcontent⟩ := h.declaration
  have hlow := Node.height_le_of_mem hheight content List.mem_cons_self
  refine Rule.apply_decides_transparent hvisit.grows (by decide)
    (List.forall_mem_singleton.mpr ?_)
  rcases hcontent with hcontent | hcontent <;>
    exact hvisit.statement _ hcontent (by decide) hlow

/-- Both declarations of a name have one rule. -/
theorem declaration_decides {name : String} {type : ValueType} {place span : Span}
    (htree : tree = ⟨kind, [⟨.identifier name, [], place⟩], span⟩)
    (hkind : kind.isDeclaration = true) (hdeclared : tree.declared? = some ⟨name, type, place⟩) :
    Decides types (fun s s' => Succeeds (Rule.declaration visit tree type) s () s') parent [tree]
      True := by
  subst htree
  have hlow := Node.height_le_of_mem hheight _ List.mem_cons_self
  exact Rule.declaration_decides
    (hvisit.identifier (Nat.lt_of_lt_of_le (Node.height_pos _) hlow)) hkind hdeclared

/-- A scalar declaration is accepted if the name is free, and answers its type. -/
theorem apply_scalarDeclaration (h : Derives .scalarDeclaration tree tokens) (type : ValueType) :
    Decides types (fun s s' => Succeeds (Rule.apply visit parent tree) s (some type) s') parent
      [tree] (∃ symbol, tree.declared? = some symbol ∧ symbol.type = type) := by
  obtain ⟨keyword, target, span, _, -, rfl, -, htarget⟩ := h.scalarDeclaration
  obtain ⟨token, place, -, -, rfl⟩ := htarget.identifier
  have hrule : Decides types _ parent _ True := hvisit.declaration_decides hheight rfl rfl rfl
  refine (hrule.guard (ValueType.ofScalarKeyword keyword.text = type)).congr
    (fun s s' _ => ?_) (by simp [Node.declared?])
  show Succeeds (Rule.declaration _ _ _ >>= fun _ => pure _) _ _ _ ↔ _
  simp only [succeeds_bind, succeeds_pure, Option.some.injEq]
  constructor
  · rintro ⟨_, _, hrun, rfl, rfl⟩
    exact ⟨rfl, hrun⟩
  · rintro ⟨rfl, hrun⟩
    exact ⟨⟨⟩, s', hrun, rfl, rfl⟩

theorem apply_singleDeclaration
    (h : Derives .scalarDeclaration tree tokens ∨ Derives .listDeclaration tree tokens) :
    Decides types (Passes (Rule.apply visit parent tree)) parent [tree] True := by
  rcases h with h | h
  · obtain ⟨keyword, target, span, _, -, rfl, -, htarget⟩ := h.scalarDeclaration
    obtain ⟨token, place, -, -, rfl⟩ := htarget.identifier
    exact (hvisit.declaration_decides hheight rfl rfl rfl).congr
      (fun _ _ _ => Rule.passes_answering) .rfl
  · obtain ⟨keyword, target, span, _, -, rfl, -, htarget⟩ := h.listDeclaration
    obtain ⟨token, place, -, -, rfl⟩ := htarget.identifier
    exact (hvisit.declaration_decides hheight rfl rfl rfl).congr
      (fun _ _ _ => Rule.passes_answering) .rfl

/-- An assignment is accepted if its expression has the type of its variable. -/
theorem apply_assignment (h : Derives .assignment tree tokens) :
    Decides types (Passes (Rule.apply visit parent tree)) parent [tree] True := by
  obtain ⟨target, content, span, _, _, _, -, rfl, -, htarget, hcontent⟩ := h.assignment
  obtain ⟨token, place, -, -, rfl⟩ := htarget.identifier
  have hlow := Node.height_le_of_mem hheight content (by simp)
  have hlevels : 0 < levels := Nat.lt_of_lt_of_le content.height_pos hlow
  exact (Rule.assignment_decides (hvisit.identifier hlevels) hvisit.grows hcontent
    (hvisit.expression _ hcontent hlow)).congr (fun _ _ _ => Rule.passes_answering) .rfl

/-- The condition is accepted behind what its branches declare. -/
theorem apply_conditional (h : Derives .conditional tree tokens) :
    Decides types (Passes (Rule.apply visit parent tree)) parent [tree] True := by
  obtain ⟨_, _, test, _, _, branch, _, span, _, -, -, -, -, htest, hbranch, ⟨rfl, -⟩ |
    ⟨_, _, otherwise, -, -, hotherwise, rfl⟩⟩ := h.conditional
  · have hlow := Node.height_le_of_mem hheight
    exact Rule.apply_decides_conditional hvisit.grows rfl rfl htest
      (hvisit.expression _ htest (hlow test (by simp))) .rfl (List.forall_mem_singleton.mpr
        (hvisit.statement _ hbranch (by decide) (hlow branch (by simp))))
  · have hlow := Node.height_le_of_mem hheight
    refine Rule.apply_decides_conditional hvisit.grows rfl rfl htest
      (hvisit.expression _ htest (hlow test (by simp))) .rfl ?_
    show ∀ child ∈ [branch, otherwise], _
    rw [List.forall_mem_cons, List.forall_mem_singleton]
    exact ⟨hvisit.statement _ hbranch (by decide) (hlow branch (by simp)),
      hvisit.statement _ hotherwise (by decide) (hlow otherwise (by simp))⟩

theorem apply_whileLoop (h : Derives .whileLoop tree tokens) :
    Decides types (Passes (Rule.apply visit parent tree)) parent [tree] True := by
  obtain ⟨_, _, test, _, _, body, _, span, -, -, -, -, htest, hbody, rfl⟩ := h.whileLoop
  have hlow := Node.height_le_of_mem hheight
  exact Rule.apply_decides_conditional hvisit.grows rfl rfl htest
    (hvisit.expression _ htest (hlow test (by simp))) .rfl (List.forall_mem_singleton.mpr
      (hvisit.statement _ hbody (by decide) (hlow body (by simp))))

/-- The condition is accepted behind what the other parts declare. -/
theorem apply_forLoop (h : Derives .forLoop tree tokens) :
    Decides types (Passes (Rule.apply visit parent tree)) parent [tree] True := by
  obtain ⟨_, _, first, _, _, test, _, _, step, _, _, body, _, span, -, -, -, -, -, -, hfirst,
    htest, hstep, hbody, rfl⟩ := h.forLoop
  have hlow := Node.height_le_of_mem hheight
  refine Rule.apply_decides_conditional hvisit.grows rfl rfl htest
    (hvisit.expression _ htest (hlow test (by simp))) .rfl ?_
  show ∀ child ∈ [first, step, body], _
  rw [List.forall_mem_cons, List.forall_mem_cons, List.forall_mem_singleton]
  exact ⟨hvisit.statement _ hfirst (by decide) (hlow first (by simp)),
    hvisit.statement _ hstep (by decide) (hlow step (by simp)),
    hvisit.statement _ hbody (by decide) (hlow body (by simp))⟩

/-- The body is accepted behind the declaration of the variable. -/
theorem apply_foreachLoop (h : Derives .foreachLoop tree tokens) :
    Decides types (Passes (Rule.apply visit parent tree)) parent [tree] True := by
  obtain ⟨_, _, element, _, _, array, _, _, body, _, span, -, -, -, -, -, helement, harray, hbody,
    rfl⟩ := h.foreachLoop
  obtain ⟨token, place, -, -, rfl⟩ := harray.identifier
  have hlow := Node.height_le_of_mem hheight
  have hlevels : 0 < levels := Nat.lt_of_lt_of_le body.height_pos (hlow body (by simp))
  exact (Rule.foreachLoop_decides (hvisit.identifier hlevels) hvisit.grows
    (fun type => hvisit.scalarDeclaration _ type helement (hlow element (by simp)))
    (hvisit.statement _ hbody (by decide) (hlow body (by simp)))).congr
    (fun _ _ _ => Rule.passes_counting fun _ => rfl) .rfl

end DecidesWithin

/-- A visit is right about constructs that are not too deep for it. -/
theorem visitWithin_decides (levels : Nat) : DecidesWithin types (visitWithin levels) levels := by
  -- the rules are right one level above what the visits are right about
  induction levels with
  | zero =>
    have hlow {tree : Node} : ¬ tree.height ≤ 0 := Nat.not_le_of_lt tree.height_pos
    exact {
      grows := visitWithin_keeps growth_grows 0
      identifier := fun hlevels => absurd hlevels (Nat.lt_irrefl 0)
      expression := fun _ _ hheight => absurd hheight hlow
      scalarDeclaration := fun _ _ _ hheight => absurd hheight hlow
      statement := fun _ _ _ hheight => absurd hheight hlow }
  | succ levels ih =>
    refine {
      grows := visitWithin_keeps growth_grows (levels + 1)
      identifier := fun _ _ _ _ => rfl
      expression := fun parent h hheight => visitWithin_synthesizes h (by decide) hheight parent
      scalarDeclaration := fun _ type h hheight => ih.apply_scalarDeclaration hheight h type
      statement := ?_ }
    intro category tree tokens parent h hcategory hheight
    simp only [Category.statements, List.mem_cons, List.not_mem_nil, or_false] at hcategory
    rcases hcategory with rfl | rfl | rfl | rfl | rfl | rfl | rfl | rfl | rfl | rfl
    · exact ih.apply_block hheight h
    · exact ih.apply_statement hheight h
    · exact ih.apply_declaration hheight h
    · exact ih.apply_singleDeclaration hheight (.inl h)
    · exact ih.apply_singleDeclaration hheight (.inr h)
    · exact ih.apply_assignment hheight h
    · exact ih.apply_conditional hheight h
    · exact ih.apply_whileLoop hheight h
    · exact ih.apply_forLoop hheight h
    · exact ih.apply_foreachLoop hheight h

end Census
