import Census.Proofs.Check.Acceptance

/-!
# Acceptance at the leaves

Expressions declare nothing, and declarations declare one variable. Both are accepted or not by
looking into the table of what is declared before them.

- `Derives.isDeclaration_eq_false`: expressions declare nothing.
- `SymbolTable.Agrees.hasType_iff`: an expression has the same type under the declarations made so
  far as under those of the whole program, as long as all its names are known.
- `accepts_quiet_iff`, `accepts_declaration_iff`: what is accepted.
-/

namespace Census

variable {types : String → Option ValueType} {table : SymbolTable} {parent kind : NodeKind}
  {tree : Node} {tokens : List Token} {items : List Item}

/-! ## Expressions declare nothing -/

/-- The constructs in expressions. -/
def Category.inExpressions : List Category := Category.operands ++ [.identifier, .integer, .boolean]

theorem Production.inExpressions (h : Production kind items)
    (hkind : kind.category ∈ Category.inExpressions) :
    ∀ category ∈ Item.parts items, category ∈ Category.inExpressions := by
  cases h with
  | logical | sum | product =>
    rw [Operators.parts_links, List.forall_mem_cons, List.forall_mem_map]
    exact ⟨by decide, fun _ _ => by decide⟩
  | signed | negation => simp [Operators.parts_stacked, Category.inExpressions, Category.operands]
  | plain hmem =>
    simp only [List.mem_cons, List.not_mem_nil, or_false] at hmem
    rcases hmem with rfl | rfl | rfl <;> decide
  | _ => revert hkind; simp [Item.parts, NodeKind.category, Category.inExpressions,
      Category.operands]

theorem Fills.inExpressions {trees : List Node} (h : Fills items trees tokens)
    (hitems : ∀ category ∈ Item.parts items, category ∈ Category.inExpressions) :
    ∀ tree ∈ trees, ∀ node ∈ tree.nodes, node.category ∈ Category.inExpressions := by
  induction h with
  | nil => simp
  | mark _ _ ih => exact ih hitems
  | word _ _ _ ih => exact ih hitems
  | @part _ tree _ _ _ _ _ hcategory production _ _ ihBelow ih =>
    obtain ⟨kind, children, span⟩ := tree
    obtain ⟨hfirst, hothers⟩ := List.forall_mem_cons.mp hitems
    subst hcategory
    -- the constructs under an expression are those of expressions again
    have hbelow := ihBelow (production.inExpressions hfirst)
    refine List.forall_mem_cons.mpr ⟨?_, ih hothers⟩
    simpa [hfirst, Node.category] using fun node child hchild => hbelow child hchild node

/-- No node of an expression is a declaration. -/
theorem Derives.isDeclaration_eq_false (h : Derives .expression tree tokens) :
    ∀ node ∈ tree.nodes, node.kind.isDeclaration = false := by
  intro node hnode
  have hcategory := (Fills.lastTree h).inExpressions (by decide) tree List.mem_cons_self node hnode
  obtain ⟨kind, children, span⟩ := node
  revert hcategory
  cases kind <;> simp [Node.category, NodeKind.category, NodeKind.isDeclaration,
    Category.inExpressions, Category.operands]

namespace Node

theorem declared?_eq_none {node : Node} (h : node.kind.isDeclaration = false) :
    node.declared? = none := by
  obtain ⟨kind, children, span⟩ := node
  cases kind <;> first | rfl | cases h

theorem symbols_eq_nil (h : ∀ node ∈ tree.nodes, node.kind.isDeclaration = false) :
    tree.symbols = [] :=
  List.filterMap_eq_nil_iff.mpr fun node hnode => declared?_eq_none (h node hnode)

/-- Where nothing is declared, every name must be known. -/
theorem scoped_checkOrder_iff {known : List String} (hparent : parent.isDeclaration = false)
    (h : ∀ node ∈ tree.nodes, node.kind.isDeclaration = false) :
    Scoped known (tree.checkOrder parent) ↔ ∀ name ∈ tree.mentions, name ∈ known := by
  -- on the tree; no part of it adds a name to those that are known
  induction tree using Node.induction generalizing parent with
  | step kind children span ih =>
    simp only [nodes_mk, List.forall_mem_cons, List.mem_flatMap] at h
    obtain ⟨hkind, hbelow⟩ := h
    have hrow (trees : List Node) (htrees : trees ⊆ children) :
        Scoped known (trees.flatMap (checkOrder kind)) ↔
          ∀ tree ∈ trees, ∀ name ∈ tree.mentions, name ∈ known := by
      induction trees with
      | nil => simp [Scoped]
      | cons tree others ihOthers =>
        obtain ⟨hmem, hothers⟩ := List.cons_subset.mp htrees
        have hquiet := fun node hnode => hbelow node ⟨tree, hmem, hnode⟩
        have hnames : declaredNames (tree.checkOrder kind) = [] := by
          rw [List.eq_nil_iff_forall_not_mem]
          intro name
          simp [mem_declaredNames_checkOrder, symbols_eq_nil hquiet]
        rw [List.flatMap_cons, scoped_append_iff, hnames, List.append_nil,
          ih tree hmem hkind hquiet, ihOthers hothers, List.forall_mem_cons]
    have hnone : declared? ⟨kind, children, span⟩ = none := declared?_eq_none hkind
    have hperm := kind.inCheckOrder_perm children
    rw [checkOrder_mk, Scoped, declaredNames]
    simp only [hparent, List.filterMap_cons, hnone, Option.map_none, List.filterMap_nil,
      List.append_nil, hrow _ hperm.subset, hperm.mem_iff, mentions_mk, List.mem_append,
      Option.mem_toList, List.mem_flatMap, or_imp, forall_and]
    grind

end Node

/-! ## Types under growing declarations -/

/-- An expression whose names are known has one type under all declarations. -/
theorem SymbolTable.Agrees.hasType_iff {type : ValueType} (h : table.Agrees types) :
    HasType table.types tree type ↔
      HasType types tree type ∧ ∀ name ∈ tree.mentions, name ∈ table.names := by
  constructor
  · intro htype
    -- a type under the table is evidence that all names are in it
    have hknown : ∀ name ∈ tree.mentions, name ∈ table.names := by
      intro name hname
      obtain ⟨found, hfound⟩ :=
        Option.isSome_iff_exists.mp (htype.isSome_of_mem_mentions name hname)
      obtain ⟨symbol, hsymbol, -⟩ := SymbolTable.types_eq_some_iff.mp hfound
      exact SymbolTable.exists_lookup?_iff.mp ⟨symbol, hsymbol⟩
    exact ⟨htype.congr fun name hname => h.types_eq (hknown name hname), hknown⟩
  · rintro ⟨htype, hknown⟩
    exact htype.congr fun name hname => (h.types_eq (hknown name hname)).symm

/-! ## Accepted expressions -/

section Quiet

variable (hparent : parent.isDeclaration = false)
  (hquiet : ∀ node ∈ tree.nodes, node.kind.isDeclaration = false)
include hquiet

/-- What declares nothing only counts. -/
theorem Checker.after_quiet (s : Checker) : s.after [tree] = s.counting tree.counts := by
  simp only [after, List.flatMap_singleton, Node.symbols_eq_nil hquiet, SymbolTable.extend_nil,
    List.map_singleton, List.sum_singleton]
  rfl

include hparent in
/-- What declares nothing is accepted if its names are known and it is well typed. -/
theorem accepts_quiet_iff (hdistinct : table.Distinct) (hagrees : table.Agrees types) :
    Accepts types table parent [tree] ↔
      (∀ name ∈ tree.mentions, name ∈ table.names) ∧ ∀ node ∈ tree.nodes, node.Typed types := by
  have hsymbols : table.extend ([tree].flatMap Node.symbols) = table := by
    rw [List.flatMap_singleton, Node.symbols_eq_nil hquiet, SymbolTable.extend_nil]
  rw [← Node.scoped_checkOrder_iff hparent hquiet]
  constructor
  · rintro ⟨-, -, hscoped, htyped⟩
    exact ⟨by rwa [List.flatMap_singleton] at hscoped, htyped tree List.mem_cons_self⟩
  · rintro ⟨hscoped, htyped⟩
    exact ⟨by rwa [hsymbols], by rwa [hsymbols], by rwa [List.flatMap_singleton],
      List.forall_mem_singleton.mpr htyped⟩

end Quiet

/-! ## Accepted declarations -/

section Declarations

variable {name : String} {type : ValueType} {place span : Span}
  (hdeclared : Node.declared? ⟨kind, [⟨.identifier name, [], place⟩], span⟩
    = some ⟨name, type, place⟩)
include hdeclared

theorem symbols_declaration :
    Node.symbols ⟨kind, [⟨.identifier name, [], place⟩], span⟩ = [⟨name, type, place⟩] := by
  rw [Node.symbols_mk, hdeclared]
  rfl

/-- A declaration is accepted if its name is new and has the declared type. -/
theorem accepts_declaration_iff (hkind : kind.isDeclaration = true) (hdistinct : table.Distinct)
    (hagrees : table.Agrees types) :
    Accepts types table parent [⟨kind, [⟨.identifier name, [], place⟩], span⟩] ↔
      name ∉ table.names ∧ types name = some type := by
  have hsymbols : [Node.mk kind [⟨.identifier name, [], place⟩] span].flatMap Node.symbols
      = [⟨name, type, place⟩] := by
    rw [List.flatMap_singleton, symbols_declaration hdeclared]
  have horder : Node.checkOrder parent ⟨kind, [⟨.identifier name, [], place⟩], span⟩
      = [(parent, ⟨kind, [⟨.identifier name, [], place⟩], span⟩),
        (kind, ⟨.identifier name, [], place⟩)] := by
    cases kind <;> rfl
  have huse : Node.identifier? ⟨kind, [⟨.identifier name, [], place⟩], span⟩ = none := by
    cases kind <;> first | rfl | cases hkind
  have htyped : Node.Typed types ⟨kind, [⟨.identifier name, [], place⟩], span⟩ := by
    cases kind <;> trivial
  constructor
  · rintro ⟨hnodup, hall, -, -⟩
    rw [hsymbols] at hnodup hall
    rw [SymbolTable.Distinct, SymbolTable.names_extend, List.nodup_append] at hnodup
    refine ⟨fun hmem => hnodup.2.2 name hmem name (by simp) rfl, ?_⟩
    exact hall ⟨name, type, place⟩ (List.mem_append_right _ List.mem_cons_self)
  · rintro ⟨hnew, htype⟩
    refine ⟨?_, ?_, ?_, ?_⟩
    · rw [hsymbols, SymbolTable.Distinct, SymbolTable.names_extend, List.nodup_append]
      exact ⟨hdistinct, List.nodup_singleton _, by rintro _ hmem _ hname rfl; simp_all⟩
    · rw [hsymbols]
      exact List.forall_mem_append.mpr ⟨hagrees, List.forall_mem_singleton.mpr htype⟩
    · rw [List.flatMap_singleton, horder]
      simp [Scoped, huse, hkind]
    · simpa [htyped] using by simp [Node.Typed]

end Declarations

end Census
