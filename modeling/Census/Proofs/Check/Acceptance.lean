import Census.Proofs.Check.Expressions
import Census.Proofs.Check.Keeps
import Census.Proofs.Check.Order

/-!
# Acceptance

What a walk over some trees has to find so that it succeeds, put in terms of the types that all
names have in the end. Walks in a row then have to find what each of them has to.

- `Grows`: what is declared stays declared.
- `Accepts`: the trees are well typed as far as they go.
- `Decides`: a walk succeeds exactly on what is accepted, and leaves the declarations and counts.
- `Decides.trans`: walks in a row.
-/

namespace Census

/-! ## Growing tables -/

/-- Declarations are only added, and never one of the same name twice. -/
structure Grows (s s' : Checker) : Prop where
  entries : s.symbols.entries <+: s'.symbols.entries
  distinct : s.symbols.Distinct → s'.symbols.Distinct

theorem growth_grows : Growth Grows where
  refl _ := ⟨List.prefix_refl _, id⟩
  trans h h' := ⟨h.entries.trans h'.entries, h'.distinct ∘ h.distinct⟩
  count _ _ _ := ⟨List.prefix_refl _, id⟩
  declare s symbol hnew := by
    refine ⟨List.prefix_append _ _, fun hdistinct => ?_⟩
    have hname := SymbolTable.lookup?_eq_none_iff.mp hnew
    show ((s.symbols.entries ++ [symbol]).map Symbol.name).Nodup
    rw [List.map_append, List.nodup_append]
    refine ⟨hdistinct, List.nodup_singleton _, ?_⟩
    rintro name hmem _ hsymbol rfl
    rw [List.map_singleton, List.mem_singleton] at hsymbol
    exact hname (hsymbol ▸ hmem)

namespace Grows

variable {s s' : Checker} (h : Grows s s')
include h

theorem agrees {types : String → Option ValueType} (hagrees : s'.symbols.Agrees types) :
    s.symbols.Agrees types :=
  fun symbol hsymbol => hagrees symbol (h.entries.subset hsymbol)

theorem names_subset : s.symbols.names ⊆ s'.symbols.names :=
  List.map_subset Symbol.name h.entries.subset

end Grows

/-! ## Accepted trees -/

/-- The state after a successful walk over trees. -/
def Checker.after (s : Checker) (trees : List Node) : Checker :=
  ⟨s.symbols.extend (trees.flatMap Node.symbols), s.metrics + (trees.map Node.counts).sum⟩

/-- Behind the declarations of a table, in a construct of the given kind, the trees are well typed
as far as they go; `types` are the types of names in the whole program. -/
structure Accepts (types : String → Option ValueType) (table : SymbolTable) (parent : NodeKind)
    (trees : List Node) : Prop where
  distinct : (table.extend (trees.flatMap Node.symbols)).Distinct
  agrees : (table.extend (trees.flatMap Node.symbols)).Agrees types
  declaredBefore : Scoped table.names (trees.flatMap (Node.checkOrder parent))
  typed : ∀ tree ∈ trees, ∀ node ∈ tree.nodes, node.Typed types

variable {types : String → Option ValueType} {table : SymbolTable} {parent : NodeKind}
  {trees trees' : List Node}

namespace SymbolTable

theorem extend_append (symbols symbols' : List Symbol) :
    table.extend (symbols ++ symbols') = (table.extend symbols).extend symbols' := by
  simp only [extend, List.append_assoc]

theorem extend_nil : table.extend [] = table := by
  simp only [extend, List.append_nil]

theorem Distinct.of_extend {symbols : List Symbol} (h : (table.extend symbols).Distinct) :
    table.Distinct := by
  rw [Distinct, names_extend] at h
  exact h.of_append_left

theorem Agrees.of_extend {symbols : List Symbol} (h : (table.extend symbols).Agrees types) :
    table.Agrees types := fun symbol hsymbol =>
  h symbol (List.mem_append_left _ hsymbol)

end SymbolTable

theorem mem_declaredNames_flatMap {name : String} :
    name ∈ declaredNames (trees.flatMap (Node.checkOrder parent)) ↔
      name ∈ (trees.flatMap Node.symbols).map Symbol.name := by
  induction trees with
  | nil => simp [declaredNames]
  | cons tree others ih =>
    rw [List.flatMap_cons, declaredNames_append, List.mem_append, ih,
      Node.mem_declaredNames_checkOrder, List.flatMap_cons, List.map_append, List.mem_append]

/-- Rows of trees are accepted one after the other. -/
theorem accepts_append_iff :
    Accepts types table parent (trees ++ trees') ↔ Accepts types table parent trees ∧
      Accepts types (table.extend (trees.flatMap Node.symbols)) parent trees' := by
  -- the table behind the first row knows the names that the row declares
  have hknown : table.names ++ declaredNames (trees.flatMap (Node.checkOrder parent))
      ⊆ (table.extend (trees.flatMap Node.symbols)).names ∧
      (table.extend (trees.flatMap Node.symbols)).names
        ⊆ table.names ++ declaredNames (trees.flatMap (Node.checkOrder parent)) := by
    rw [SymbolTable.names_extend]
    constructor <;> intro name <;>
      simp only [List.mem_append, mem_declaredNames_flatMap] <;> exact id
  constructor
  · rintro ⟨hdistinct, hagrees, hscoped, htyped⟩
    rw [List.flatMap_append, SymbolTable.extend_append] at hdistinct hagrees
    rw [List.flatMap_append, scoped_append_iff] at hscoped
    obtain ⟨htyped, htyped'⟩ := List.forall_mem_append.mp htyped
    exact ⟨⟨hdistinct.of_extend, hagrees.of_extend, hscoped.1, htyped⟩,
      ⟨hdistinct, hagrees, hscoped.2.mono hknown.1, htyped'⟩⟩
  · rintro ⟨⟨-, -, hscoped, htyped⟩, ⟨hdistinct, hagrees, hscoped', htyped'⟩⟩
    refine ⟨?_, ?_, ?_, List.forall_mem_append.mpr ⟨htyped, htyped'⟩⟩
    · rwa [List.flatMap_append, SymbolTable.extend_append]
    · rwa [List.flatMap_append, SymbolTable.extend_append]
    · rw [List.flatMap_append, scoped_append_iff]
      exact ⟨hscoped, hscoped'.mono hknown.2⟩

/-- A construct is accepted if its parts are, in the order in which they are checked, and if it has
the types it asks for. -/
theorem accepts_mk_iff {kind : NodeKind} {children : List Node} {span : Span}
    (hdeclared : Node.declared? ⟨kind, children, span⟩ = none)
    (huse : Node.identifier? ⟨kind, children, span⟩ = none)
    (hsymbols : (kind.inCheckOrder children).flatMap Node.symbols
      = children.flatMap Node.symbols) :
    Accepts types table parent [⟨kind, children, span⟩] ↔
      Accepts types table kind (kind.inCheckOrder children) ∧
        Node.Typed types ⟨kind, children, span⟩ := by
  -- the construct itself declares and uses nothing
  have hself : [Node.mk kind children span].flatMap Node.symbols
      = (kind.inCheckOrder children).flatMap Node.symbols := by
    rw [hsymbols, List.flatMap_singleton, Node.symbols_mk, hdeclared]
    rfl
  have hscoped : Scoped table.names ([Node.mk kind children span].flatMap (Node.checkOrder parent))
      ↔ Scoped table.names ((kind.inCheckOrder children).flatMap (Node.checkOrder kind)) := by
    rw [List.flatMap_singleton, Node.checkOrder_mk, Scoped]
    simp [huse, declaredNames, hdeclared]
  have htyped : (∀ tree ∈ [Node.mk kind children span], ∀ node ∈ tree.nodes, node.Typed types) ↔
      (∀ child ∈ kind.inCheckOrder children, ∀ node ∈ child.nodes, node.Typed types) ∧
        Node.Typed types ⟨kind, children, span⟩ := by
    simp only [(kind.inCheckOrder_perm children).mem_iff, List.forall_mem_singleton,
      Node.nodes_mk, List.forall_mem_cons, List.mem_flatMap]
    constructor
    · rintro ⟨hself, hbelow⟩
      exact ⟨fun child hchild node hnode => hbelow node ⟨child, hchild, hnode⟩, hself⟩
    · rintro ⟨hbelow, hself⟩
      refine ⟨hself, ?_⟩
      rintro node ⟨child, hchild, hnode⟩
      exact hbelow child hchild node hnode
  constructor
  · rintro ⟨hdistinct, hagrees, hbefore, hall⟩
    rw [hself] at hdistinct hagrees
    exact ⟨⟨hdistinct, hagrees, hscoped.mp hbefore, (htyped.mp hall).1⟩, (htyped.mp hall).2⟩
  · rintro ⟨⟨hdistinct, hagrees, hbefore, hall⟩, hown⟩
    rw [← hself] at hdistinct hagrees
    exact ⟨hdistinct, hagrees, hscoped.mpr hbefore, htyped.mpr ⟨hall, hown⟩⟩

/-! ## Decisions -/

/-- The walk succeeds exactly if the trees are accepted and the demand is met, and leaves what the
trees declare and count. That no declaration gets a type of its own is part of either side. -/
def Decides (types : String → Option ValueType) (walk : Checker → Checker → Prop)
    (parent : NodeKind) (trees : List Node) (demand : Prop) : Prop :=
  ∀ s s', s.symbols.Distinct → s.symbols.Agrees types →
    (walk s s' ∧ s'.symbols.Agrees types ↔
      (Accepts types s.symbols parent trees ∧ demand) ∧ s' = s.after trees)

namespace Checker

variable {s : Checker}

theorem after_nil : s.after [] = s := by
  simp [after, SymbolTable.extend_nil]

theorem after_append : s.after (trees ++ trees') = (s.after trees).after trees' := by
  simp [after, SymbolTable.extend_append, add_assoc]

end Checker

namespace Decides

variable {walk walk' : Checker → Checker → Prop} {demand demand' : Prop}

/-- Walks that do the same towards declarations of the right types. -/
theorem congr (h : Decides types walk parent trees demand)
    (hwalk : ∀ s s', s'.symbols.Agrees types → (walk' s s' ↔ walk s s'))
    (hdemand : demand' ↔ demand) : Decides types walk' parent trees demand' := by
  intro s s' hdistinct hagrees
  rw [and_congr_left (hwalk s s'), hdemand]
  exact h s s' hdistinct hagrees

/-- A condition that does not depend on the state. -/
theorem guard (condition : Prop) (h : Decides types walk parent trees demand) :
    Decides types (fun s s' => condition ∧ walk s s') parent trees (condition ∧ demand) := by
  intro s s' hdistinct hagrees
  rw [and_assoc, h s s' hdistinct hagrees, and_assoc, and_assoc, and_left_comm, and_assoc]

/-- A choice that does not depend on the state. -/
theorem choose {α : Type} {walk : α → Checker → Checker → Prop} {demand : α → Prop}
    (h : ∀ a, Decides types (walk a) parent trees (demand a)) :
    Decides types (fun s s' => ∃ a, walk a s s') parent trees (∃ a, demand a) := by
  intro s s' hdistinct hagrees
  constructor
  · rintro ⟨⟨a, hwalk⟩, hend⟩
    obtain ⟨⟨haccepts, hdemand⟩, rfl⟩ := (h a s s' hdistinct hagrees).mp ⟨hwalk, hend⟩
    exact ⟨⟨haccepts, a, hdemand⟩, rfl⟩
  · rintro ⟨⟨haccepts, a, hdemand⟩, rfl⟩
    obtain ⟨hwalk, hend⟩ := (h a s _ hdistinct hagrees).mpr ⟨⟨haccepts, hdemand⟩, rfl⟩
    exact ⟨⟨a, hwalk⟩, hend⟩

/-- Standing still decides nothing. -/
theorem nil : Decides types (fun s s' => s' = s) parent [] True := by
  intro s s' hdistinct hagrees
  rw [Checker.after_nil]
  constructor
  · rintro ⟨rfl, -⟩
    exact ⟨⟨⟨by rwa [List.flatMap_nil, SymbolTable.extend_nil],
      by rwa [List.flatMap_nil, SymbolTable.extend_nil], trivial, by simp⟩, trivial⟩, rfl⟩
  · rintro ⟨-, rfl⟩
    exact ⟨rfl, hagrees⟩

/-- Walks in a row decide rows of trees. -/
theorem trans (h : Decides types walk parent trees demand)
    (h' : Decides types walk' parent trees' demand') (hgrows : ∀ {s s'}, walk' s s' → Grows s s') :
    Decides types (fun s s' => ∃ between, walk s between ∧ walk' between s') parent
      (trees ++ trees') (demand ∧ demand') := by
  intro s s' hdistinct hagrees
  rw [accepts_append_iff, Checker.after_append]
  constructor
  · rintro ⟨⟨between, hwalk, hwalk'⟩, hend⟩
    -- the state in between agrees because the last one does
    obtain ⟨⟨haccepts, hdemand⟩, rfl⟩ :=
      (h s between hdistinct hagrees).mp ⟨hwalk, (hgrows hwalk').agrees hend⟩
    obtain ⟨⟨haccepts', hdemand'⟩, rfl⟩ :=
      (h' _ s' haccepts.distinct haccepts.agrees).mp ⟨hwalk', hend⟩
    exact ⟨⟨⟨haccepts, haccepts'⟩, hdemand, hdemand'⟩, rfl⟩
  · rintro ⟨⟨⟨haccepts, haccepts'⟩, hdemand, hdemand'⟩, rfl⟩
    obtain ⟨hwalk, -⟩ := (h s _ hdistinct hagrees).mpr ⟨⟨haccepts, hdemand⟩, rfl⟩
    obtain ⟨hwalk', hend⟩ := (h' (s.after trees) _ haccepts.distinct haccepts.agrees).mpr
      ⟨⟨haccepts', hdemand'⟩, rfl⟩
    exact ⟨⟨_, hwalk, hwalk'⟩, hend⟩

/-- A walk over the parts of a construct decides the construct, which counts before its parts do,
if the demand is what the construct asks for. -/
theorem enclose {kind : NodeKind} {children : List Node} {span : Span}
    (h : Decides types walk kind (kind.inCheckOrder children) demand)
    (hdeclared : Node.declared? ⟨kind, children, span⟩ = none)
    (huse : Node.identifier? ⟨kind, children, span⟩ = none)
    (hsymbols : (kind.inCheckOrder children).flatMap Node.symbols
      = children.flatMap Node.symbols)
    (hdemand : Node.Typed types ⟨kind, children, span⟩ ↔ demand) :
    Decides types (fun s s' => walk (s.counting (kind.counts children.length)) s') parent
      [⟨kind, children, span⟩] True := by
  intro s s' hdistinct hagrees
  -- counts do not care for the order of the parts
  have hafter : s.after [⟨kind, children, span⟩]
      = (s.counting (kind.counts children.length)).after (kind.inCheckOrder children) := by
    have hsum := ((kind.inCheckOrder_perm children).map Node.counts).sum_eq
    simp only [Checker.after, Checker.counting, hsymbols, hsum, List.flatMap_singleton,
      Node.symbols_mk, hdeclared, Option.toList_none, List.nil_append, List.map_singleton,
      List.sum_singleton, Node.counts_mk, add_assoc]
  rw [h _ s' (by exact hdistinct) (by exact hagrees), accepts_mk_iff hdeclared huse hsymbols,
    hdemand, hafter, and_true]
  rfl

end Decides

end Census
