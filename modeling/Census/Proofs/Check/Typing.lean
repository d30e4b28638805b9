import Mathlib.Data.List.Nodup
import Census.Check.Rules
import Census.Proofs.Tree.Nodes

/-!
# Types

What it means that a program is well typed, said about its tree and its declarations as a whole.
Nothing here knows in which order a program is checked.

- `Node.symbols`: the variables that a tree declares.
- `HasType`: the type of an expression, given the types of all names.
- `Node.Typed`: what a single node asks of types.
-/

namespace Census

/-! ## Declarations -/

namespace SymbolTable

/-- The names of the table. -/
def names (table : SymbolTable) : List String := table.entries.map Symbol.name

/-- The types of names. -/
def types (table : SymbolTable) (name : String) : Option ValueType :=
  (table.lookup? name).map Symbol.type

/-- No name is declared twice. -/
def Distinct (table : SymbolTable) : Prop := table.names.Nodup

/-- Every entry has the type that its name has. -/
def Agrees (table : SymbolTable) (types : String → Option ValueType) : Prop :=
  ∀ symbol ∈ table.entries, types symbol.name = some symbol.type

/-- The table with more entries. -/
def extend (table : SymbolTable) (symbols : List Symbol) : SymbolTable :=
  ⟨table.entries ++ symbols⟩

variable {table : SymbolTable} {name : String}

theorem mem_of_lookup? {symbol : Symbol} (h : table.lookup? name = some symbol) :
    symbol ∈ table.entries :=
  List.mem_of_find?_eq_some h

/-- Only names without an entry are not found. -/
theorem lookup?_eq_none_iff : table.lookup? name = none ↔ name ∉ table.names := by
  simp [lookup?, names]

theorem exists_lookup?_iff : (∃ symbol, table.lookup? name = some symbol) ↔ name ∈ table.names := by
  rw [← Option.isSome_iff_exists, ← not_iff_not, ← lookup?_eq_none_iff]
  simp

/-- More entries come behind those that were there. -/
theorem names_extend (symbols : List Symbol) :
    (table.extend symbols).names = table.names ++ symbols.map Symbol.name := by
  simp [names, extend]

/-- The type of a name is that of its entry. -/
theorem types_eq_some_iff {type : ValueType} :
    table.types name = some type ↔ ∃ symbol, table.lookup? name = some symbol ∧
      symbol.type = type := by
  simp [types]

/-- A table that agrees with some types gives no others. -/
theorem Agrees.types_eq {types : String → Option ValueType} (h : table.Agrees types)
    (hname : name ∈ table.names) : table.types name = types name := by
  obtain ⟨symbol, hsymbol⟩ := exists_lookup?_iff.mpr hname
  have hagrees := h symbol (mem_of_lookup? hsymbol)
  rw [name_of_lookup? hsymbol] at hagrees
  rw [hagrees, types_eq_some_iff]
  exact ⟨symbol, hsymbol, rfl⟩

/-- A table without repeated names agrees with itself. -/
theorem Distinct.agrees (h : table.Distinct) : table.Agrees table.types := by
  intro symbol hsymbol
  obtain ⟨found, hfound⟩ := exists_lookup?_iff.mpr (List.mem_map_of_mem hsymbol)
  -- the look-up finds the first entry of the name, and there is only one
  have hsame : found = symbol :=
    List.inj_on_of_nodup_map h (mem_of_lookup? hfound) hsymbol (name_of_lookup? hfound)
  exact types_eq_some_iff.mpr ⟨symbol, hsame ▸ hfound, rfl⟩

end SymbolTable

namespace Node

/-- The variable that a declaration declares. -/
def declared? : Node → Option Symbol
  | ⟨.scalarDeclaration keyword, ⟨.identifier name, _, span⟩ :: _, _⟩ =>
    some ⟨name, .ofScalarKeyword keyword, span⟩
  | ⟨.listDeclaration keyword, ⟨.identifier name, _, span⟩ :: _, _⟩ =>
    some ⟨name, .ofListKeyword keyword, span⟩
  | _ => none

/-- The variables that a tree declares, in the order of their declarations. -/
def symbols (tree : Node) : List Symbol := tree.nodes.filterMap declared?

/-- A construct declares its own variable before those of its parts. -/
theorem symbols_mk (kind : NodeKind) (children : List Node) (span : Span) :
    symbols ⟨kind, children, span⟩
      = (declared? ⟨kind, children, span⟩).toList ++ children.flatMap symbols := by
  rw [symbols, nodes_mk, List.filterMap_cons, List.filterMap_flatMap]
  cases declared? ⟨kind, children, span⟩ <;> rfl

end Node

/-! ## Typing -/

namespace NodeKind

/-- The constructs that pass on the type of a part that is their only one. -/
def passes : NodeKind → Bool
  | value => true
  | expression => true
  | comparison _ => true
  | sum _ => true
  | product _ => true
  | logical _ => true
  | _ => false

/-- The type that operators between operands need and produce. -/
def joined? : NodeKind → Option ValueType
  | sum _ => some .num
  | product _ => some .num
  | logical _ => some .bool
  | _ => none

/-- Operators before an operand, and the type they refuse. -/
def stacked? : NodeKind → Option (List String × ValueType)
  | negation operators => some (operators, .num)
  | signed operators => some (operators, .bool)
  | _ => none

end NodeKind

/-- The expression has the type, given the types of all names. -/
inductive HasType (types : String → Option ValueType) : Node → ValueType → Prop where
  | identifier {name : String} {span : Span} {type : ValueType} (h : types name = some type) :
      HasType types ⟨.identifier name, [], span⟩ type
  | integer {digits : String} {span : Span} : HasType types ⟨.integer digits, [], span⟩ .num
  | boolean {truth : Bool} {span : Span} : HasType types ⟨.boolean truth, [], span⟩ .bool
  /-- Parentheses and operands alone pass their type on. -/
  | alone {kind : NodeKind} {operand : Node} {span : Span} {type : ValueType}
      (hkind : kind.passes = true) (h : HasType types operand type) :
      HasType types ⟨kind, [operand], span⟩ type
  /-- Joined operands all have the operators' type. -/
  | joined {kind : NodeKind} {operands : List Node} {span : Span} {type : ValueType}
      (hkind : kind.joined? = some type) (hmany : 2 ≤ operands.length)
      (h : ∀ operand ∈ operands, HasType types operand type) :
      HasType types ⟨kind, operands, span⟩ type
  /-- Compared operands have one type, and have an order if that is asked for. -/
  | compared {operator : String} {left right : Node} {span : Span} {type : ValueType}
      (hleft : HasType types left type) (hright : HasType types right type)
      (horder : operator = "==" ∨ operator = "!=" ∨ type = .num) :
      HasType types ⟨.comparison (some operator), [left, right], span⟩ .bool
  /-- An operand under stacked operators keeps its type, if they do not refuse it. -/
  | stacked {kind : NodeKind} {operators : List String} {refused : ValueType} {operand : Node}
      {span : Span} {type : ValueType} (hkind : kind.stacked? = some (operators, refused))
      (h : HasType types operand type) (hrefused : operators ≠ [] → type ≠ refused) :
      HasType types ⟨kind, [operand], span⟩ type

/-- What a node asks of types: expressions have one, an assigned value has that of its variable,
conditions are `bool`, and a loop runs over a list of what its variable is. -/
def Node.Typed (types : String → Option ValueType) : Node → Prop
  | ⟨.expression, children, span⟩ => ∃ type, HasType types ⟨.expression, children, span⟩ type
  | ⟨.assignment, [target, content], _⟩ => ∃ name type, target.identifier? = some name ∧
      types name = some type ∧ HasType types content type
  | ⟨.conditional, test :: _, _⟩ => HasType types test .bool
  | ⟨.whileLoop, test :: _, _⟩ => HasType types test .bool
  | ⟨.forLoop, _ :: test :: _, _⟩ => HasType types test .bool
  | ⟨.foreachLoop, entry :: array :: _, _⟩ => ∃ symbol name type,
      entry.declared? = some symbol ∧ array.identifier? = some name ∧
        types name = some type ∧ symbol.type.listOf? = some type
  | _ => True

/-! ## Types by construct -/

section Inversion

variable {types : String → Option ValueType} {kind : NodeKind} {operand left right : Node}
  {operands : List Node} {span : Span} {type : ValueType}

theorem hasType_integer_iff {digits : String} :
    HasType types ⟨.integer digits, [], span⟩ type ↔ type = .num := by
  constructor
  · rintro (_ | _ | _ | _ | ⟨-, hmany, -⟩ | _ | _)
    · rfl
    · simp at hmany
  · rintro rfl
    exact .integer

theorem hasType_boolean_iff {truth : Bool} :
    HasType types ⟨.boolean truth, [], span⟩ type ↔ type = .bool := by
  constructor
  · rintro (_ | _ | _ | _ | ⟨-, hmany, -⟩ | _ | _)
    · rfl
    · simp at hmany
  · rintro rfl
    exact .boolean

theorem hasType_identifier_iff {name : String} :
    HasType types ⟨.identifier name, [], span⟩ type ↔ types name = some type := by
  constructor
  · rintro (h | _ | _ | _ | ⟨-, hmany, -⟩ | _ | _)
    · exact h
    · simp at hmany
  · exact .identifier

/-- A lone operand passes its type on. -/
theorem hasType_alone_iff (hkind : kind.passes = true) :
    HasType types ⟨kind, [operand], span⟩ type ↔ HasType types operand type := by
  constructor
  · rintro (_ | _ | _ | ⟨-, h⟩ | ⟨-, hmany, -⟩ | _ | ⟨hstacked, -, -⟩)
    · exact h
    · simp at hmany
    · cases kind <;> simp_all [NodeKind.passes, NodeKind.stacked?]
  · exact .alone hkind

/-- Two or more operands have the type that the operators need, and so has the whole. -/
theorem hasType_joined_iff {needed : ValueType} (hkind : kind.joined? = some needed)
    (hmany : 2 ≤ operands.length) :
    HasType types ⟨kind, operands, span⟩ type ↔
      type = needed ∧ ∀ operand ∈ operands, HasType types operand needed := by
  constructor
  · rintro (_ | _ | _ | _ | ⟨hjoined, -, h⟩ | _ | _)
    · simp at hmany
    · simp at hmany
    · simp at hmany
    · simp at hmany
    · obtain rfl := Option.some.inj (hjoined.symm.trans hkind)
      exact ⟨rfl, h⟩
    · cases hkind
    · simp at hmany
  · rintro ⟨rfl, h⟩
    exact .joined hkind hmany h

/-- What is compared is of one type, and numbers unless the operator is an equality. -/
theorem hasType_compared_iff {operator : String} :
    HasType types ⟨.comparison (some operator), [left, right], span⟩ type ↔
      type = .bool ∧ ∃ common, HasType types left common ∧ HasType types right common ∧
        (operator = "==" ∨ operator = "!=" ∨ common = .num) := by
  constructor
  · rintro (_ | _ | _ | _ | ⟨hjoined, -, -⟩ | ⟨hleft, hright, horder⟩ | _)
    · cases hjoined
    · exact ⟨rfl, _, hleft, hright, horder⟩
  · rintro ⟨rfl, common, hleft, hright, horder⟩
    exact .compared hleft hright horder

/-- What is under operators has any type but the one they refuse. -/
theorem hasType_stacked_iff {operators : List String} {refused : ValueType}
    (hkind : kind.stacked? = some (operators, refused)) :
    HasType types ⟨kind, [operand], span⟩ type ↔
      HasType types operand type ∧ (operators ≠ [] → type ≠ refused) := by
  constructor
  · rintro (_ | _ | _ | ⟨hpasses, -⟩ | ⟨-, hmany, -⟩ | _ | ⟨hstacked, h, hrefused⟩)
    · cases kind <;> simp_all [NodeKind.passes, NodeKind.stacked?]
    · simp at hmany
    · obtain ⟨rfl, rfl⟩ := Prod.mk.inj (Option.some.inj (hstacked.symm.trans hkind))
      exact ⟨h, hrefused⟩
  · rintro ⟨h, hrefused⟩
    exact .stacked hkind h hrefused

end Inversion

/-! ## What a type depends on -/

/-- The names that a tree mentions. -/
def Node.mentions (tree : Node) : List String := tree.nodes.filterMap Node.identifier?

/-- A tree mentions its own name and those of its parts. -/
theorem Node.mentions_mk (kind : NodeKind) (children : List Node) (span : Span) :
    mentions ⟨kind, children, span⟩
      = (identifier? ⟨kind, children, span⟩).toList ++ children.flatMap mentions := by
  rw [mentions, nodes_mk, List.filterMap_cons, List.filterMap_flatMap]
  cases identifier? ⟨kind, children, span⟩ <;> rfl

namespace HasType

variable {types types' : String → Option ValueType} {tree : Node} {type : ValueType}

/-- An expression has its type because the names it mentions have theirs. -/
theorem congr (h : HasType types tree type) (hagree : ∀ name ∈ tree.mentions,
    types name = types' name) : HasType types' tree type := by
  induction h with
  | @identifier name span type h =>
    rw [hagree name (by simp [Node.mentions_mk, Node.identifier?])] at h
    exact .identifier h
  | integer => exact .integer
  | boolean => exact .boolean
  | alone hkind _ ih =>
    exact .alone hkind (ih fun name hname => hagree name (by simp [Node.mentions_mk, hname]))
  | joined hkind hmany _ ih =>
    refine .joined hkind hmany fun operand hoperand => ih operand hoperand fun name hname => ?_
    refine hagree name ?_
    rw [Node.mentions_mk]
    exact List.mem_append_right _ (List.mem_flatMap.mpr ⟨operand, hoperand, hname⟩)
  | compared _ _ horder ihLeft ihRight =>
    exact .compared (ihLeft fun name hname => hagree name (by simp [Node.mentions_mk, hname]))
      (ihRight fun name hname => hagree name (by simp [Node.mentions_mk, hname])) horder
  | stacked hkind _ hrefused ih =>
    exact .stacked hkind (ih fun name hname => hagree name (by simp [Node.mentions_mk, hname]))
      hrefused

/-- No name in an expression that has a type is without one. -/
theorem isSome_of_mem_mentions (h : HasType types tree type) :
    ∀ name ∈ tree.mentions, (types name).isSome := by
  induction h with
  | identifier h => simp [Node.mentions_mk, Node.identifier?, h]
  | integer | boolean => simp [Node.mentions_mk, Node.identifier?]
  | @alone kind _ _ _ hkind _ ih =>
    cases kind <;> simp_all [NodeKind.passes, Node.mentions_mk, Node.identifier?]
  | @joined kind operands span _ hkind _ _ ih =>
    have hself : Node.identifier? ⟨kind, operands, span⟩ = none := by
      cases kind <;> simp_all [NodeKind.joined?, Node.identifier?]
    simpa [Node.mentions_mk, hself] using fun name operand hoperand => ih operand hoperand name
  | compared _ _ _ ihLeft ihRight =>
    simpa [Node.mentions_mk, Node.identifier?, or_imp, forall_and] using ⟨ihLeft, ihRight⟩
  | @stacked kind _ _ _ _ _ hkind _ _ ih =>
    cases kind <;> simp_all [NodeKind.stacked?, Node.mentions_mk, Node.identifier?]

/-- The types of an expression's parts are all that its nodes ask for. -/
theorem typed (h : HasType types tree type) : ∀ node ∈ tree.nodes, node.Typed types := by
  induction h with
  | identifier | integer | boolean => simp [Node.Typed]
  | @alone kind operand span type hkind h ih =>
    have hself : Node.Typed types ⟨kind, [operand], span⟩ := by
      cases kind <;> simp only [NodeKind.passes, Bool.false_eq_true] at hkind <;>
        simp only [Node.Typed]
      exact ⟨type, .alone rfl h⟩
    simpa [hself] using ih
  | @joined kind operands span type hkind hmany h ih =>
    have hself : Node.Typed types ⟨kind, operands, span⟩ := by
      cases kind <;> simp only [NodeKind.joined?, reduceCtorEq] at hkind <;>
        simp only [Node.Typed]
    simpa [hself] using fun node operand hoperand => ih operand hoperand node
  | @compared operator left right span _ _ _ _ ihLeft ihRight =>
    have hself : Node.Typed types ⟨.comparison (some operator), [left, right], span⟩ := by
      simp only [Node.Typed]
    simpa [hself, or_imp, forall_and] using ⟨ihLeft, ihRight⟩
  | @stacked kind _ _ operand span _ hkind _ _ ih =>
    have hself : Node.Typed types ⟨kind, [operand], span⟩ := by
      cases kind <;> simp only [NodeKind.stacked?, reduceCtorEq] at hkind <;>
        simp only [Node.Typed]
    simpa [hself] using ih

end HasType

end Census
