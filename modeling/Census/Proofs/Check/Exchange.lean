import Census.Proofs.Check.Sessions
import Census.Proofs.Check.Programs
import Census.Proofs.Grammar.Rewriting

/-!
# Statements that change places

Two neighbours in a block, neither of which mentions what the other one declares, may change places.
The order of declarations is another one then, but acceptance asks of it only that names are
declared before they are used.

- `Node.Interchangeable`: trees in which acceptance, declarations and counts agree.
- `Node.interchangeable_mk`: constructs agree in these if their parts do.
- `Node.Independent`, `Node.Exchange`: the statements that may change places, in one block.
- `analyze_exchange`: a program in which they do is accepted alike, and leaves the same behind.
-/

namespace Census

open Check

/-! ## Trees that may stand for each other -/

/-- The trees are accepted alike wherever they stand, and declare and count the same. -/
structure Node.Interchangeable (tree tree' : Node) : Prop where
  kind_eq : tree.kind = tree'.kind
  span_eq : tree.span = tree'.span
  declared?_eq : tree.declared? = tree'.declared?
  height_eq : tree.height = tree'.height
  counts_eq : tree.counts = tree'.counts
  symbols_perm : tree.symbols.Perm tree'.symbols
  scoped_iff : ∀ parent known,
    Scoped known (tree.checkOrder parent) ↔ Scoped known (tree'.checkOrder parent)
  hasType_iff : ∀ types type, HasType types tree type ↔ HasType types tree' type
  typed_iff : ∀ types,
    (∀ node ∈ tree.nodes, node.Typed types) ↔ ∀ node ∈ tree'.nodes, node.Typed types

/-- What a row of nodes knows in the beginning matters only as a set. -/
theorem scoped_congr {known known' : List String} {order : List (NodeKind × Node)}
    (h : ∀ name, name ∈ known ↔ name ∈ known') : Scoped known order ↔ Scoped known' order :=
  ⟨fun hscoped => hscoped.mono fun name => (h name).mp,
    fun hscoped => hscoped.mono fun name => (h name).mpr⟩

/-- Rows go on being related when conditions are moved to the end. -/
theorem NodeKind.forall₂_inCheckOrder {α β : Type} {R : α → β → Prop} {parts : List α}
    {parts' : List β} (kind : NodeKind) (h : List.Forall₂ R parts parts') :
    List.Forall₂ R (kind.inCheckOrder parts) (kind.inCheckOrder parts') := by
  unfold inCheckOrder
  cases kind.conditionIndex? with
  | none => exact h
  | some index =>
    refine List.rel_append (forall₂_eraseIdx h index) ?_
    have htest := forall₂_getElem? h index
    revert htest
    generalize parts[index]? = test, parts'[index]? = test'
    rintro (htest | _)
    · exact .cons htest .nil
    · exact .nil

namespace Node

variable {tree tree' : Node} {kind parent : NodeKind} {children children' : List Node}
  {span : Span} {types : String → Option ValueType} {type : ValueType}

namespace Interchangeable

theorem refl (tree : Node) : Interchangeable tree tree :=
  ⟨rfl, rfl, rfl, rfl, rfl, .refl _, fun _ _ => .rfl, fun _ _ => .rfl, fun _ => .rfl⟩

theorem symm (h : Interchangeable tree tree') : Interchangeable tree' tree where
  kind_eq := h.kind_eq.symm
  span_eq := h.span_eq.symm
  declared?_eq := h.declared?_eq.symm
  height_eq := h.height_eq.symm
  counts_eq := h.counts_eq.symm
  symbols_perm := h.symbols_perm.symm
  scoped_iff parent known := (h.scoped_iff parent known).symm
  hasType_iff types type := (h.hasType_iff types type).symm
  typed_iff types := (h.typed_iff types).symm

/-- Trees of the same kind have the same name or none. -/
theorem identifier?_eq (h : Interchangeable tree tree') : tree.identifier? = tree'.identifier? := by
  rw [identifier?, identifier?, h.kind_eq]

/-- They declare the same names, in some order. -/
theorem mem_declaredNames_iff (h : Interchangeable tree tree') (name : String) :
    name ∈ declaredNames (tree.checkOrder parent)
      ↔ name ∈ declaredNames (tree'.checkOrder parent) := by
  rw [mem_declaredNames_checkOrder, mem_declaredNames_checkOrder,
    (h.symbols_perm.map Symbol.name).mem_iff]

end Interchangeable

/-! ## Constructs with interchangeable parts -/

section Row

variable (h : List.Forall₂ Interchangeable children children')
include h

/-- A declaration takes its name and place from its first part. -/
theorem declared?_congr : declared? ⟨kind, children, span⟩ = declared? ⟨kind, children', span⟩ := by
  cases h with
  | nil => rfl
  | @cons first first' _ _ hfirst _ =>
    obtain ⟨inner, _, place⟩ := first
    obtain ⟨_, _, _⟩ := first'
    obtain rfl := hfirst.kind_eq
    obtain rfl := hfirst.span_eq
    cases kind <;> cases inner <;> rfl

theorem heightOfAll_congr : heightOfAll children = heightOfAll children' := by
  induction h with
  | nil => rfl
  | cons hfirst _ ih => rw [heightOfAll, heightOfAll, hfirst.height_eq, ih]

theorem map_counts_congr : children.map counts = children'.map counts := by
  induction h with
  | nil => rfl
  | cons hfirst _ ih => rw [List.map_cons, List.map_cons, hfirst.counts_eq, ih]

/-- Rows of trees that declare the same declare the same. -/
theorem flatMap_symbols_perm : (children.flatMap symbols).Perm (children'.flatMap symbols) := by
  induction h with
  | nil => exact .refl _
  | cons hfirst _ ih => exact hfirst.symbols_perm.append ih

/-- By induction on the rows, as what is known behind a tree is the same names in another order. -/
theorem scoped_row_iff (known : List String) :
    Scoped known (children.flatMap (checkOrder parent)) ↔
      Scoped known (children'.flatMap (checkOrder parent)) := by
  induction h generalizing known with
  | nil => exact .rfl
  | cons hfirst _ ih =>
    rw [List.flatMap_cons, List.flatMap_cons, scoped_append_iff, scoped_append_iff,
      hfirst.scoped_iff, ih]
    refine and_congr_right fun _ => scoped_congr fun name => ?_
    rw [List.mem_append, List.mem_append, hfirst.mem_declaredNames_iff]

/-- What one of two related rows has in all its places, the other one has too. -/
theorem forall_mem_congr {P Q : Node → Prop}
    (hrow : ∀ {tree tree'}, Interchangeable tree tree' → (P tree ↔ Q tree')) :
    (∀ tree ∈ children, P tree) ↔ ∀ tree ∈ children', Q tree := by
  induction h with
  | nil => simp
  | cons hfirst _ ih => rw [List.forall_mem_cons, List.forall_mem_cons, hrow hfirst, ih]

/-- A type is one of a construct whatever interchangeable parts it has. -/
theorem hasType_of_row (htype : HasType types ⟨kind, children, span⟩ type) :
    HasType types ⟨kind, children', span⟩ type := by
  cases htype with
  | identifier hname =>
    cases h
    exact .identifier hname
  | integer =>
    cases h
    exact .integer
  | boolean =>
    cases h
    exact .boolean
  | alone hkind hoperand =>
    obtain _ | ⟨hfirst, _ | _⟩ := h
    exact .alone hkind ((hfirst.hasType_iff _ _).mp hoperand)
  | joined hkind hmany hoperands =>
    refine .joined hkind (h.length_eq ▸ hmany) ?_
    exact (forall_mem_congr h fun hpart => hpart.hasType_iff _ _).mp hoperands
  | compared hleft hright horder =>
    obtain _ | ⟨hfirst, _ | ⟨hsecond, _ | _⟩⟩ := h
    exact .compared ((hfirst.hasType_iff _ _).mp hleft) ((hsecond.hasType_iff _ _).mp hright) horder
  | stacked hkind hoperand hrefused =>
    obtain _ | ⟨hfirst, _ | _⟩ := h
    exact .stacked hkind ((hfirst.hasType_iff _ _).mp hoperand) hrefused

/-- A construct's type is up to those of its parts. -/
theorem hasType_row_iff :
    HasType types ⟨kind, children, span⟩ type ↔ HasType types ⟨kind, children', span⟩ type := by
  have hback : List.Forall₂ Interchangeable children' children :=
    List.Forall₂.flip (h.imp fun _ _ hpart => hpart.symm)
  exact ⟨hasType_of_row h, hasType_of_row hback⟩

/-- What a construct demands is about kinds, names and types of its parts. -/
theorem typed_row_iff :
    Typed types ⟨kind, children, span⟩ ↔ Typed types ⟨kind, children', span⟩ := by
  cases kind with
  | expression => exact exists_congr fun type => hasType_row_iff h
  | assignment =>
    obtain _ | ⟨hfirst, _ | ⟨hsecond, _ | _⟩⟩ := h
    · exact .rfl
    · exact .rfl
    · simp only [Typed, hfirst.identifier?_eq, hsecond.hasType_iff]
    · exact .rfl
  | conditional | whileLoop =>
    obtain _ | ⟨hfirst, _⟩ := h
    · exact .rfl
    · exact hfirst.hasType_iff _ _
  | forLoop =>
    obtain _ | ⟨_, _ | ⟨hsecond, _⟩⟩ := h
    · exact .rfl
    · exact .rfl
    · exact hsecond.hasType_iff _ _
  | foreachLoop =>
    obtain _ | ⟨hfirst, _ | ⟨hsecond, _⟩⟩ := h
    · exact .rfl
    · exact .rfl
    · simp only [Typed, hfirst.declared?_eq, hsecond.identifier?_eq]
  | _ => exact .rfl

/-- Constructs with interchangeable parts are interchangeable. -/
theorem interchangeable_mk : Interchangeable ⟨kind, children, span⟩ ⟨kind, children', span⟩ where
  kind_eq := rfl
  span_eq := rfl
  declared?_eq := declared?_congr h
  height_eq := congrArg (· + 1) (heightOfAll_congr h)
  counts_eq := by rw [counts_mk, counts_mk, h.length_eq, map_counts_congr h]
  symbols_perm := by
    rw [symbols_mk, symbols_mk, declared?_congr h]
    exact (flatMap_symbols_perm h).append_left _
  scoped_iff parent known := by
    rw [checkOrder_mk, checkOrder_mk, Scoped, Scoped,
      scoped_row_iff (kind.forall₂_inCheckOrder h)]
    simp only [declaredNames, List.filterMap_cons, declared?_congr h, identifier?]
  hasType_iff _ _ := hasType_row_iff h
  typed_iff types := by
    simp only [nodes_mk, List.forall_mem_cons, List.forall_mem_flatMap, typed_row_iff h,
      forall_mem_congr h fun hpart => hpart.typed_iff types]

end Row

/-- Constructs around a rewritten part have parts that are interchangeable. -/
theorem Rewrites.interchangeable {R : Node → Node → Prop} (h : Rewrites R tree tree')
    (hR : ∀ {tree tree'}, R tree tree' → Interchangeable tree tree') :
    Interchangeable tree tree' :=
  h.lift .refl hR interchangeable_mk

/-! ## Independent statements -/

/-- Neither of the trees mentions a name that the other one declares. -/
structure Independent (first second : Node) : Prop where
  first_second : ∀ symbol ∈ first.symbols, symbol.name ∉ second.mentions
  second_first : ∀ symbol ∈ second.symbols, symbol.name ∉ first.mentions

/-- Two neighbours in a block that are independent change places. -/
inductive Exchange : Node → Node → Prop where
  | swap {front back : List Node} {first second : Node} {span : Span}
      (h : first.Independent second) :
      Exchange ⟨.block, front ++ first :: second :: back, span⟩
        ⟨.block, front ++ second :: first :: back, span⟩

/-- Names that a tree does not mention need not be known in it. -/
theorem scoped_append_unmentioned_iff {known extra : List String}
    (h : ∀ name ∈ extra, name ∉ tree.mentions) :
    Scoped (known ++ extra) (tree.checkOrder parent) ↔ Scoped known (tree.checkOrder parent) := by
  refine ⟨fun hscoped => ?_, fun hscoped => hscoped.mono (List.subset_append_left _ _)⟩
  rw [scoped_iff] at hscoped ⊢
  intro before around node after heq hparent name hname
  refine (hscoped before around node after heq hparent name hname).imp_left fun hmem => ?_
  refine (List.mem_append.mp hmem).resolve_right fun hextra => h name hextra ?_
  have hentry : (around, node) ∈ tree.checkOrder parent := by simp [heq]
  have hnode := (tree.checkOrder_perm parent).mem_iff.mp (List.mem_map_of_mem hentry)
  exact List.mem_filterMap.mpr ⟨node, hnode, hname⟩

/-- Independent statements in a row may be checked in either order. -/
theorem Independent.scoped_iff {first second : Node} (h : first.Independent second)
    (known : List String) (front rest : List (NodeKind × Node)) :
    Scoped known (front ++ (first.checkOrder parent ++ (second.checkOrder parent ++ rest))) ↔
      Scoped known (front ++ (second.checkOrder parent ++ (first.checkOrder parent ++ rest))) := by
  have hunmentioned {tree tree' : Node}
      (h : ∀ symbol ∈ tree.symbols, symbol.name ∉ tree'.mentions) :
      ∀ name ∈ declaredNames (tree.checkOrder parent), name ∉ tree'.mentions := by
    intro name hname
    obtain ⟨symbol, hsymbol, rfl⟩ := List.mem_map.mp (mem_declaredNames_checkOrder.mp hname)
    exact h symbol hsymbol
  have hrest (known names names' : List String) :
      Scoped (known ++ names ++ names') rest ↔ Scoped (known ++ names' ++ names) rest :=
    scoped_congr fun name => by
      simp only [List.mem_append]
      exact or_right_comm
  -- neither of the two needs what the other one declares, and the rest needs both
  simp only [scoped_append_iff, scoped_append_unmentioned_iff (hunmentioned h.first_second),
    scoped_append_unmentioned_iff (hunmentioned h.second_first)]
  refine and_congr_right fun _ => ?_
  rw [hrest, and_left_comm]

/-- No rule gives a type to a block. -/
theorem not_hasType_block : ¬ HasType types ⟨.block, children, span⟩ type := by
  rintro (_ | _ | _ | ⟨⟨⟩, -⟩ | ⟨⟨⟩, -, -⟩ | _ | ⟨⟨⟩, -, -⟩)

/-- Rows are as high as their highest tree. -/
theorem heightOfAll_perm (h : children.Perm children') :
    heightOfAll children = heightOfAll children' :=
  heightOfAll_eq_of_forall fun bound => by simp only [h.mem_iff]

/-- The blocks before and after an exchange are interchangeable. -/
theorem Exchange.interchangeable (h : Exchange tree tree') : Interchangeable tree tree' := by
  obtain @⟨front, back, first, second, span, hindependent⟩ := h
  have hperm : (front ++ first :: second :: back).Perm (front ++ second :: first :: back) :=
    (List.Perm.swap second first back).append_left front
  exact {
    kind_eq := rfl
    span_eq := rfl
    declared?_eq := rfl
    height_eq := congrArg (· + 1) (heightOfAll_perm hperm)
    counts_eq := by rw [counts_mk, counts_mk, hperm.length_eq, (hperm.map counts).sum_eq]
    symbols_perm := by
      rw [symbols_mk, symbols_mk]
      exact (hperm.flatMap_right symbols).append_left _
    scoped_iff := by
      intro parent known
      simp only [checkOrder_mk, NodeKind.inCheckOrder, NodeKind.conditionIndex?, Scoped,
        List.flatMap_append, List.flatMap_cons, hindependent.scoped_iff]
      rfl
    hasType_iff := fun types type => iff_of_false not_hasType_block not_hasType_block
    typed_iff := by
      intro types
      simp only [nodes_mk, List.forall_mem_cons, List.forall_mem_flatMap, hperm.mem_iff]
      rfl }

end Node

/-! ## Derivations -/

/-- Statements in a row are a block. -/
theorem exists_derives_block {trees : List Node} {span : Span}
    (h : ∀ tree ∈ trees, ∃ inside, Derives .statement tree inside) :
    ∃ tokens, Derives .block ⟨.block, trees, span⟩ tokens := by
  have hfills : ∃ tokens, Fills (List.replicate trees.length (.part .statement)) trees tokens := by
    induction trees with
    | nil => exact ⟨[], .nil⟩
    | cons tree others ih =>
      obtain ⟨⟨front, hfirst⟩, hothers⟩ := List.forall_mem_cons.mp h
      obtain ⟨back, hback⟩ := ih hothers
      exact ⟨front ++ back, .tree hfirst hback⟩
  obtain ⟨tokens, hfills⟩ := hfills
  exact ⟨tokens, rfl, _, .block _, hfills⟩

/-- A block with two statements exchanged is a block of statements still. -/
theorem Node.Exchange.keepsDerivations {tree tree' : Node} (h : Exchange tree tree') :
    KeepsDerivations tree tree' := by
  obtain @⟨front, back, first, second, span, -⟩ := h
  intro category tokens hderives
  obtain rfl : category = .block := hderives.1.symm
  obtain ⟨_, _, ⟨⟩, count, hfills⟩ := hderives.block
  refine exists_derives_block fun tree htree => hfills.derives_of_replicate tree ?_
  simpa only [List.mem_append, List.mem_cons, or_left_comm] using htree

/-! ## Programs -/

section Programs

variable {tree tree' : Node} {tokens : List Token} {metrics : Metrics}

/-- Tables without repeated names find the same if they hold the same. -/
theorem SymbolTable.alike_of_perm {table table' : SymbolTable} (hdistinct : table.Distinct)
    (h : table.entries.Perm table'.entries) : table.Alike table' := by
  have hdistinct' : table'.Distinct := (h.map Symbol.name).nodup_iff.mp hdistinct
  intro name
  refine Option.ext fun symbol => ?_
  rw [hdistinct.lookup?_iff, hdistinct'.lookup?_iff, h.mem_iff]

/-- Of interchangeable programs either both are accepted, or none. -/
theorem Node.Interchangeable.accepts (h : tree.Interchangeable tree')
    (haccepts : Accepts tree.types {} .program [tree]) :
    Accepts tree.types {} .program [tree'] := by
  obtain ⟨hdistinct, hagrees, hscoped, htyped⟩ := haccepts
  simp only [List.flatMap_singleton, List.forall_mem_singleton] at hdistinct hagrees hscoped htyped
  refine ⟨?_, ?_, ?_, ?_⟩ <;> simp only [List.flatMap_singleton, List.forall_mem_singleton]
  · exact (h.symbols_perm.map Symbol.name).nodup_iff.mp hdistinct
  · exact fun symbol hsymbol => hagrees symbol (h.symbols_perm.mem_iff.mpr hsymbol)
  · exact (h.scoped_iff _ _).mp hscoped
  · exact (h.typed_iff _).mp htyped

/-- A program is accepted if one is that it is interchangeable with, and then leaves the same. -/
theorem Node.Interchangeable.analyze (h : tree.Interchangeable tree') (htree : tree.Checkable)
    (htree' : tree'.Checkable) (hmetrics : analyze tree = .ok metrics) :
    analyze tree' = .ok metrics ∧
      (Checker.check {} tree).2.symbols.entries.Perm (Checker.check {} tree').2.symbols.entries ∧
      (Checker.check {} tree).2.symbols.Alike (Checker.check {} tree').2.symbols := by
  have hrun := Checker.succeeds_of_check hmetrics
  obtain ⟨haccepts, hend⟩ := htree.accepts_of_succeeds hrun
  obtain ⟨-, -, hmetrics⟩ := succeeds_checkProgram_iff.mp hrun
  obtain ⟨⟨metrics', hrun'⟩, -⟩ := (htree'.decides tree.types {} _ List.nodup_nil
    (by simp [SymbolTable.Agrees])).mpr ⟨⟨h.accepts haccepts, trivial⟩, rfl⟩
  obtain ⟨-, -, hmetrics'⟩ := succeeds_checkProgram_iff.mp hrun'
  have hsame : metrics' = metrics := by
    rw [hmetrics, hmetrics', hend]
    simp [Checker.after, h.counts_eq]
  have hperm : (Checker.after {} [tree]).symbols.entries.Perm
      (Checker.after {} [tree']).symbols.entries := by
    simpa [Checker.after, SymbolTable.extend] using h.symbols_perm
  rw [hend, Census.analyze, Checker.check_eq {} tree', hrun', hsame]
  exact ⟨rfl, hperm, SymbolTable.alike_of_perm haccepts.distinct hperm⟩

/-- **Independent statements commute**. When two neighbours in a block of a parsed program change
places, neither of which mentions what the other one declares, the program is accepted as before,
with the same counts, and the same variables are declared. -/
theorem analyze_exchange (hparse : parse tokens = .ok tree)
    (h : tree.Rewrites Node.Exchange tree') :
    (∀ metrics, analyze tree = .ok metrics ↔ analyze tree' = .ok metrics) ∧
      ∀ metrics, analyze tree = .ok metrics →
        (Checker.check {} tree).2.symbols.entries.Perm (Checker.check {} tree').2.symbols.entries ∧
        (Checker.check {} tree).2.symbols.Alike (Checker.check {} tree').2.symbols := by
  have hsame := h.interchangeable Node.Exchange.interchangeable
  have htree := checkable_of_parse hparse
  have htree' : tree'.Checkable := by
    obtain ⟨⟨tokens, hderives⟩, hlow⟩ := htree
    exact ⟨h.derives Node.Exchange.keepsDerivations _ _ hderives, hsame.height_eq ▸ hlow⟩
  refine ⟨fun metrics => ⟨fun hmetrics => ?_, fun hmetrics => ?_⟩, fun metrics hmetrics => ?_⟩
  · exact (hsame.analyze htree htree' hmetrics).1
  · exact (hsame.symm.analyze htree' htree hmetrics).1
  · exact (hsame.analyze htree htree' hmetrics).2

/-- Two declarations in a block inside of the program change places. -/
theorem analyze_exchange_inner :
    let declares (keyword name : String) : Node :=
      ⟨.statement, [⟨.declaration, [⟨.scalarDeclaration keyword, [⟨.identifier name, [], {}⟩], {}⟩],
        {}⟩], {}⟩
    let program (statements : List Node) : Node :=
      .programOf {} {} [declares "num" "x", ⟨.statement, [⟨.block, statements, {}⟩], {}⟩]
    let tokens : List Token := [⟨.numKeyword, "num", {}⟩, ⟨.identifier, "x", {}⟩,
      ⟨.semicolon, ";", {}⟩, ⟨.leftBrace, "\x7b", {}⟩, ⟨.numKeyword, "num", {}⟩,
      ⟨.identifier, "y", {}⟩, ⟨.semicolon, ";", {}⟩, ⟨.boolKeyword, "bool", {}⟩,
      ⟨.identifier, "z", {}⟩, ⟨.semicolon, ";", {}⟩, ⟨.rightBrace, "\x7d", {}⟩]
    let tree := program [declares "num" "y", declares "bool" "z"]
    let tree' := program [declares "bool" "z", declares "num" "y"]
    parse tokens = .ok tree ∧ tree.Rewrites Node.Exchange tree' ∧
      analyze tree' = .ok ⟨3, 0, 0, 0, 0⟩ ∧
      (Checker.check {} tree).2.symbols.Alike (Checker.check {} tree').2.symbols := by
  intro declares program tokens tree tree'
  have hparse : parse tokens = .ok tree := (parse_eq tokens).trans rfl
  have hexchange : Node.Exchange ⟨.block, [declares "num" "y", declares "bool" "z"], {}⟩
      ⟨.block, [declares "bool" "z", declares "num" "y"], {}⟩ :=
    @Node.Exchange.swap [] [] _ _ _ ⟨by decide, by decide⟩
  have hrewrites : tree.Rewrites Node.Exchange tree' :=
    @Node.Rewrites.inside _ _ [] [] _ _ _ <| @Node.Rewrites.inside _ _ [_] [] _ _ _ <|
      @Node.Rewrites.inside _ _ [] [] _ _ _ <| .here hexchange
  have hanalyze : analyze tree = .ok ⟨3, 0, 0, 0, 0⟩ := by decide +kernel
  obtain ⟨hverdict, htables⟩ := analyze_exchange hparse hrewrites
  exact ⟨hparse, hrewrites, (hverdict _).mp hanalyze, (htables _ hanalyze).2⟩

end Programs

end Census
