import Census.Proofs.Check.Acceptance
import Census.Proofs.Check.Endings

/-!
# Turns of a check

All that a check does about names it does in turns: it looks a name up, or it declares a variable.
This module tells the turns of every tree, whatever its shape, in the order in which they are taken.
A check that answers has taken all of them; a check that fails has taken the first ones, and what
it reports is true of the variables declared until then.

- `Node.turns`: the turns of a tree.
- `Diagnostic.Truthful`: what a problem says about the tree and the declared variables.
- `Halts`: how a check fails after some of its turns.
- `Check.Trace`: how a check with given turns ends. There is a lemma for each step and each rule.
- `checkProgram_trace`, `Halts.of_check`: checks of programs.
- `check_error_truthful`: what a check reports is true.
-/

namespace Census

/-! ## Turns -/

/-- What a check does about a name. -/
inductive Turn where
  /-- The name of a variable is looked up. -/
  | use (name : String) (span : Span)
  /-- A variable is declared. -/
  | declare (symbol : Symbol)

/-- The variable that a turn declares. -/
def Turn.declared? : Turn → Option Symbol
  | use _ _ => none
  | declare symbol => some symbol

/-- The variables that turns declare. -/
def declaredIn (turns : List Turn) : List Symbol := turns.filterMap Turn.declared?

/-- The parts of a construct that are visited, in this order. -/
def NodeKind.visited {α : Type} (kind : NodeKind) (parts : List α) : List α :=
  match kind with
  | .identifier _ => []
  | .scalarDeclaration _ => parts.take 1
  | .listDeclaration _ => parts.take 1
  | .foreachLoop => parts.take 3
  | kind => kind.inCheckOrder parts

/-- Which parts are visited, and in which order, is up to their places in the row. -/
theorem NodeKind.visited_map {α β : Type} (kind : NodeKind) (f : α → β) (parts : List α) :
    kind.visited (parts.map f) = (kind.visited parts).map f := by
  cases kind with
  | conditional => exact inCheckOrder_map .conditional f parts
  | whileLoop => exact inCheckOrder_map .whileLoop f parts
  | forLoop => exact inCheckOrder_map .forLoop f parts
  | scalarDeclaration | listDeclaration | foreachLoop => exact List.map_take.symm
  | _ => rfl

namespace Node

/-- The turn that a node takes when its parts have taken theirs. -/
def turn? (parent : NodeKind) (node : Node) : Option Turn :=
  match node.kind with
  | .identifier name => if parent.isDeclaration then none else some (.use name node.span)
  | _ => node.declared?.map .declare

mutual

/-- The turns that a check of the tree takes, inside a construct of the given kind. -/
def turns (parent : NodeKind) : Node → List Turn
  | ⟨kind, children, span⟩ =>
    (kind.visited (turnsEach kind children)).flatten
      ++ (turn? parent ⟨kind, children, span⟩).toList

/-- The same for each tree in a row. -/
def turnsEach (parent : NodeKind) : List Node → List (List Turn)
  | [] => []
  | node :: others => node.turns parent :: turnsEach parent others

end

theorem turnsEach_eq_map (parent : NodeKind) (trees : List Node) :
    turnsEach parent trees = trees.map (turns parent) := by
  induction trees with
  | nil => rfl
  | cons tree others ih => rw [turnsEach, ih, List.map_cons]

/-- A node takes its turn behind those of the parts that are visited. -/
theorem turns_mk (parent kind : NodeKind) (children : List Node) (span : Span) :
    turns parent ⟨kind, children, span⟩
      = (kind.visited children).flatMap (turns kind)
        ++ (turn? parent ⟨kind, children, span⟩).toList := by
  rw [turns, turnsEach_eq_map, NodeKind.visited_map, List.flatMap_def]

/-- Most nodes only take the turns of their parts. -/
theorem turns_plain {parent kind : NodeKind} {children : List Node} {span : Span}
    (hdeclaration : kind.isDeclaration = false)
    (hidentifier : identifier? ⟨kind, children, span⟩ = none) :
    turns parent ⟨kind, children, span⟩ = (kind.visited children).flatMap (turns kind) := by
  have hnone : turn? parent ⟨kind, children, span⟩ = none := by
    cases kind with
    | identifier => cases hidentifier
    | scalarDeclaration | listDeclaration => cases hdeclaration
    | _ => rfl
  rw [turns_mk, hnone]
  exact List.append_nil _

/-- An identifier is looked up, but for that of a declaration. -/
theorem turns_of_identifier? {parent : NodeKind} {node : Node} {name : String}
    (hname : node.identifier? = some name) (hparent : parent.isDeclaration = false) :
    node.turns parent = [.use name node.span] := by
  obtain ⟨kind, children, span⟩ := node
  cases kind <;> cases hname
  rw [turns_mk, turn?]
  simp [NodeKind.visited, hparent]

end Node

/-! ## What problems say -/

namespace Diagnostic

/-- The place that a problem is about. -/
def span? : Diagnostic → Option Span
  | transfer _ => none
  | lexical _ span => some span
  | grammatical _ span => some span
  | malformedTree _ span => some span
  | duplicateDeclaration _ span _ => some span
  | undefinedIdentifier _ span => some span
  | invalidArrayType _ span => some span
  | incompatibleArrayType _ _ span => some span
  | invalidConditionType _ span => some span
  | assignmentTypeMismatch _ _ _ span => some span
  | operandTypeMismatch _ _ span => some span
  | invalidComparisonOperand _ _ span => some span
  | invalidUnaryOperand _ _ span => some span

/-- What the problem says holds of the tree and of the variables declared when it is found. That a
tree is malformed says nothing about them, and a check finds no problems of other kinds. -/
def Truthful (tree : Node) (table : SymbolTable) : Diagnostic → Prop
  | transfer _ => False
  | lexical _ _ => False
  | grammatical _ _ => False
  | malformedTree _ _ => True
  | duplicateDeclaration name _ previous =>
    ∃ symbol, table.lookup? name = some symbol ∧ symbol.span = previous
  | undefinedIdentifier name _ => table.contains name = false
  | invalidArrayType found span =>
    found.isList = false ∧ ∃ node ∈ tree.nodes, node.span = span ∧
      ∃ name, node.identifier? = some name ∧ table.types name = some found
  | incompatibleArrayType array element _ =>
    array.isList = true ∧ element.listOf? ≠ some array
  | invalidConditionType found _ => found ≠ .bool
  | assignmentTypeMismatch name expected found _ =>
    table.types name = some expected ∧ found ≠ expected
  | operandTypeMismatch expected found _ => expected ≠ found
  | invalidComparisonOperand operator found _ =>
    found ≠ .num ∧ operator ≠ "==" ∧ operator ≠ "!="
  | invalidUnaryOperand operator found span =>
    ∃ node ∈ tree.nodes, node.span = span ∧ ∃ others,
      node.kind = .negation (operator :: others) ∧ found = .num ∨
        node.kind = .signed (operator :: others) ∧ found = .bool

/-- Which turns have been taken and which have not when the problem is found: a name that is used is
looked up last or before, a name that is declared again would be declared next. -/
def Splits (done rest : List Turn) : Diagnostic → Prop
  | undefinedIdentifier name span => .use name span ∈ done
  | duplicateDeclaration name span _ => ∃ type, rest.head? = some (.declare ⟨name, type, span⟩)
  | _ => True

end Diagnostic

/-- A check takes turns up to a problem that it finds. -/
structure Halts (tree : Node) (turns : List Turn) (s : Checker) (problem : Diagnostic)
    (s' : Checker) : Prop where
  truthful : problem.Truthful tree s'.symbols
  place : ∃ node ∈ tree.nodes, problem.span? = some node.span
  taken : ∃ done rest, turns = done ++ rest ∧ problem.Splits done rest ∧
    s'.symbols = s.symbols.extend (declaredIn done)

/-- A check takes turns to the last one. -/
structure Finishes (turns : List Turn) (s s' : Checker) : Prop where
  symbols : s'.symbols = s.symbols.extend (declaredIn turns)
  known : ∀ name span, .use name span ∈ turns → name ∈ s'.symbols.names

variable {tree : Node} {turns turns' : List Turn} {s s' s'' : Checker} {problem : Diagnostic}

/-- Turns declare their variables one after the other. -/
theorem declaredIn_append : declaredIn (turns ++ turns') = declaredIn turns ++ declaredIn turns' :=
  List.filterMap_append

/-- A name that was known stays known, since tables only grow. -/
theorem Finishes.trans (h : Finishes turns s s') (h' : Finishes turns' s' s'') :
    Finishes (turns ++ turns') s s'' where
  symbols := by
    rw [declaredIn_append, SymbolTable.extend_append, ← h.symbols, h'.symbols]
  known name span hmem := by
    rcases List.mem_append.mp hmem with hmem | hmem
    · rw [h'.symbols, SymbolTable.names_extend]
      exact List.mem_append_left _ (h.known name span hmem)
    · exact h'.known name span hmem

theorem Finishes.refl (s : Checker) : Finishes [] s s where
  symbols := SymbolTable.extend_nil.symm
  known _ _ hmem := absurd hmem List.not_mem_nil

/-- A problem of the second check in a row, after the turns of the first one. -/
theorem Halts.after (h : Finishes turns s s') (h' : Halts tree turns' s' problem s'') :
    Halts tree (turns ++ turns') s problem s'' where
  truthful := h'.truthful
  place := h'.place
  taken := by
    obtain ⟨done, rest, rfl, hsplits, hsymbols⟩ := h'.taken
    refine ⟨turns ++ done, rest, (List.append_assoc ..).symm, ?_, ?_⟩
    · cases problem <;> first | exact hsplits | exact List.mem_append_right _ hsplits
    · rw [declaredIn_append, SymbolTable.extend_append, ← h.symbols, hsymbols]

/-- A problem of the first check in a row. -/
theorem Halts.append (h : Halts tree turns s problem s') (turns' : List Turn) :
    Halts tree (turns ++ turns') s problem s' where
  truthful := h.truthful
  place := h.place
  taken := by
    obtain ⟨done, rest, rfl, hsplits, hsymbols⟩ := h.taken
    refine ⟨done, rest ++ turns', List.append_assoc .., ?_, hsymbols⟩
    cases problem <;> first
      | exact hsplits
      | exact hsplits.imp fun _ hhead => by rw [List.head?_append, hhead]; rfl

namespace Check

/-- How a check with the given turns ends. -/
def Trace {α : Type} (tree : Node) (turns : List Turn) (s : Checker) (check : Check α)
    (answers : α → Checker → Prop) : Prop :=
  Ends check s (fun answer s' => Finishes turns s s' ∧ answers answer s') (Halts tree turns s)

variable {α β : Type} {answers : α → Checker → Prop} {answers' : β → Checker → Prop}
  {check : Check α} {next : α → Check β}

/-! ## Checks in a row -/

theorem Trace.imp {answers' : α → Checker → Prop} (h : Trace tree turns s check answers)
    (hanswers : ∀ answer s', answers answer s' → answers' answer s') :
    Trace tree turns s check answers' :=
  Ends.imp h (fun answer s' hanswer => ⟨hanswer.1, hanswers answer s' hanswer.2⟩) fun _ _ => id

/-- The second of two checks in a row takes its turns after the first one. -/
theorem Trace.bind (h : Trace tree turns s check answers)
    (hnext : ∀ answer s', Finishes turns s s' → answers answer s' →
      Trace tree turns' s' (next answer) answers') :
    Trace tree (turns ++ turns') s (check >>= next) answers' := by
  refine ends_bind_iff.mpr (Ends.imp h ?_ fun _ _ hhalts => hhalts.append turns')
  rintro answer between ⟨hfinishes, hanswer⟩
  refine Ends.imp (hnext answer between hfinishes hanswer) ?_ ?_
  · exact fun _ _ h => ⟨hfinishes.trans h.1, h.2⟩
  · exact fun _ _ hhalts => hhalts.after hfinishes

/-- Steps without turns before others. -/
theorem Trace.before (h : Trace tree [] s check answers)
    (hnext : ∀ answer s', Finishes [] s s' → answers answer s' →
      Trace tree turns s' (next answer) answers') :
    Trace tree turns s (check >>= next) answers' :=
  h.bind hnext

/-- Steps without turns behind others. -/
theorem Trace.andThen (h : Trace tree turns s check answers)
    (hnext : ∀ answer s', Finishes turns s s' → answers answer s' →
      Trace tree [] s' (next answer) answers') :
    Trace tree turns s (check >>= next) answers' := by
  have hboth := h.bind hnext
  rwa [List.append_nil] at hboth

/-- Both branches of a decision take the same turns. -/
theorem trace_ite {p : Prop} [Decidable p] {check check' : Check α}
    (h : p → Trace tree turns s check answers) (h' : ¬ p → Trace tree turns s check' answers) :
    Trace tree turns s (if p then check else check') answers := by
  split
  · next hp => exact h hp
  · next hp => exact h' hp

/-! ## Single steps -/

theorem trace_pure {answer : α} (h : answers answer s) : Trace tree [] s (pure answer) answers :=
  ⟨.refl s, h⟩

/-- A problem about something else than names ends a check anywhere. -/
theorem trace_throw {node : Node} (hnode : node ∈ tree.nodes)
    (hplace : problem.span? = some node.span) (htruthful : problem.Truthful tree s.symbols)
    (hsplits : problem.Splits [] turns) : Trace tree turns s (throw problem : Check α) answers :=
  show Halts tree turns s problem s from
    ⟨htruthful, ⟨node, hnode, hplace⟩, [], turns, rfl, hsplits, SymbolTable.extend_nil.symm⟩

/-- A failure leaves out all turns that would have come. -/
theorem trace_throw_bind {node : Node} {next : β → Check α} (hnode : node ∈ tree.nodes)
    (hplace : problem.span? = some node.span) (htruthful : problem.Truthful tree s.symbols)
    (hsplits : problem.Splits [] turns) : Trace tree turns s (throw problem >>= next) answers :=
  show Halts tree turns s problem s from
    ⟨htruthful, ⟨node, hnode, hplace⟩, [], turns, rfl, hsplits, SymbolTable.extend_nil.symm⟩

/-- Malformations say nothing about the variables. -/
theorem trace_malformed {node : Node} (hnode : node ∈ tree.nodes) (what : Malformation) :
    Trace tree turns s (malformed what node.span : Check α) answers :=
  trace_throw hnode rfl trivial trivial

/-- A missing part is told at the node that lacks it. -/
theorem trace_child {node : Node} (hnode : node ∈ tree.nodes) (index : Nat) :
    Trace tree [] s (child node index) fun part s' =>
      s' = s ∧ node.children[index]? = some part := by
  unfold child Node.child?
  split
  · next part hpart => exact trace_pure ⟨rfl, hpart⟩
  · exact trace_malformed hnode _

theorem trace_nameOf {node : Node} (hnode : node ∈ tree.nodes) :
    Trace tree [] s (nameOf node) fun name s' => s' = s ∧ node.identifier? = some name := by
  unfold nameOf
  split
  · next name hname => exact trace_pure ⟨rfl, hname⟩
  · exact trace_malformed hnode _

theorem trace_typeOf {node : Node} (hnode : node ∈ tree.nodes) (produced : Option ValueType) :
    Trace tree [] s (typeOf produced node) fun type s' => s' = s ∧ produced = some type := by
  unfold typeOf
  split
  · exact trace_pure ⟨rfl, rfl⟩
  · exact trace_malformed hnode _

theorem trace_count (step : Metrics → Metrics) :
    Trace tree [] s (count step) fun _ s' => s'.symbols = s.symbols :=
  ⟨⟨SymbolTable.extend_nil.symm, fun _ _ hmem => absurd hmem List.not_mem_nil⟩, rfl⟩

/-- A name that is used takes a turn, whether it is known or not. -/
theorem trace_lookupType {node : Node} (hnode : node ∈ tree.nodes) (name : String) :
    Trace tree [.use name node.span] s (lookupType name node.span) fun _ _ => True := by
  rw [Trace, ends_lookupType_iff]
  split
  · next symbol hsymbol =>
    refine ⟨⟨SymbolTable.extend_nil.symm, fun name' span' hmem => ?_⟩, trivial⟩
    obtain ⟨rfl, -⟩ := Turn.use.inj (List.mem_singleton.mp hmem)
    exact SymbolTable.exists_lookup?_iff.mp ⟨symbol, hsymbol⟩
  · next hnone =>
    exact ⟨by simp [Diagnostic.Truthful, SymbolTable.contains, hnone], ⟨node, hnode, rfl⟩,
      [_], [], rfl, List.mem_singleton_self _, SymbolTable.extend_nil.symm⟩

/-- A name that has been looked up before is found again. -/
theorem trace_lookupType_known {name : String} (span : Span) (h : name ∈ s.symbols.names) :
    Trace tree [] s (lookupType name span) fun type s' =>
      s' = s ∧ s.symbols.types name = some type := by
  obtain ⟨symbol, hsymbol⟩ := SymbolTable.exists_lookup?_iff.mpr h
  rw [Trace, ends_lookupType_iff, hsymbol]
  exact ⟨.refl s, rfl, SymbolTable.types_eq_some_iff.mpr ⟨symbol, hsymbol, rfl⟩⟩

/-- A variable that is declared takes a turn; if the name is taken, the turn comes next and is not
taken. -/
theorem trace_declare {node : Node} (hnode : node ∈ tree.nodes) (name : String) (type : ValueType) :
    Trace tree [.declare ⟨name, type, node.span⟩] s (declare name type node.span)
      fun _ _ => True := by
  rw [Trace, ends_declare_iff]
  split
  · next earlier hearlier =>
    exact ⟨⟨earlier, hearlier, rfl⟩, ⟨node, hnode, rfl⟩, [], _, rfl, ⟨type, rfl⟩,
      SymbolTable.extend_nil.symm⟩
  · exact ⟨⟨rfl, fun _ _ hmem => by cases List.mem_singleton.mp hmem⟩, trivial⟩

end Check

/-! ## Rules -/

namespace Rule

open Check

/-- Visits take the turns of the nodes that they visit. -/
def Traced (tree : Node) (visit : Visit) : Prop :=
  ∀ parent, ∀ node ∈ tree.nodes, ∀ s,
    Trace tree (node.turns parent) s (visit parent node) fun _ _ => True

variable {visit : Visit} {parent kind : NodeKind} {children : List Node} {span : Span}
  (hvisit : Traced tree visit)
include hvisit

/-- By induction on the nodes, each with its turns. -/
theorem visitEach_trace {nodes : List Node} (hnodes : nodes ⊆ tree.nodes) :
    Trace tree (nodes.flatMap (Node.turns parent)) s (visitEach visit parent nodes)
      fun _ _ => True := by
  -- the fold starts with any type, as the induction meets it in the middle
  have hfold : ∀ produced s, Trace tree (nodes.flatMap (Node.turns parent)) s (nodes.foldlM
      (fun produced node => return (← visit parent node).or produced) produced)
      fun _ _ => True := by
    induction nodes with
    | nil => exact fun produced s => trace_pure trivial
    | cons node others ih =>
      intro produced s
      obtain ⟨hnode, hothers⟩ := List.cons_subset.mp hnodes
      rw [List.foldlM_cons]
      have hfirst : Trace tree (node.turns parent) s
          (do return (← visit parent node).or produced) fun _ _ => True :=
        (hvisit parent node hnode s).andThen fun _ _ _ _ => trace_pure trivial
      exact hfirst.bind fun answer s' _ _ => ih hothers answer s'
  exact hfold none s

/-- Insisting on a type takes no turn. -/
theorem visitTyped_trace {node : Node} (hnode : node ∈ tree.nodes) :
    Trace tree (node.turns parent) s (visitTyped visit parent node) fun _ _ => True :=
  (hvisit parent node hnode s).andThen fun _ _ _ _ =>
    (trace_typeOf hnode _).imp fun _ _ _ => trivial

theorem mapM_visitTyped_trace {nodes : List Node} (hnodes : nodes ⊆ tree.nodes) :
    Trace tree (nodes.flatMap (Node.turns parent)) s (nodes.mapM (visitTyped visit parent))
      fun _ _ => True := by
  induction nodes generalizing s with
  | nil => exact trace_pure trivial
  | cons node others ih =>
    obtain ⟨hnode, hothers⟩ := List.cons_subset.mp hnodes
    rw [List.mapM_cons]
    refine (visitTyped_trace hvisit hnode).bind fun _ _ _ _ => ?_
    exact (ih hothers).andThen fun _ _ _ _ => trace_pure trivial

theorem forM_operand_trace {nodes : List Node} (hnodes : nodes ⊆ tree.nodes) (type : ValueType) :
    Trace tree (nodes.flatMap (Node.turns parent)) s (nodes.forM (operand visit parent type))
      fun _ _ => True := by
  induction nodes generalizing s with
  | nil => exact trace_pure trivial
  | cons node others ih =>
    obtain ⟨hnode, hothers⟩ := List.cons_subset.mp hnodes
    have hoperand : Trace tree (node.turns parent) s (operand visit parent type node)
        fun _ _ => True :=
      (visitTyped_trace hvisit hnode).andThen fun found _ _ _ =>
        trace_ite (fun _ => trace_pure trivial) fun hne =>
          trace_throw hnode rfl (fun heq => hne heq.symm) trivial
    exact hoperand.bind fun _ _ _ _ => ih hothers

section Node

variable {node : Node} (hnode : node ∈ tree.nodes) (hchildren : node.children ⊆ tree.nodes)
include hnode hchildren

omit hnode in
/-- All parts are visited, in order. -/
theorem visitChildren_trace :
    Trace tree (node.children.flatMap (Node.turns node.kind)) s (visitChildren visit node)
      fun _ _ => True :=
  visitEach_trace hvisit hchildren

/-- An identifier under a declaration takes no turn of its own; the declaration takes one. -/
theorem declaration_trace {type : ValueType}
    (hdeclared : ∀ target others name, node.children = target :: others →
      target.identifier? = some name → node.declared? = some ⟨name, type, target.span⟩) :
    Trace tree ((node.children.take 1).flatMap (Node.turns node.kind)
      ++ (node.declared?.map Turn.declare).toList) s (declaration visit node type)
      fun _ _ => True := by
  refine (trace_child hnode 0).before fun target s' _ ⟨hs', hchild⟩ => ?_
  subst hs'
  obtain ⟨others, hothers⟩ : ∃ others, node.children = target :: others := by
    cases hlist : node.children <;> simp_all
  have htarget : target ∈ tree.nodes := hchildren (List.mem_of_getElem? hchild)
  have htake : (node.children.take 1).flatMap (Node.turns node.kind)
      = target.turns node.kind := by
    rw [hothers]
    exact List.append_nil _
  rw [htake]
  refine (hvisit node.kind target htarget _).bind fun _ _ _ _ => ?_
  refine (trace_nameOf htarget).before fun name s' _ ⟨hs', hname⟩ => ?_
  subst hs'
  rw [hdeclared target others name hothers hname]
  exact trace_declare htarget name type

/-- The type of the target is looked up once more behind the visits, when its name is known. -/
theorem assignment_trace (hkind : node.kind = .assignment) :
    Trace tree (node.children.flatMap (Node.turns node.kind)) s (assignment visit node)
      fun _ _ => True := by
  refine (trace_child hnode 0).before fun target s' _ ⟨hs', htarget⟩ => ?_
  subst hs'
  refine (trace_child hnode 1).before fun content s' _ ⟨hs', hcontent⟩ => ?_
  subst hs'
  have hcontentMem : content ∈ tree.nodes := hchildren (List.mem_of_getElem? hcontent)
  refine (visitChildren_trace hvisit hchildren).andThen fun produced s' hfinishes _ => ?_
  refine (trace_nameOf (hchildren (List.mem_of_getElem? htarget))).before
    fun name s'' _ ⟨hs'', hname⟩ => ?_
  subst hs''
  have hknown : name ∈ s''.symbols.names := by
    refine hfinishes.known name target.span (List.mem_flatMap.mpr
      ⟨target, List.mem_of_getElem? htarget, ?_⟩)
    rw [Node.turns_of_identifier? hname (by rw [hkind]; rfl)]
    exact List.mem_singleton_self _
  refine (trace_lookupType_known _ hknown).before fun expected s' _ ⟨hs', hexpected⟩ => ?_
  subst hs'
  refine (trace_typeOf hcontentMem _).before fun found s' _ ⟨hs', hfound⟩ => ?_
  subst hs'
  exact trace_ite (fun _ => trace_pure trivial) fun hne =>
    trace_throw hcontentMem rfl ⟨hexpected, hne⟩ trivial

/-- The turns of the condition come last. -/
theorem conditional_trace (index : Nat) :
    Trace tree ((node.children.eraseIdx index ++ node.children[index]?.toList).flatMap
      (Node.turns node.kind)) s (conditional visit node index) fun _ _ => True := by
  refine (trace_child hnode index).before fun test s' _ ⟨hs', htest⟩ => ?_
  subst hs'
  have htestMem : test ∈ tree.nodes := hchildren (List.mem_of_getElem? htest)
  rw [htest, Option.toList_some, List.flatMap_append, List.flatMap_singleton]
  have hothers : node.children.eraseIdx index ⊆ tree.nodes :=
    List.Subset.trans (List.eraseIdx_sublist _ _).subset hchildren
  refine (visitEach_trace hvisit hothers).bind fun _ _ _ _ => ?_
  refine (visitTyped_trace hvisit htestMem).andThen fun found s' _ _ => ?_
  exact trace_ite (fun _ => trace_pure trivial) fun hne => trace_throw htestMem rfl hne trivial

/-- The turns are those of the declaration, the list and the body; the look-up in between is of a
name that is known by then. -/
theorem foreachLoop_trace (hkind : node.kind = .foreachLoop) :
    Trace tree ((node.children.take 3).flatMap (Node.turns node.kind)) s (foreachLoop visit node)
      fun _ _ => True := by
  refine (trace_child hnode 0).before fun entry s' _ ⟨hs', hentry⟩ => ?_
  subst hs'
  refine (trace_child hnode 1).before fun array s' _ ⟨hs', harray⟩ => ?_
  subst hs'
  refine (trace_child hnode 2).before fun body s' _ ⟨hs', hbody⟩ => ?_
  subst hs'
  have hentryMem : entry ∈ tree.nodes := hchildren (List.mem_of_getElem? hentry)
  have harrayMem : array ∈ tree.nodes := hchildren (List.mem_of_getElem? harray)
  have hbodyMem : body ∈ tree.nodes := hchildren (List.mem_of_getElem? hbody)
  have htake : (node.children.take 3).flatMap (Node.turns node.kind)
      = entry.turns node.kind ++ (array.turns node.kind ++ body.turns node.kind) := by
    rcases hlist : node.children with _ | ⟨_, _ | ⟨_, _ | ⟨_, _⟩⟩⟩ <;> simp_all
  rw [htake]
  refine (visitTyped_trace hvisit hentryMem).bind fun element _ _ _ => ?_
  refine (hvisit node.kind array harrayMem _).bind fun _ s' hfinishes _ => ?_
  refine (trace_nameOf harrayMem).before fun name s'' _ ⟨hs'', hname⟩ => ?_
  subst hs''
  have hknown : name ∈ s''.symbols.names := by
    refine hfinishes.known name array.span ?_
    rw [Node.turns_of_identifier? hname (by rw [hkind]; rfl)]
    exact List.mem_singleton_self _
  refine (trace_lookupType_known _ hknown).before fun found s' _ ⟨hs', hfound⟩ => ?_
  subst hs'
  refine trace_ite (fun hlist => trace_ite (fun _ => ?_) fun hne => ?_) fun hlist => ?_
  · exact (hvisit node.kind body hbodyMem _).andThen fun _ _ _ _ => trace_pure trivial
  · exact trace_throw_bind harrayMem rfl ⟨hlist, hne⟩ trivial
  · exact trace_throw_bind harrayMem rfl
      ⟨by simpa using hlist, array, harrayMem, rfl, name, hname, hfound⟩ trivial

/-- All operands are visited before their number is looked at. -/
theorem comparison_trace (operator : Option String) :
    Trace tree (node.children.flatMap (Node.turns node.kind)) s (comparison visit node operator)
      fun _ _ => True := by
  refine (mapM_visitTyped_trace hvisit hchildren).andThen fun types s' _ _ => ?_
  split
  · exact trace_pure trivial
  · next first second left right operator hlist =>
    have hsecond : second ∈ tree.nodes := hchildren (by simp [hlist])
    refine trace_ite (fun _ => trace_ite (fun _ => ?_) fun hordered => ?_) fun hne => ?_
    · exact (trace_count _).before fun _ _ _ _ => trace_pure trivial
    · simp only [isEquality, Bool.or_eq_true, beq_iff_eq, decide_eq_true_eq, not_or] at hordered
      exact trace_throw_bind hnode rfl ⟨hordered.2, hordered.1.1, hordered.1.2⟩ trivial
    · exact trace_throw_bind hsecond rfl hne trivial
  · exact trace_malformed hnode _

/-- Without operands there are no turns, and a chain of them takes those of all of them. -/
theorem chain_trace (type : ValueType) :
    Trace tree (node.children.flatMap (Node.turns node.kind)) s (chain visit node type)
      fun _ _ => True := by
  unfold chain
  split
  · exact trace_malformed hnode _
  · exact visitChildren_trace hvisit hchildren
  · refine (forM_operand_trace hvisit hchildren type).andThen fun _ _ _ _ => ?_
    exact (trace_count _).before fun _ _ _ _ => trace_pure trivial

/-- Refusals come behind the turns of the operand and are true of the node. -/
theorem stacked_trace (operators : List String) (refused : ValueType)
    (hrefused : ∀ operator others table, operators = operator :: others →
      (Diagnostic.invalidUnaryOperand operator refused node.span).Truthful tree table) :
    Trace tree (node.children.flatMap (Node.turns node.kind)) s
      (stacked visit node operators refused) fun _ _ => True := by
  have hcounted (produced : Option ValueType) (s' : Checker) : Trace tree [] s' (do
      count fun metrics => { metrics with operators := metrics.operators + operators.length }
      return produced) fun _ _ => True :=
    (trace_count _).before fun _ _ _ _ => trace_pure trivial
  refine (visitChildren_trace hvisit hchildren).andThen fun produced s' _ _ => ?_
  split
  · next operator others =>
    refine (trace_typeOf hnode _).before fun found s'' _ ⟨hs'', _⟩ => ?_
    refine trace_ite (fun heq => ?_) fun _ => hcounted _ _
    exact trace_throw_bind hnode rfl (heq ▸ hrefused operator others _ rfl) trivial
  · exact hcounted _ _

omit hnode in
theorem literal_trace (type : ValueType) :
    Trace tree (node.children.flatMap (Node.turns node.kind)) s (literal visit node type)
      fun _ _ => True :=
  (visitChildren_trace hvisit hchildren).andThen fun _ _ _ _ => trace_pure trivial

omit hvisit hchildren in
/-- An identifier takes a turn unless the construct around it declares it. -/
theorem identifier_trace (parent : NodeKind) (name : String) :
    Trace tree (if parent.isDeclaration then none else some (Turn.use name node.span)).toList s
      (identifier parent node name) fun _ _ => True := by
  unfold identifier
  cases parent.isDeclaration with
  | true => exact trace_pure trivial
  | false => exact (trace_lookupType hnode name).andThen fun _ _ _ _ => trace_pure trivial

end Node

/-- The rule of a node takes the node's turns. -/
theorem apply_trace {node : Node} (hnode : node ∈ tree.nodes) :
    Trace tree (node.turns parent) s (apply visit parent node) fun _ _ => True := by
  have hchildren : node.children ⊆ tree.nodes := fun _ hchild =>
    Node.mem_nodes_of_mem_children hnode hchild
  -- a rule runs a check and answers something, perhaps behind a count
  have hanswer {α β : Type} {turns : List Turn} {check : Check α} {s : Checker}
      (h : Trace tree turns s check fun _ _ => True) (answer : β) :
      Trace tree turns s (do let _ ← check; return answer) fun _ _ => True :=
    h.andThen fun _ _ _ _ => trace_pure trivial
  have hcounted {α β : Type} {turns : List Turn} {check : Check α} (step : Metrics → Metrics)
      (h : ∀ s, Trace tree turns s check fun _ _ => True) (answer : β) :
      Trace tree turns s (do count step; let _ ← check; return answer) fun _ _ => True :=
    (trace_count step).before fun _ s' _ _ => hanswer (h s') answer
  obtain ⟨kind, children, span⟩ := node
  cases kind with
  | scalarDeclaration keyword =>
    rw [Node.turns_mk]
    refine hanswer (declaration_trace hvisit hnode hchildren ?_) _
    rintro ⟨kind, _, _⟩ others name ⟨⟩ hname
    cases kind <;> cases hname
    rfl
  | listDeclaration keyword =>
    rw [Node.turns_mk]
    refine hanswer (declaration_trace hvisit hnode hchildren ?_) _
    rintro ⟨kind, _, _⟩ others name ⟨⟩ hname
    cases kind <;> cases hname
    rfl
  | identifier name =>
    rw [Node.turns_mk]
    exact identifier_trace hnode parent name
  | program | declaration | block | statement | expression | value =>
    rw [Node.turns_plain rfl rfl]
    exact visitChildren_trace hvisit hchildren
  | assignment =>
    rw [Node.turns_plain rfl rfl]
    exact hanswer (assignment_trace hvisit hnode hchildren rfl) _
  | foreachLoop =>
    rw [Node.turns_plain rfl rfl]
    exact hcounted _ (fun _ => foreachLoop_trace hvisit hnode hchildren rfl) _
  | forLoop | conditional | whileLoop =>
    rw [Node.turns_plain rfl rfl]
    exact hcounted _ (fun _ => conditional_trace hvisit hnode hchildren _) _
  | comparison operator =>
    rw [Node.turns_plain rfl rfl]
    exact (comparison_trace hvisit hnode hchildren _).andThen fun _ _ _ _ => trace_pure trivial
  | sum operators | product operators | logical operators =>
    rw [Node.turns_plain rfl rfl]
    exact chain_trace hvisit hnode hchildren _
  | negation operators | signed operators =>
    rw [Node.turns_plain rfl rfl]
    refine stacked_trace hvisit hnode hchildren _ _ fun operator others table heq => ?_
    refine ⟨_, hnode, rfl, others, ?_⟩
    simp [heq]
  | boolean truth | integer digits =>
    rw [Node.turns_plain rfl rfl]
    exact literal_trace hvisit hchildren _

end Rule

/-- Visits take the turns of the nodes that they visit, at least as far as the walk goes. -/
theorem visitWithin_traced (levels : Nat) : Rule.Traced tree (visitWithin levels) := by
  induction levels with
  | zero => exact fun _ _ hnode _ => Check.trace_malformed hnode _
  | succ levels ih => exact fun _ _ hnode _ => Rule.apply_trace ih hnode

/-- The check of a program takes the turns of its tree. -/
theorem checkProgram_trace (tree : Node) (s : Checker) :
    Check.Trace tree (tree.turns .program) s (checkProgram tree) fun _ _ => True := by
  have hroot := tree.self_mem_nodes
  refine Check.trace_ite (fun hkind => ?_) fun _ => Check.trace_throw_bind hroot rfl trivial trivial
  have hturns : tree.turns .program = tree.children.flatMap (Node.turns tree.kind) := by
    obtain ⟨kind, children, span⟩ := tree
    obtain rfl : kind = .program := hkind
    exact Node.turns_plain rfl rfl
  rw [hturns]
  have hchildren : tree.children ⊆ tree.nodes := fun _ hchild =>
    Node.mem_nodes_of_mem_children hroot hchild
  have hvisits := Rule.visitChildren_trace (s := s) (visitWithin_traced depthLimit) hchildren
  exact hvisits.andThen fun _ s' _ _ => ⟨.refl s', trivial⟩

/-- A check that fails has taken the first turns of its tree. -/
theorem Halts.of_check {checker : Checker} (h : (checker.check tree).1 = .error problem) :
    Halts tree (tree.turns .program) checker problem (checker.check tree).2 := by
  have hends := checkProgram_trace tree checker
  revert h hends
  unfold Check.Trace Ends
  rw [Checker.check_eq]
  rcases (checkProgram tree).run.run checker with ⟨found | metrics, s'⟩
  · rintro ⟨⟩ hhalts
    exact hhalts
  · nofun

/-! ## What checks report -/

/-- **Reports are true**. When the check of a tree fails, what it reports holds of the tree and of
the variables that are declared after the check, however the checker was used before. -/
theorem check_error_truthful {tree : Node} {checker : Checker} {problem : Diagnostic}
    (h : (checker.check tree).1 = .error problem) :
    problem.Truthful tree (checker.check tree).2.symbols :=
  (Halts.of_check h).truthful

/-- A loop, in a tree that no program has, negates a number that an earlier program declares. -/
theorem check_error_truthful_negation :
    let program : Node :=
      ⟨.program, [⟨.scalarDeclaration "num", [⟨.identifier "x", [], {}⟩], {}⟩], {}⟩
    let place : Span := ⟨⟨2, 8, 20⟩, ⟨2, 11, 23⟩⟩
    let test : Node := ⟨.negation ["!", "!"], [⟨.value, [⟨.identifier "x", [], {}⟩], {}⟩], place⟩
    let tree : Node := ⟨.program, [⟨.whileLoop, [test, test], {}⟩], {}⟩
    let checker := (Checker.check {} program).2
    let problem := Diagnostic.invalidUnaryOperand "!" .num place
    (checker.check tree).1 = .error problem ∧
      problem.Truthful tree (checker.check tree).2.symbols := by
  intro program place test tree checker problem
  have hfails : (checker.check tree).1 = .error problem := by rfl
  exact ⟨hfails, check_error_truthful hfails⟩

end Census
