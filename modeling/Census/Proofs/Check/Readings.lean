import Census.Proofs.Check.Declarations
import Census.Proofs.Check.Findings
import Census.Proofs.Check.Sessions
import Census.Proofs.Parse.Extents

/-!
# What expressions read

All that a visit to an expression reads of the state is the types of the names that it mentions, and
all that it changes is the counter of operators. So two walkers that give these names the same types
fare the same in it, however much else their tables hold.

- `Check.Reads`: a check that reads the types of some names only. There is a lemma for each rule of
  expressions.
- `visitWithin_reads`: visits to expressions read what they mention.
- `Walker.visit_expression`: the same for walkers, each at its own depth.
-/

namespace Census

namespace Check

variable {α β : Type} {names names' : List String} {check : Check α} {next : α → Check β}

/-- In states that give the names the same types the check has the same outcome, and all that it
does is to count operators, in both states as many. -/
def Reads (names : List String) (check : Check α) : Prop :=
  ∀ s t : Checker, (∀ name ∈ names, s.symbols.types name = t.symbols.types name) →
    ∃ outcome operators, check.run.run s = (outcome, s.counting { operators }) ∧
      check.run.run t = (outcome, t.counting { operators })

/-- A check that reads the types of some names reads no others. -/
theorem Reads.mono (h : Reads names check) (hnames : names ⊆ names') : Reads names' check :=
  fun s t hagree => h s t fun name hname => hagree name (hnames hname)

/-- The states still agree on the names when the second check starts, since only counters have
moved. -/
theorem Reads.bind (h : Reads names check) (hnext : ∀ answer, Reads names (next answer)) :
    Reads names (check >>= next) := by
  intro s t hagree
  obtain ⟨outcome, operators, hs, ht⟩ := h s t hagree
  rw [run_bind, run_bind, hs, ht]
  cases outcome with
  | error problem => exact ⟨.error problem, operators, rfl, rfl⟩
  | ok answer =>
    obtain ⟨outcome', operators', hs', ht'⟩ := hnext answer (s.counting { operators })
      (t.counting { operators }) hagree
    rw [Checker.counting_counting] at hs' ht'
    exact ⟨outcome', operators + operators', hs', ht'⟩

theorem reads_ite {p : Prop} [Decidable p] {check' : Check α} (h : Reads names check)
    (h' : Reads names check') : Reads names (if p then check else check') := by
  split
  · exact h
  · exact h'

/-! ## Steps -/

/-- A check that leaves its state alone. -/
theorem reads_of_still {outcome : Checker → Except Diagnostic α}
    (hrun : ∀ s, check.run.run s = (outcome s, s))
    (houtcome : ∀ s t : Checker, (∀ name ∈ names, s.symbols.types name = t.symbols.types name) →
      outcome s = outcome t) : Reads names check := by
  intro s t hagree
  refine ⟨outcome s, 0, hrun s, ?_⟩
  rw [hrun, houtcome s t hagree]
  rfl

theorem reads_pure (answer : α) : Reads names (pure answer : Check α) :=
  reads_of_still (fun _ => rfl) fun _ _ _ => (rfl : Except.ok answer = .ok answer)

theorem reads_throw (problem : Diagnostic) : Reads names (throw problem : Check α) :=
  reads_of_still (fun _ => rfl) fun _ _ _ => (rfl : Except.error problem = .error problem)

/-- Nothing is read behind a failure. -/
theorem reads_throw_bind (problem : Diagnostic) (next : β → Check α) :
    Reads names (throw problem >>= next) :=
  reads_of_still (fun _ => rfl) fun _ _ _ => (rfl : Except.error problem = .error problem)

theorem reads_malformed (what : Malformation) (span : Span) :
    Reads names (malformed what span : Check α) :=
  reads_throw _

/-- What was produced is at hand, so no name is read. -/
theorem reads_typeOf (produced : Option ValueType) (node : Node) :
    Reads names (typeOf produced node) := by
  cases produced with
  | none => exact reads_malformed _ _
  | some type => exact reads_pure type

/-- Counting operators is what a check of an expression may do. -/
theorem reads_count {step : Metrics → Metrics} (operators : Nat)
    (h : ∀ metrics, step metrics = metrics + { operators }) : Reads names (count step) := by
  intro s t _
  have hrun (s : Checker) : (count step).run.run s = (.ok (), s.counting { operators }) := by
    rw [Checker.counting, ← h]
    rfl
  exact ⟨.ok (), operators, hrun s, hrun t⟩

/-- A look-up of one of the names, wherever it was declared. -/
theorem reads_lookupType {name : String} (hname : name ∈ names) (span : Span) :
    Reads names (lookupType name span) := by
  refine reads_of_still (run_lookupType name span) fun s t hagree => ?_
  have hsame := hagree name hname
  unfold SymbolTable.types at hsame
  rw [SymbolTable.lookupType, SymbolTable.lookupType]
  revert hsame
  cases s.symbols.lookup? name <;> cases t.symbols.lookup? name <;> simp

end Check

namespace Rule

open Check

variable {names : List String} {visit : Visit} {parent kind : NodeKind} {children nodes : List Node}
  {span : Span}

section Rows

variable (hvisit : ∀ node ∈ nodes, Reads names (visit parent node))
include hvisit

/-- By induction on the nodes: all of them read the same names. -/
theorem visitEach_reads : Reads names (visitEach visit parent nodes) := by
  -- the fold starts with any type, as the induction meets it in the middle
  have hfold (produced : Option ValueType) : Reads names
      (nodes.foldlM (fun produced node => return (← visit parent node).or produced) produced) := by
    induction nodes generalizing produced with
    | nil => exact reads_pure produced
    | cons node others ih =>
      obtain ⟨hfirst, hothers⟩ := List.forall_mem_cons.mp hvisit
      rw [List.foldlM_cons]
      exact (hfirst.bind fun _ => reads_pure _).bind (ih hothers)
  exact hfold none

theorem visitTyped_reads {node : Node} (hnode : node ∈ nodes) :
    Reads names (visitTyped visit parent node) :=
  (hvisit node hnode).bind fun _ => reads_typeOf _ _

theorem mapM_visitTyped_reads : Reads names (nodes.mapM (visitTyped visit parent)) := by
  induction nodes with
  | nil => exact reads_pure _
  | cons node others ih =>
    rw [List.mapM_cons]
    exact (visitTyped_reads hvisit List.mem_cons_self).bind fun _ =>
      (ih (List.forall_mem_cons.mp hvisit).2).bind fun _ => reads_pure _

theorem forM_operand_reads (expected : ValueType) :
    Reads names (nodes.forM (operand visit parent expected)) := by
  induction nodes with
  | nil => exact reads_pure _
  | cons node others ih =>
    have hfirst : Reads names (operand visit parent expected node) :=
      (visitTyped_reads hvisit List.mem_cons_self).bind fun _ =>
        reads_ite (reads_pure _) (reads_throw _)
    exact hfirst.bind fun _ => ih (List.forall_mem_cons.mp hvisit).2

end Rows

section Rules

variable (hvisit : ∀ child ∈ children, Reads names (visit kind child))
include hvisit

theorem visitChildren_reads : Reads names (visitChildren visit ⟨kind, children, span⟩) :=
  visitEach_reads hvisit

/-- Operands are read one by one, and the operator is counted at the end. -/
theorem comparison_reads (operator : Option String) :
    Reads names (comparison visit ⟨kind, children, span⟩ operator) := by
  refine (mapM_visitTyped_reads hvisit).bind fun types => ?_
  split
  · exact reads_pure _
  · refine reads_ite (reads_ite ?_ (reads_throw_bind _ _)) (reads_throw_bind _ _)
    exact (reads_count 1 fun _ => rfl).bind fun _ => reads_pure _
  · exact reads_malformed _ _

/-- Operators are counted by the number of operands, which no table tells. -/
theorem chain_reads (type : ValueType) :
    Reads names (chain visit ⟨kind, children, span⟩ type) := by
  match children with
  | [] => exact reads_malformed _ _
  | [_] => exact visitChildren_reads hvisit
  | _ :: _ :: _ =>
    exact (forM_operand_reads hvisit type).bind fun _ =>
      (reads_count _ fun _ => rfl).bind fun _ => reads_pure _

/-- Which type is refused is up to the operators alone. -/
theorem stacked_reads (operators : List String) (refused : ValueType) :
    Reads names (stacked visit ⟨kind, children, span⟩ operators refused) := by
  have hcounted (produced : Option ValueType) : Reads names
      (do count fun metrics => { metrics with operators := metrics.operators + operators.length }
          return produced) :=
    (reads_count _ fun _ => rfl).bind fun _ => reads_pure _
  refine (visitChildren_reads hvisit).bind fun produced => ?_
  cases operators with
  | nil => exact hcounted _
  | cons => exact (reads_typeOf _ _).bind fun _ => reads_ite (reads_throw_bind _ _) (hcounted _)

theorem literal_reads (type : ValueType) :
    Reads names (literal visit ⟨kind, children, span⟩ type) :=
  (visitChildren_reads hvisit).bind fun _ => reads_pure _

omit hvisit in
/-- An identifier reads its own type. -/
theorem identifier_reads {name : String} (hname : name ∈ names) (node : Node) :
    Reads names (identifier parent node name) :=
  reads_ite (reads_pure _) ((reads_lookupType hname _).bind fun _ => reads_pure _)

/-- The rules of the constructs in expressions read nothing but names. -/
theorem apply_reads (hkind : kind.category ∈ Category.inExpressions)
    (hname : ∀ name, kind = .identifier name → name ∈ names) :
    Reads names (apply visit parent ⟨kind, children, span⟩) := by
  cases kind with
  | expression | value => exact visitChildren_reads hvisit
  | comparison operator => exact (comparison_reads hvisit operator).bind fun _ => reads_pure _
  | sum | product | logical => exact chain_reads hvisit _
  | negation operators | signed operators => exact stacked_reads hvisit operators _
  | boolean | integer => exact literal_reads hvisit _
  | identifier name => exact identifier_reads (hname name rfl) _
  | _ => simp [NodeKind.category, Category.inExpressions, Category.operands] at hkind

end Rules

end Rule

open Check

/-- A visit to an expression reads what the expression mentions, however many levels are left to
it. -/
theorem visitWithin_reads {tree : Node}
    (htree : ∀ node ∈ tree.nodes, node.category ∈ Category.inExpressions) (levels : Nat)
    (parent : NodeKind) : Reads tree.mentions (visitWithin levels parent tree) := by
  induction levels generalizing tree parent with
  | zero => exact reads_malformed _ _
  | succ levels ih =>
    obtain ⟨kind, children, span⟩ := tree
    refine Rule.apply_reads (fun child hchild => ?_) (htree _ (Node.self_mem_nodes _)) ?_
    · have hbelow := ih (fun node hnode => htree node
        (Node.mem_nodes_iff.mpr (.inr ⟨child, hchild, hnode⟩))) kind
      refine hbelow.mono fun name hname => ?_
      rw [Node.mentions_mk]
      exact List.mem_append_right _ (List.mem_flatMap.mpr ⟨child, hchild, hname⟩)
    · rintro name rfl
      simp [Node.mentions_mk, Node.identifier?]

/-- A table with more entries gives the same types to all names that had one. -/
theorem SymbolTable.types_extend {table : SymbolTable} {name : String}
    (h : (table.types name).isSome = true) (symbols : List Symbol) :
    (table.extend symbols).types name = table.types name := by
  rw [types, Option.isSome_map] at h
  obtain ⟨symbol, hsymbol⟩ := Option.isSome_iff_exists.mp h
  rw [types, types, lookup?_extend, hsymbol, Option.some_or]

namespace Walker

variable {s t : Walker} {parent : NodeKind} {node tree : Node} {tokens : List Token}
  {category : Category}

/-- The walker does not come to the depth limit in its visit to the node. -/
def StaysWithin (walker : Walker) (parent : NodeKind) (node : Node) : Prop :=
  ¬ CutOff ((visit parent node).run.run walker).1

/-- The walker with more operators counted. -/
def applying (walker : Walker) (operators : Nat) : Walker :=
  { walker with toChecker := walker.toChecker.counting { operators } }

/-- Wherever a walker stands, it visits with the levels that are left below it. -/
theorem run_visit_eq (s : Walker) (parent : NodeKind) (node : Node) :
    (visit parent node).run.run s
      = let outcome := (visitWithin (depthLimit - s.depth) parent node).run.run s.toChecker
        (outcome.1, { s with toChecker := outcome.2 }) :=
  visit_follows s.toChecker

/-- A walker that does not come to the limit may as well have more levels left. -/
theorem StaysWithin.run_visit (h : s.StaysWithin parent node) {levels : Nat}
    (hlevels : depthLimit ≤ levels) :
    (visit parent node).run.run s
      = let outcome := (visitWithin levels parent node).run.run s.toChecker
        (outcome.1, { s with toChecker := outcome.2 }) := by
  have hrun := s.run_visit_eq parent node
  have hmore : depthLimit - s.depth ≤ levels := (Nat.sub_le _ _).trans hlevels
  rcases visitWithin_extends hmore parent node s.toChecker with hcut | hsame
  · rw [StaysWithin, hrun] at h
    exact absurd hcut h
  · rw [← hsame]
    exact hrun

/-- Where there are enough levels left for a construct, its visit does not come to the limit. -/
theorem staysWithin_of_height (h : Derives category node tokens)
    (hheight : s.depth + node.height ≤ depthLimit) : s.StaysWithin parent node := by
  have hrun := s.run_visit_eq parent node
  have hproper := visitWithin_proper (depthLimit - s.depth) parent h (by omega) s.toChecker
  rw [StaysWithin, hrun]
  rintro ⟨span, hspan⟩
  revert hproper
  unfold Ends
  rcases houtcome : (visitWithin (depthLimit - s.depth) parent node).run.run s.toChecker with ⟨_, _⟩
  rw [houtcome] at hspan
  subst hspan
  nofun

/-- **Expressions read what they mention**. Two walkers visit an expression of a parsed program,
neither coming to the depth limit. If they give all names in the expression the same types, or none
to both, then both find the same type or the same problem, and both only count operators, the same
number of them. So an expression that has a type keeps it, whatever is declared later. -/
theorem visit_expression {expression : Node} (hparse : parse tokens = .ok tree)
    (hnode : expression ∈ tree.nodes) (hkind : expression.kind = .expression)
    (parent : NodeKind) :
    (∀ s t : Walker, s.StaysWithin parent expression → t.StaysWithin parent expression →
      (∀ name ∈ expression.mentions, s.symbols.types name = t.symbols.types name) →
      ∃ (outcome : Except Diagnostic ValueType) (operators : Nat),
        (visit parent expression).run.run s = (outcome.map some, s.applying operators) ∧
          (visit parent expression).run.run t = (outcome.map some, t.applying operators)) ∧
      ∀ (s t : Walker) (later : List Symbol) (type : ValueType),
        t.symbols = s.symbols.extend later → t.StaysWithin parent expression →
        ((visit parent expression).run.run s).1 = .ok (some type) →
        ((visit parent expression).run.run t).1 = .ok (some type) := by
  obtain ⟨inside, hderives⟩ :=
    (Fills.lastTree (parse_ok hparse).1).exists_derives tree List.mem_cons_self expression hnode
  rw [hkind] at hderives
  have hinside := (Fills.lastTree hderives).inExpressions (by decide) expression List.mem_cons_self
  -- with this many levels the height of the expression does not matter
  let levels := max depthLimit expression.height
  have hlimit : depthLimit ≤ levels := Nat.le_max_left _ _
  have hheight : expression.height ≤ levels := Nat.le_max_right _ _
  have hsame (s t : Walker) (hs : s.StaysWithin parent expression)
      (ht : t.StaysWithin parent expression)
      (hagree : ∀ name ∈ expression.mentions, s.symbols.types name = t.symbols.types name) :
      ∃ (outcome : Except Diagnostic ValueType) (operators : Nat),
        (visit parent expression).run.run s = (outcome.map some, s.applying operators) ∧
          (visit parent expression).run.run t = (outcome.map some, t.applying operators) := by
    obtain ⟨outcome, operators, hruns, hrunt⟩ :=
      visitWithin_reads hinside levels parent s.toChecker t.toChecker hagree
    have hproduces : expression.category.produces parent = true := by
      rw [Node.category, hkind]
      rfl
    have htyped := (visitWithin_proper levels parent hderives hheight).typed hproduces s.toChecker
    rw [hs.run_visit hlimit, ht.run_visit hlimit, hruns, hrunt]
    rw [Ends, hruns] at htyped
    cases outcome with
    | error problem => exact ⟨.error problem, operators, rfl, rfl⟩
    | ok produced =>
      obtain ⟨type, rfl⟩ := Option.isSome_iff_exists.mp htyped
      exact ⟨.ok type, operators, rfl, rfl⟩
  refine ⟨hsame, fun s t later type hlater ht hok => ?_⟩
  have hs : s.StaysWithin parent expression := by
    rw [StaysWithin, hok]
    rintro ⟨span, ⟨⟩⟩
  -- an expression that has a type mentions nothing that is not declared
  have htype : HasType s.symbols.types expression type := by
    rw [hs.run_visit hlimit] at hok
    obtain ⟨type', htype, ⟨⟩, -⟩ :=
      (visitWithin_synthesizes hderives (by decide) hheight parent s.toChecker (some type) _).mp
        (Prod.ext hok rfl)
    exact htype
  obtain ⟨outcome, operators, hruns, hrunt⟩ := hsame s t hs ht fun name hname => by
    rw [hlater, SymbolTable.types_extend (htype.isSome_of_mem_mentions name hname)]
  rw [hrunt]
  rwa [hruns] at hok

/-- One of the names is not declared. The second walker has declared more and is so deep that the
expression just fits. -/
theorem visit_expression_undeclared :
    let s : Walker := { symbols := ⟨[⟨"a", .num, {}⟩, ⟨"b", .num, {}⟩]⟩ }
    let t : Walker := {
      symbols := ⟨[⟨"b", .num, {}⟩, ⟨"z", .bool, {}⟩, ⟨"a", .num, {}⟩]⟩
      metrics := { whileLoops := 3 }
      depth := 1007 }
    ∃ tokens tree expression, tokenize "z = a < b && !(c < 1);" = .ok tokens ∧
      parse tokens = .ok tree ∧ expression ∈ tree.nodes ∧ expression.kind = .expression ∧
      expression.mentions = ["a", "b", "c"] ∧ t.depth + expression.height = depthLimit ∧
      s.StaysWithin .assignment expression ∧ t.StaysWithin .assignment expression ∧
      (∀ name ∈ expression.mentions, s.symbols.types name = t.symbols.types name) ∧
      ∃ (outcome : Except Diagnostic ValueType) (operators : Nat),
        (visit .assignment expression).run.run s = (outcome.map some, s.applying operators) ∧
          (visit .assignment expression).run.run t = (outcome.map some, t.applying operators) := by
  intro s t
  obtain ⟨tokens, tree, htokens, hparse, hfacts⟩ := exists_of_map_parse (by decide +kernel :
    (tokenize "z = a < b && !(c < 1);" >>= parse).map (fun tree =>
        (tree.nodes.find? (·.kind = .expression)).map fun expression =>
          (expression.mentions, expression.height)) = .ok (some (["a", "b", "c"], 17)))
  obtain ⟨expression, hfind, hfacts⟩ := Option.map_eq_some_iff.mp hfacts
  obtain ⟨hmentions, hheight⟩ := Prod.mk.inj hfacts
  have hnode := List.mem_of_find?_eq_some hfind
  have hkind : expression.kind = .expression := by
    simpa using List.find?_some hfind
  obtain ⟨inside, hderives⟩ :=
    (Fills.lastTree (parse_ok hparse).1).exists_derives tree List.mem_cons_self expression hnode
  have hs : s.StaysWithin .assignment expression :=
    staysWithin_of_height hderives (hheight ▸ by decide)
  have ht : t.StaysWithin .assignment expression :=
    staysWithin_of_height hderives (hheight ▸ by decide)
  have hagree : ∀ name ∈ expression.mentions, s.symbols.types name = t.symbols.types name := by
    rw [hmentions]
    decide
  exact ⟨tokens, tree, expression, htokens, hparse, hnode, hkind, hmentions, hheight ▸ rfl, hs, ht,
    hagree, (visit_expression hparse hnode hkind .assignment).1 s t hs ht hagree⟩

end Walker

end Census
