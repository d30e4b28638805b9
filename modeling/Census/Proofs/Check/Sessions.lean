import Mathlib.Data.List.Induction
import Census.Proofs.Check.Acceptance

/-!
# Sessions

A walker may check any number of programs. What it declares and counts adds up, and it is left
behind by failures as well. All that a check reads of what came before it is the table: it is back
at the root, however deep in a tree an earlier check has failed.

- `Walker.session`: the state after some programs, of any shape, whether they were accepted or not.
- `Walker.session_consistent`: in a session the table and the counts fit each other, and neither
  loses anything.
- `Walker.check_append`: a program and the session of its pieces come to the same.
- `Walker.check_of_alike`: after two sessions with the same table all programs fare the same.
-/

namespace Census

open Check

namespace Walker

/-- The state of a new walker after it has checked the trees one after the other. -/
def session (trees : List Node) : Walker :=
  trees.foldl (fun walker tree => (walker.check tree).2) {}

/-- The last tree is checked in the state that the others leave. -/
theorem session_concat (trees : List Node) (tree : Node) :
    session (trees ++ [tree]) = ((session trees).check tree).2 := by
  simp [session]

/-- Between checks a walker is at the root. -/
theorem exists_session_eq (trees : List Node) : ∃ s : Checker, session trees = ⟨s, 0⟩ := by
  induction trees using List.reverseRecOn with
  | nil => exact ⟨{}, rfl⟩
  | append_singleton trees tree ih =>
    obtain ⟨s, hs⟩ := ih
    exact ⟨(s.check tree).2, by rw [session_concat, hs, check_eq]⟩

end Walker

/-! ## Tables and counts -/

namespace Checker

/-- The table finds every entry under its own name and nothing else, no name has two entries, and
there are as many of them as declarations are counted. -/
structure Consistent (s : Checker) : Prop where
  length_eq : s.symbols.entries.length = s.metrics.declarations
  distinct : s.symbols.Distinct
  lookup?_iff : ∀ name symbol, s.symbols.lookup? name = some symbol ↔
    symbol ∈ s.symbols.entries ∧ symbol.name = name

/-- What a check adds to a state: entries with new names, one for each declaration it counts, and
counts. -/
structure Expands (s s' : Checker) : Prop where
  grows : Grows s s'
  counts : ∃ counts, s'.metrics = s.metrics + counts ∧
    s'.symbols.entries.length = s.symbols.entries.length + counts.declarations

/-- Every step of a check expands the state, and expansions add up. -/
theorem growth_expands : Growth Expands where
  refl s := ⟨growth_grows.refl s, 0, rfl, rfl⟩
  trans h h' := by
    obtain ⟨counts, hcounts, hlength⟩ := h.counts
    obtain ⟨counts', hcounts', hlength'⟩ := h'.counts
    refine ⟨growth_grows.trans h.grows h'.grows, counts + counts', ?_, ?_⟩
    · rw [hcounts', hcounts, add_assoc]
    · rw [hlength', hlength, Nat.add_assoc, Metrics.add_def]
  count s counts hnone := ⟨growth_grows.count s counts hnone, counts, rfl, by rw [hnone]; rfl⟩
  declare s symbol hnew :=
    ⟨growth_grows.declare s symbol hnew, { declarations := 1 }, rfl, List.length_append⟩

end Checker

namespace SymbolTable

variable {table : SymbolTable} {name : String}

/-- What is added comes behind what is there. -/
theorem lookup?_extend (symbols : List Symbol) :
    (table.extend symbols).lookup? name
      = (table.lookup? name).or (lookup? ⟨symbols⟩ name) :=
  List.find?_append

/-- A table without repeated names finds every entry. -/
theorem Distinct.lookup?_iff (h : table.Distinct) {symbol : Symbol} :
    table.lookup? name = some symbol ↔ symbol ∈ table.entries ∧ symbol.name = name := by
  constructor
  · intro hlookup
    exact ⟨mem_of_lookup? hlookup, name_of_lookup? hlookup⟩
  · rintro ⟨hmem, rfl⟩
    obtain ⟨found, hfound⟩ := exists_lookup?_iff.mpr (List.mem_map_of_mem hmem)
    rw [hfound, List.inj_on_of_nodup_map h (mem_of_lookup? hfound) hmem (name_of_lookup? hfound)]

end SymbolTable

namespace Checker

variable {s s' : Checker}

/-- An expansion adds entries with new names, and counts each of them. -/
theorem Expands.consistent (h : Expands s s') (hs : s.Consistent) : s'.Consistent where
  length_eq := by
    obtain ⟨counts, hcounts, hlength⟩ := h.counts
    rw [hlength, hcounts, hs.length_eq, Metrics.add_def]
  distinct := h.grows.distinct hs.distinct
  lookup?_iff _ _ := (h.grows.distinct hs.distinct).lookup?_iff

/-- An entry is found for good, as what is added comes behind it. -/
theorem Expands.lookup? (h : Expands s s') {name : String} {symbol : Symbol}
    (hsymbol : s.symbols.lookup? name = some symbol) : s'.symbols.lookup? name = some symbol := by
  obtain ⟨added, hadded⟩ := h.grows.entries
  have htable : s'.symbols = s.symbols.extend added := by
    rw [SymbolTable.extend, hadded]
  rw [htable, SymbolTable.lookup?_extend, hsymbol, Option.some_or]

/-- No counter goes down. -/
theorem Expands.counts_le (h : Expands s s') :
    List.Forall₂ (· ≤ ·) s.metrics.counts s'.metrics.counts := by
  obtain ⟨counts, hcounts, -⟩ := h.counts
  simp [hcounts, Metrics.counts, Metrics.add_def]

theorem check_expands (s : Checker) (tree : Node) : Expands s (s.check tree).2 := by
  rw [check_eq]
  exact checkProgram_keeps growth_expands tree s

end Checker

namespace Walker

theorem check_expands (earlier : List Node) (tree : Node) :
    (session earlier).Expands ((session earlier).check tree).2.toChecker := by
  obtain ⟨s, hs⟩ := exists_session_eq earlier
  rw [hs, check_eq]
  exact s.check_expands tree

/-- By induction on the trees, from a state with nothing in it. -/
theorem consistent_session (trees : List Node) : (session trees).Consistent := by
  induction trees using List.reverseRecOn with
  | nil => exact ⟨rfl, List.nodup_nil, fun _ _ => by simp [session, SymbolTable.lookup?]⟩
  | append_singleton trees tree ih =>
    rw [session_concat]
    exact (check_expands trees tree).consistent ih

/-- **Sessions are consistent**. After every check of a session, whether it succeeds or fails, the
table holds as many entries as are counted, each under its own name; the entries that were there
before the check are still found, the same in all parts; and no counter has gone down. -/
theorem session_consistent (earlier : List Node) (tree : Node) :
    let s := session earlier
    let s' := (s.check tree).2
    s'.Consistent ∧
      (∀ name symbol, s.symbols.lookup? name = some symbol →
        s'.symbols.lookup? name = some symbol) ∧
      List.Forall₂ (· ≤ ·) s.metrics.counts s'.metrics.counts := by
  have hexpands := check_expands earlier tree
  exact ⟨hexpands.consistent (consistent_session earlier), fun _ _ => hexpands.lookup?,
    hexpands.counts_le⟩

end Walker

/-! ## Programs in pieces -/

namespace Rule

variable (visit : Visit) (parent : NodeKind)

/-- What was produced before a row of nodes is answered if the row produces nothing. -/
theorem foldlM_visit_eq (nodes : List Node) (produced : Option ValueType) :
    nodes.foldlM (fun produced node => return (← visit parent node).or produced) produced
      = (·.or produced) <$> visitEach visit parent nodes := by
  induction nodes generalizing produced with
  | nil => simp [visitEach]
  | cons node others ih =>
    rw [visitEach, List.foldlM_cons, List.foldlM_cons]
    simp only [bind_assoc, pure_bind, map_bind, ih, Functor.map_map, Option.or_assoc,
      Option.or_none]

/-- Rows of nodes are visited one after the other. -/
theorem visitEach_append (front back : List Node) :
    visitEach visit parent (front ++ back) = do
      let produced ← visitEach visit parent front
      return (← visitEach visit parent back).or produced := by
  rw [visitEach, List.foldlM_append]
  simp only [foldlM_visit_eq]
  simp

end Rule

/-- The program that consists of the given statements. -/
def Node.programOf (outer inner : Span) (statements : List Node) : Node :=
  ⟨.program, [⟨.block, statements, inner⟩], outer⟩

/-- The walk over a program is one over its statements, wherever the program and its block
stand. -/
theorem walkProgram_programOf (outer inner : Span) (statements : List Node) :
    walkProgram (.programOf outer inner statements)
      = (fun _ => ()) <$> Rule.visitEach (visitWithin (depthLimit - 1)) .block statements := by
  have hblock : visitWithin depthLimit .program ⟨.block, statements, inner⟩
      = Rule.visitEach (visitWithin (depthLimit - 1)) .block statements := rfl
  simp [walkProgram, walkProgramBy, Node.programOf, Rule.visitChildren, Rule.visitEach, hblock]

/-- The statements behind are visited in the state that those in front leave, as in a walk of their
own. -/
theorem walkProgram_append (front back : List Node)
    (outer inner outer' inner' outer'' inner'' : Span) :
    walkProgram (.programOf outer inner (front ++ back)) =
      walkProgram (.programOf outer' inner' front) >>= fun _ =>
        walkProgram (.programOf outer'' inner'' back) := by
  simp [walkProgram_programOf, Rule.visitEach_append]

/-- A failure in front is that of the whole, and otherwise what is behind decides. -/
theorem Checker.check_programOf_append (s : Checker) (front back : List Node)
    (outer inner outer' inner' outer'' inner'' : Span) :
    s.check (.programOf outer inner (front ++ back)) =
      match s.check (.programOf outer' inner' front) with
      | (.ok _, between) => between.check (.programOf outer'' inner'' back)
      | (.error problem, between) => (.error problem, between) := by
  simp only [check_eq, run_checkProgram, run_bind,
    walkProgram_append front back outer inner outer' inner' outer'' inner'']
  rcases (walkProgram (.programOf outer' inner' front)).run.run s with ⟨_ | _, _⟩ <;> rfl

/-- **Checking composes**. In a session, a program of some statements and then others is checked as
the program of the first ones and, if that is accepted, the program of the others: the outcome, the
declarations and the counts are the same, those that a failure leaves included. -/
theorem Walker.check_append (earlier front back : List Node)
    (outer inner outer' inner' outer'' inner'' : Span) :
    (session earlier).check (.programOf outer inner (front ++ back)) =
      match (session earlier).check (.programOf outer' inner' front) with
      | (.ok _, between) => between.check (.programOf outer'' inner'' back)
      | (.error problem, between) => (.error problem, between) := by
  obtain ⟨s, hs⟩ := exists_session_eq earlier
  rw [hs, check_eq, check_eq,
    s.check_programOf_append front back outer inner outer' inner' outer'' inner'']
  rcases s.check (.programOf outer' inner' front) with ⟨_ | _, between⟩
  · rfl
  · exact (check_eq between _).symm

/-! ## Checkers with the same table -/

/-- The tables hold the same variables. -/
def SymbolTable.Alike (table table' : SymbolTable) : Prop :=
  ∀ name, table.lookup? name = table'.lookup? name

/-- The same entries behind tables that hold the same variables. -/
theorem SymbolTable.Alike.extend {table table' : SymbolTable} (h : table.Alike table')
    (symbols : List Symbol) : (table.extend symbols).Alike (table'.extend symbols) := by
  intro name
  rw [lookup?_extend, lookup?_extend, h name]

/-- The state with more variables declared and more counted. -/
def Checker.adding (s : Checker) (symbols : List Symbol) (counts : Metrics) : Checker :=
  ⟨s.symbols.extend symbols, s.metrics + counts⟩

theorem Checker.adding_adding (s : Checker) (symbols symbols' : List Symbol)
    (counts counts' : Metrics) :
    (s.adding symbols counts).adding symbols' counts'
      = s.adding (symbols ++ symbols') (counts + counts') := by
  simp only [adding, SymbolTable.extend_append, add_assoc]

theorem Checker.adding_nil (s : Checker) : s.adding [] 0 = s := by
  simp only [adding, SymbolTable.extend_nil, add_zero]

namespace Check

variable {α β : Type}

/-- In states with the same variables the check has the same outcome, and adds the same to both. -/
def Blind (check : Check α) : Prop :=
  ∀ s t : Checker, s.symbols.Alike t.symbols → ∃ outcome symbols counts,
    check.run.run s = (outcome, s.adding symbols counts) ∧
      check.run.run t = (outcome, t.adding symbols counts)

/-- A check that leaves its state alone. -/
theorem blind_of_still {check : Check α} {outcome : Checker → Except Diagnostic α}
    (hrun : ∀ s, check.run.run s = (outcome s, s))
    (houtcome : ∀ s t : Checker, s.symbols.Alike t.symbols → outcome s = outcome t) :
    Blind check := by
  intro s t h
  refine ⟨outcome s, [], 0, ?_, ?_⟩
  · rw [hrun, Checker.adding_nil]
  · rw [hrun, Checker.adding_nil, houtcome s t h]

/-- The states still hold the same variables when the second check starts. -/
theorem Blind.bind {check : Check α} {next : α → Check β} (h : Blind check)
    (hnext : ∀ answer, Blind (next answer)) : Blind (check >>= next) := by
  intro s t hst
  obtain ⟨outcome, symbols, counts, hs, ht⟩ := h s t hst
  rw [run_bind, run_bind, hs, ht]
  cases outcome with
  | error problem => exact ⟨.error problem, symbols, counts, rfl, rfl⟩
  | ok answer =>
    obtain ⟨outcome', symbols', counts', hs', ht'⟩ :=
      hnext answer (s.adding symbols counts) (t.adding symbols counts) (hst.extend symbols)
    rw [Checker.adding_adding] at hs' ht'
    exact ⟨outcome', symbols ++ symbols', counts + counts', hs', ht'⟩

/-- A name is free in both tables or in none. -/
theorem blind_declare (name : String) (type : ValueType) (span : Span) :
    Blind (declare name type span) := by
  intro s t hst
  rw [run_declare, run_declare, hst name]
  cases t.symbols.lookup? name with
  | none => exact ⟨.ok (), [⟨name, type, span⟩], { declarations := 1 }, rfl, rfl⟩
  | some earlier =>
    refine ⟨.error (.duplicateDeclaration name span earlier.span), [], 0, ?_, ?_⟩ <;>
      rw [Checker.adding_nil]

/-- No step looks at a counter. -/
theorem inherited_blind :
    Inherited (fun check _ => Blind check : {α : Type} → Check α → Check α → Prop) where
  pure answer := blind_of_still (fun _ => rfl) fun _ _ _ => (rfl : Except.ok answer = .ok answer)
  throw diagnostic :=
    blind_of_still (fun _ => rfl) fun _ _ _ => (rfl : Except.error diagnostic = .error diagnostic)
  bind := Blind.bind
  lookupType name span := blind_of_still (run_lookupType name span) fun s t hst => by
    rw [SymbolTable.lookupType, SymbolTable.lookupType, hst name]
  count counts _ hstep s t _ := by
    refine ⟨.ok (), [], counts, ?_, ?_⟩ <;>
      rw [Checker.adding, SymbolTable.extend_nil, ← hstep] <;> rfl
  declare := blind_declare

end Check

/-- **The past matters only through the table**. After two sessions, however they went and however
deep in a tree they failed, that leave the same variables declared, every tree meets the same
verdict; the same is declared, so that the tables are the same again, and every counter goes up by
the same amount. -/
theorem Walker.check_of_alike (earlier earlier' : List Node)
    (h : (session earlier).symbols.Alike (session earlier').symbols) (tree : Node) :
    let s := session earlier
    let t := session earlier'
    (s.check tree).1.map (fun _ => ()) = (t.check tree).1.map (fun _ => ()) ∧
      (s.check tree).2.symbols.Alike (t.check tree).2.symbols ∧
      ∃ symbols counts, (s.check tree).2.toChecker = s.adding symbols counts ∧
        (t.check tree).2.toChecker = t.adding symbols counts := by
  obtain ⟨s, hs⟩ := exists_session_eq earlier
  obtain ⟨t, ht⟩ := exists_session_eq earlier'
  rw [hs, ht] at h ⊢
  obtain ⟨outcome, symbols, counts, hrun, hrun'⟩ := walkProgram_inherits inherited_blind tree s t h
  simp only [check_eq, Checker.check_eq, run_checkProgram, hrun, hrun']
  refine ⟨?_, h.extend symbols, symbols, counts, rfl, rfl⟩
  cases outcome <;> rfl

/-- One walker has declared a variable; the other one has failed to declare it again and on a tree
that is too deep. -/
theorem Walker.check_of_alike_failures :
    let declares (name : String) : Node :=
      .programOf {} {} [⟨.scalarDeclaration "num", [⟨.identifier name, [], {}⟩], {}⟩]
    let twice : Node := .programOf {} {} ((declares "x").children ++ (declares "x").children)
    let deep : Node := (fun inside => ⟨.program, [inside], {}⟩)^[1100] ⟨.whileLoop, [], {}⟩
    (session [declares "x"]).symbols.Alike (session [twice, deep]).symbols ∧
      let s := session [declares "x"]
      let t := session [twice, deep]
      (s.check (declares "y")).1.map (fun _ => ()) = (t.check (declares "y")).1.map (fun _ => ()) ∧
        (s.check (declares "y")).2.symbols.Alike (t.check (declares "y")).2.symbols ∧
        ∃ symbols counts, (s.check (declares "y")).2.toChecker = s.adding symbols counts ∧
          (t.check (declares "y")).2.toChecker = t.adding symbols counts := by
  intro declares twice deep
  have htable : (session [declares "x"]).symbols = (session [twice, deep]).symbols := by
    -- checks are computed as walks of limited depth
    have hdeep : (session [twice, deep]).symbols
        = ((checkProgram deep).run.run ((checkProgram twice).run.run {}).2).2.symbols := by
      rw [session, List.foldl_cons, List.foldl_cons, List.foldl_nil, check_mk {} twice, check_mk]
    rw [hdeep]
    decide +kernel
  have halike : (session [declares "x"]).symbols.Alike (session [twice, deep]).symbols :=
    fun name => by rw [htable]
  exact ⟨halike, check_of_alike [declares "x"] [twice, deep] halike (declares "y")⟩

end Census
