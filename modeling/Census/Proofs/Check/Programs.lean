import Census.Proofs.Check.Statements
import Census.Proofs.Grammar.Height
import Census.Proofs.Parse.Extents
import Census.Proofs.Parse.Soundness

/-!
# Checking programs

What the check of a parsed program finds out, put in terms of the tree and of the tokens alone.

- `check_succeeds_iff_wellTyped`: a check succeeds exactly on well-typed programs.
- `analyze_counts_tokens`: what it counts is there to be counted in the tokens.
-/

namespace Census

open Check

variable {tokens : List Token} {tree : Node} {s' : Checker} {metrics : Metrics}

/-- A check of a whole program is a walk over its parts that answers what is counted in the end. -/
theorem succeeds_checkProgram_iff {s : Checker} :
    Succeeds (checkProgram tree) s metrics s' ↔
      tree.kind = .program ∧ Passes (Rule.visitChildren (visitWithin depthLimit) tree) s s' ∧
        metrics = s'.metrics := by
  by_cases hkind : tree.kind = .program
  · simp [checkProgram, checkProgramBy, Passes, hkind]
  · simp [checkProgram, checkProgramBy, hkind]

/-- A hundred levels of nesting, with eight nodes each, stay below the limit on depth. -/
theorem height_le_depthLimit (h : parse tokens = .ok tree) : tree.height ≤ depthLimit := by
  obtain ⟨hderives, -, hnesting⟩ := parse_ok h
  have hbound := hderives.height_le
  simp only [Category.slack, nestingLimit, depthLimit] at *
  omega

/-- The tree of a program, as parsing gives it or not, that is not too deep to be checked. -/
structure Node.Checkable (tree : Node) : Prop where
  derives : ∃ tokens, Derives .program tree tokens
  height_le : tree.height ≤ depthLimit

theorem checkable_of_parse (h : parse tokens = .ok tree) : tree.Checkable :=
  ⟨⟨tokens, (parse_ok h).1⟩, height_le_depthLimit h⟩

/-- A check of a program decides the program. -/
theorem Node.Checkable.decides (h : tree.Checkable) (types : String → Option ValueType) :
    Decides types (Passes (checkProgram tree)) .program [tree] True := by
  obtain ⟨⟨_, hderives⟩, hlow⟩ := h
  obtain ⟨content, span, rfl, hcontent⟩ := hderives.program
  have hheight : content.height ≤ depthLimit :=
    Node.height_le_of_mem (Nat.le_succ_of_le hlow) content List.mem_cons_self
  have hblock : Decides types _ .program [content] True :=
    (visitWithin_decides depthLimit).statement .program hcontent (by decide) hheight
  have hrow := Rule.visitEach_decides (visitWithin_keeps growth_grows depthLimit)
    (List.forall_mem_singleton.mpr hblock)
  refine (hrow.enclose rfl rfl rfl (by simp [Node.Typed])).congr (fun s s' _ => ?_) .rfl
  have hcounts : s.counting (NodeKind.counts 1 .program) = s := Checker.counting_zero
  show Passes _ _ _ ↔ Passes (Rule.visitEach (visitWithin depthLimit) .program [content])
    (s.counting (NodeKind.counts 1 .program)) s'
  rw [hcounts]
  constructor
  · rintro ⟨_, hrun⟩
    exact (succeeds_checkProgram_iff.mp hrun).2.1
  · intro hrun
    exact ⟨_, succeeds_checkProgram_iff.mpr ⟨rfl, hrun, rfl⟩⟩

/-- The types in the end are those of the program's declarations. -/
theorem Checker.types_after : (Checker.after {} [tree]).symbols.types = tree.types := by
  simp [after, SymbolTable.extend, Node.types]

/-- What a checked program leaves are its own declarations and counts, and it is accepted with
their types. -/
theorem Node.Checkable.accepts_of_succeeds (h : tree.Checkable)
    (hrun : Succeeds (checkProgram tree) {} metrics s') :
    Accepts tree.types {} .program [tree] ∧ s' = Checker.after {} [tree] := by
  -- the types in the end are those of the table in the end, which agrees with itself
  have hgrows := (checkProgram_keeps growth_grows tree).of_succeeds hrun
  have hdistinct := hgrows.distinct List.nodup_nil
  obtain ⟨⟨haccepts, -⟩, rfl⟩ := (h.decides s'.symbols.types {} s' List.nodup_nil
    (by simp [SymbolTable.Agrees])).mp ⟨⟨metrics, hrun⟩, hdistinct.agrees⟩
  rw [Checker.types_after] at haccepts
  exact ⟨haccepts, rfl⟩

theorem accepts_of_succeeds (h : parse tokens = .ok tree)
    (hrun : Succeeds (checkProgram tree) {} metrics s') :
    Accepts tree.types {} .program [tree] ∧ s' = Checker.after {} [tree] :=
  (checkable_of_parse h).accepts_of_succeeds hrun

/-- Well-typed programs are those that are accepted with nothing declared before. -/
theorem Node.wellTyped_iff : tree.WellTyped ↔ Accepts tree.types {} .program [tree] := by
  have htable : SymbolTable.extend {} ([tree].flatMap symbols) = ⟨tree.symbols⟩ := by
    simp [SymbolTable.extend]
  have hbefore : Scoped (SymbolTable.names {}) ([tree].flatMap (checkOrder .program)) ↔
      ∀ before parent node after, tree.checkOrder .program = before ++ (parent, node) :: after →
        parent.isDeclaration = false → ∀ name, node.identifier? = some name →
        ∃ entry ∈ before, ∃ symbol, entry.2.declared? = some symbol ∧ symbol.name = name := by
    simp [scoped_iff, SymbolTable.names]
  constructor
  · rintro ⟨hdistinct, hdeclared, htyped⟩
    refine ⟨by rwa [htable], ?_, hbefore.mpr hdeclared, List.forall_mem_singleton.mpr htyped⟩
    rw [htable]
    exact SymbolTable.Distinct.agrees hdistinct
  · rintro ⟨hdistinct, -, hscoped, htyped⟩
    rw [htable] at hdistinct
    exact ⟨hdistinct, hbefore.mp hscoped, List.forall_mem_singleton.mp htyped⟩

/-- Parsing and checking in a row. -/
theorem exists_analyze_of_bind (h : (parse tokens >>= analyze) = .ok metrics) :
    ∃ tree, parse tokens = .ok tree ∧ analyze tree = .ok metrics := by
  cases hparse : parse tokens with
  | error diagnostic =>
    rw [hparse] at h
    cases h
  | ok tree =>
    rw [hparse] at h
    exact ⟨tree, rfl, h⟩

/-- **Checking is typing**. A program that parsing gives is checked without a problem exactly if it
is well typed. -/
theorem check_succeeds_iff_wellTyped (h : parse tokens = .ok tree) :
    (∃ metrics, (Checker.check {} tree).1 = .ok metrics) ↔ tree.WellTyped := by
  rw [Node.wellTyped_iff]
  constructor
  · rintro ⟨metrics, hmetrics⟩
    exact (accepts_of_succeeds h (Checker.succeeds_of_check hmetrics)).1
  · intro haccepts
    obtain ⟨⟨metrics, hrun⟩, -⟩ := ((checkable_of_parse h).decides tree.types {} _ List.nodup_nil
      (by simp [SymbolTable.Agrees])).mpr ⟨⟨haccepts, trivial⟩, rfl⟩
    exact ⟨metrics, by rw [Checker.check_eq, hrun]⟩

/-- A loop over a list that is declared before it. -/
theorem check_succeeds_iff_wellTyped_foreach :
    let tokens : List Token := [⟨.listNumKeyword, "listnum", {}⟩, ⟨.identifier, "xs", {}⟩,
      ⟨.semicolon, ";", {}⟩, ⟨.foreachKeyword, "foreach", {}⟩, ⟨.leftParen, "(", {}⟩,
      ⟨.numKeyword, "num", {}⟩, ⟨.identifier, "x", {}⟩, ⟨.colon, ":", {}⟩,
      ⟨.identifier, "xs", {}⟩, ⟨.rightParen, ")", {}⟩, ⟨.identifier, "x", {}⟩,
      ⟨.assign, "=", {}⟩, ⟨.identifier, "x", {}⟩, ⟨.plus, "+", {}⟩, ⟨.integer, "1", {}⟩,
      ⟨.semicolon, ";", {}⟩]
    ∃ tree, parse tokens = .ok tree ∧ tree.WellTyped := by
  intro tokens
  obtain ⟨tree, hparse, hcheck⟩ := exists_analyze_of_bind (by decide +kernel :
    (parse tokens >>= analyze) = .ok ⟨2, 0, 0, 1, 1⟩)
  exact ⟨tree, hparse, (check_succeeds_iff_wellTyped hparse).mp ⟨_, hcheck⟩⟩

/-- **Metrics are token counts**. What the check of a program counts are tokens of certain kinds,
whatever their texts and places are. -/
theorem analyze_counts_tokens (hparse : parse tokens = .ok tree)
    (h : analyze tree = .ok metrics) : metrics = Metrics.ofKinds (tokens.map Token.kind) := by
  have hrun := Checker.succeeds_of_check h
  obtain ⟨-, hend⟩ := accepts_of_succeeds hparse hrun
  obtain ⟨-, -, hmetrics⟩ := succeeds_checkProgram_iff.mp hrun
  rw [hmetrics, hend, ← (parse_ok hparse).1.counts]
  simp [Checker.after, ← Metrics.zero_def]

/-- Two operators, one of them before its operand, and an assignment. -/
theorem analyze_counts_tokens_while :
    let tokens : List Token := [⟨.numKeyword, "num", {}⟩, ⟨.identifier, "x", {}⟩,
      ⟨.semicolon, ";", {}⟩, ⟨.whileKeyword, "while", {}⟩, ⟨.leftParen, "(", {}⟩,
      ⟨.identifier, "x", {}⟩, ⟨.less, "<", {}⟩, ⟨.integer, "3", {}⟩, ⟨.rightParen, ")", {}⟩,
      ⟨.identifier, "x", {}⟩, ⟨.assign, "=", {}⟩, ⟨.minus, "-", {}⟩, ⟨.integer, "1", {}⟩,
      ⟨.semicolon, ";", {}⟩]
    ∃ tree metrics, parse tokens = .ok tree ∧ analyze tree = .ok metrics ∧
      metrics = Metrics.ofKinds (tokens.map Token.kind) ∧ metrics = ⟨1, 1, 0, 0, 2⟩ := by
  intro tokens
  obtain ⟨tree, hparse, hanalyze⟩ := exists_analyze_of_bind (by decide +kernel :
    (parse tokens >>= analyze) = .ok ⟨1, 1, 0, 0, 2⟩)
  exact ⟨tree, _, hparse, hanalyze, analyze_counts_tokens hparse hanalyze, rfl⟩

end Census
