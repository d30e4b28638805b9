import Census.Proofs.Check.TextOrder
import Census.Proofs.Parse.Extents
import Census.Proofs.Token.Strays

/-!
# Where diagnostics point

Whatever is wrong with a text, what is reported points into the text. A name that is reported
stands where it is reported, and the order of the text bears out what is said of declarations: the
first declaration of a variable stands before the second one, and no declaration of a variable
stands before a use for which it is not declared.

- `Diagnostic.Located`: what a problem says about places of a text is so.
- `diagnostic_located`: the problems of texts.
-/

namespace Census

open Location Token

/-- What the problem says about places of the text is so. -/
structure Diagnostic.Located (source : String) (problem : Diagnostic) : Prop where
  points : ∀ label ∈ problem.labels, label.span.PointsInto source
  /-- The use of a name that is not declared is no later than all declarations of the name. -/
  undefined : ∀ name span, problem = .undefinedIdentifier name span →
    (∀ label ∈ problem.labels, label.span.slice source = name) ∧
      ∃ tokens tree, tokenize source = .ok tokens ∧ parse tokens = .ok tree ∧
        ∀ symbol ∈ tree.symbols, symbol.name = name →
          span.start.offset ≤ symbol.span.start.offset
  /-- The second declaration of a name is behind the first one. -/
  duplicate : ∀ name span previous, problem = .duplicateDeclaration name span previous →
    (∀ label ∈ problem.labels, label.span.slice source = name) ∧
      previous.stop.offset ≤ span.start.offset

/-! ## Turns around a problem -/

section Turns

variable {tree : Node} {turns : List Turn} {s' : Checker} {name : String} {span previous : Span}
  {symbol : Symbol}

theorem mem_declaredIn_iff : symbol ∈ declaredIn turns ↔ .declare symbol ∈ turns := by
  rw [declaredIn, List.mem_filterMap]
  constructor
  · rintro ⟨turn, hturn, hdeclares⟩
    cases turn <;> cases hdeclares
    exact hturn
  · exact fun hturn => ⟨_, hturn, rfl⟩

/-- A name that is not declared is looked up before all turns that declare it. -/
theorem Halts.use_before_declare
    (h : Halts tree turns {} (.undefinedIdentifier name span) s') :
    .use name span ∈ turns ∧ ∀ symbol, .declare symbol ∈ turns → symbol.name = name →
      [.use name span, .declare symbol].Sublist turns := by
  obtain ⟨done, rest, rfl, huse, hsymbols⟩ := h.taken
  refine ⟨List.mem_append_left _ huse, fun symbol hdeclare hname => ?_⟩
  have hnone : s'.symbols.lookup? name = none := by
    simpa [Diagnostic.Truthful, SymbolTable.contains] using h.truthful
  rcases List.mem_append.mp hdeclare with hdone | hrest
  · -- what has been declared would be in the table
    have hmem : name ∈ s'.symbols.names := by
      rw [hsymbols, SymbolTable.names_extend, ← hname]
      exact List.mem_append_right _ (List.mem_map_of_mem (mem_declaredIn_iff.mpr hdone))
    exact absurd hmem (SymbolTable.lookup?_eq_none_iff.mp hnone)
  · exact pair_sublist_append_iff.mpr (.inr (.inr ⟨huse, hrest⟩))

/-- A name that is declared again has been declared in an earlier turn. -/
theorem Halts.declare_before_declare
    (h : Halts tree turns {} (.duplicateDeclaration name span previous) s') :
    ∃ type type',
      [.declare ⟨name, type, previous⟩, .declare ⟨name, type', span⟩].Sublist turns := by
  obtain ⟨done, rest, rfl, ⟨type', hnext⟩, hsymbols⟩ := h.taken
  obtain ⟨symbol, hsymbol, rfl⟩ := h.truthful
  have hdone : .declare symbol ∈ done := by
    rw [hsymbols] at hsymbol
    exact mem_declaredIn_iff.mp (SymbolTable.mem_of_lookup? hsymbol)
  obtain rfl := SymbolTable.name_of_lookup? hsymbol
  exact ⟨symbol.type, type',
    pair_sublist_append_iff.mpr (.inr (.inr ⟨hdone, List.mem_of_head? hnext⟩))⟩

end Turns

/-! ## Places of problems -/

section Places

variable {source : String} {tokens : List Token} {tree : Node} {turn : Turn} {span : Span}
  {problem : Diagnostic} (htokens : tokenize source = .ok tokens)
  (hparse : parse tokens = .ok tree)
include htokens hparse

/-- The name of a turn stands where the turn is. -/
theorem turn_located (h : turn ∈ tree.turns .program) :
    turn.span.PointsInto source ∧ turn.span.slice source = turn.name := by
  obtain ⟨token, htoken, htext, hspan⟩ :=
    exists_token_of_mem_turns hparse (tokenize_inOrder htokens) h
  obtain ⟨-, -, hslice⟩ := tokenize_standsIn htokens token htoken
  rw [← hspan, ← htext]
  exact ⟨(Span.MadeOf.token htoken).pointsInto htokens, hslice.symm⟩

/-- What a check reports of a program points at a node of its tree, or at an earlier declaration. -/
theorem located_of_analyze (h : analyze tree = .error problem) : problem.Located source := by
  have hhalts : Halts tree (tree.turns .program) {} problem _ := .of_check h
  have hsome : tokens ≠ [] := by
    rintro rfl
    obtain rfl := Except.ok.inj hparse
    cases h
  have hplace {place : Span} (hplace : problem.span? = some place) : place.PointsInto source := by
    obtain ⟨node, hnode, hspan⟩ := hhalts.place
    obtain rfl := Option.some.inj (hplace.symm.trans hspan)
    exact (parse_madeOf hsome hparse node hnode).pointsInto htokens
  cases problem with
  | duplicateDeclaration name span previous =>
    obtain ⟨type, type', hpair⟩ := hhalts.declare_before_declare
    obtain ⟨hfirst, hfirstName⟩ := turn_located htokens hparse (hpair.subset List.mem_cons_self)
    obtain ⟨hsecond, hsecondName⟩ := turn_located htokens hparse
      (hpair.subset (List.mem_cons_of_mem _ List.mem_cons_self))
    have horder := stop_le_of_turns hparse (tokenize_inOrder htokens) hpair
    refine ⟨by simpa [Diagnostic.labels] using ⟨hsecond, hfirst⟩, nofun, ?_⟩
    rintro _ _ _ ⟨⟩
    exact ⟨by simpa [Diagnostic.labels] using ⟨hsecondName, hfirstName⟩, horder⟩
  | undefinedIdentifier name span =>
    obtain ⟨huse, hbefore⟩ := hhalts.use_before_declare
    obtain ⟨hpoints, hname⟩ := turn_located htokens hparse huse
    refine ⟨by simpa [Diagnostic.labels] using hpoints, ?_, nofun⟩
    rintro _ _ ⟨⟩
    refine ⟨by simpa [Diagnostic.labels] using hname, tokens, tree, htokens, hparse,
      fun symbol hsymbol hsame => ?_⟩
    have hturn : .declare symbol ∈ tree.turns .program :=
      Node.mem_turns_of_mem_symbols (regular_of_parse hparse) hsymbol
    exact Nat.le_trans hpoints.ordered (stop_le_of_turns hparse (tokenize_inOrder htokens)
      (hbefore symbol hturn hsame))
  | transfer => exact absurd hhalts.truthful id
  | _ => exact ⟨by simpa [Diagnostic.labels] using hplace rfl, nofun, nofun⟩

end Places

/-- **Diagnostics point into the text**. Whichever step finds a problem in a text, what is reported
about places of the text is so. -/
theorem diagnostic_located {source : String} {problem : Diagnostic}
    (h : (tokenize source >>= parse >>= analyze) = .error problem) : problem.Located source := by
  cases htokens : tokenize source with
  | error found =>
    rw [htokens] at h
    obtain rfl := Except.error.inj h
    obtain ⟨stray, hstray, rfl⟩ := tokenize_eq_error_iff.mp htokens
    exact ⟨by simpa [InvalidToken.diagnostic, Diagnostic.labels] using
      (tokensFrom_eq_error_iff.mp hstray).points, nofun, nofun⟩
  | ok tokens =>
    cases hparse : parse tokens with
    | error found =>
      rw [htokens] at h
      obtain rfl : found = problem := by simpa [bind, Except.bind, hparse] using h
      obtain ⟨hsome, text, cursor, hwithin, rfl⟩ := exists_within_of_parse hparse
      have hspan := (hwithin.span_madeOf hsome).1.pointsInto htokens
      exact ⟨by simpa [Diagnostic.labels] using hspan, nofun, nofun⟩
    | ok tree =>
      rw [htokens] at h
      have hanalyze : analyze tree = .error problem := by
        simpa [bind, Except.bind, hparse] using h
      exact located_of_analyze htokens hparse hanalyze

/-- A use in a loop in front of the declaration, behind a comment with a character of two bytes. -/
theorem diagnostic_located_undefined :
    let source := "// é\nwhile (true) x = 1;\nnum x;"
    let problem := Diagnostic.undefinedIdentifier "x" ⟨⟨2, 14, 19⟩, ⟨2, 15, 20⟩⟩
    (tokenize source >>= parse >>= analyze) = .error problem ∧ problem.Located source := by
  intro source problem
  have hfails : (tokenize source >>= parse >>= analyze) = .error problem := by decide +kernel
  exact ⟨hfails, diagnostic_located hfails⟩

end Census
