import Census.Proofs.Check.Relabeling
import Census.Proofs.Parse.Bare
import Census.Proofs.Parse.Soundness
import Census.Proofs.Token.Tiling
import Census.Proofs.Tree.Outlines
import Census.Report

/-!
# Layout

How the tokens of a program are set apart, and where, is nothing that its tree or its check depends
on, apart from the places that they hand on. The outline of a tree says which tokens a program has,
and nothing else.

- `parse_bare`: tokens without places.
- `layout_irrelevant`: parsing and checking what only differs in its places.
- `outlineSource_eq_iff`: two sources have the same outline exactly when they have the same kinds
  and texts of tokens.
-/

namespace Census

/-! ## Tokens without places -/

theorem parse_bare (tokens : List Token) :
    parse (tokens.map Token.bare)
      = ((parse tokens).map Node.bare).mapError (Diagnostic.relabel .unplaced) := by
  have hprogram := Parser.program_bares (.atStart tokens)
  rw [parse_eq, parse_eq]
  rw [show Cursor.atStart (tokens.map Token.bare) = (Cursor.atStart tokens).bare from rfl, hprogram]
  rcases Parser.program (.atStart tokens) with error | ⟨tree, cursor⟩ <;> rfl

theorem map_bare_of_content {tokens tokens' : List Token}
    (h : tokens.map Token.content = tokens'.map Token.content) :
    tokens.map Token.bare = tokens'.map Token.bare := by
  have hbare : Token.bare = (fun content => ⟨content.1, content.2, {}⟩) ∘ Token.content := rfl
  rw [hbare, ← List.map_map, ← List.map_map, h]

/-- Tokens that only differ in their places make trees, or refusals, that only differ in theirs. -/
theorem parse_of_content {tokens tokens' : List Token}
    (h : tokens.map Token.content = tokens'.map Token.content) :
    ((parse tokens).map Node.bare).mapError (Diagnostic.relabel .unplaced)
      = ((parse tokens').map Node.bare).mapError (Diagnostic.relabel .unplaced) := by
  rw [← parse_bare, ← parse_bare, map_bare_of_content h]

/-! ## Two layouts -/

/-- Results that are the same up to what `f` and `g` forget are both answers or both failures. -/
theorem ok_or_error_of_map {ε ε' α β : Type} {f : α → β} {g : ε → ε'} {result result' : Except ε α}
    (h : (result.map f).mapError g = (result'.map f).mapError g) :
    (∃ answer answer', result = .ok answer ∧ result' = .ok answer' ∧ f answer = f answer') ∨
      (∃ problem problem', result = .error problem ∧ result' = .error problem' ∧
        g problem = g problem') := by
  rcases result with problem | answer <;> rcases result' with problem' | answer'
  · exact .inr ⟨problem, problem', rfl, rfl, Except.error.inj h⟩
  · cases h
  · cases h
  · exact .inl ⟨answer, answer', rfl, rfl, Except.ok.inj h⟩

theorem Diagnostic.message_of_unplaced {problem problem' : Diagnostic}
    (h : problem.relabel .unplaced = problem'.relabel .unplaced) :
    problem.message = problem'.message := by
  rw [← message_relabel_unplaced, h, message_relabel_unplaced]

theorem Diagnostic.code?_of_unplaced {problem problem' : Diagnostic}
    (h : problem.relabel .unplaced = problem'.relabel .unplaced) :
    problem.code? = problem'.code? := by
  rw [← code?_relabel, h, code?_relabel]

/-- **Layout independence**. If two rows of tokens only differ in their places, either both are
programs, with trees that are equal up to spans and so have the same outline, or both are refused
with the same message. If two trees are equal up to spans, of whatever shape they are, either both
are accepted, with the same counts and the same names and types declared, or both are rejected with
diagnostics that only differ in their spans. -/
theorem layout_irrelevant :
    (∀ tokens tokens' : List Token, tokens.map Token.content = tokens'.map Token.content →
      (∃ tree tree', parse tokens = .ok tree ∧ parse tokens' = .ok tree' ∧
        tree.bare = tree'.bare ∧ tree.outline = tree'.outline) ∨
      (∃ problem problem', parse tokens = .error problem ∧ parse tokens' = .error problem' ∧
        problem.message = problem'.message)) ∧
    (∀ tree tree' : Node, tree.bare = tree'.bare →
      let outcome := Checker.check {} tree
      let outcome' := Checker.check {} tree'
      (∃ metrics, outcome.1 = .ok metrics ∧ outcome'.1 = .ok metrics ∧
        outcome.2.symbols.entries.map (fun symbol => (symbol.name, symbol.type))
          = outcome'.2.symbols.entries.map fun symbol => (symbol.name, symbol.type)) ∨
      (∃ problem problem', outcome.1 = .error problem ∧ outcome'.1 = .error problem' ∧
        problem.code? = problem'.code? ∧ problem.message = problem'.message ∧
        problem.relabel .unplaced = problem'.relabel .unplaced)) := by
  refine ⟨fun tokens tokens' hcontent => ?_, fun tree tree' hbare => ?_⟩
  · rcases ok_or_error_of_map (parse_of_content hcontent) with
      ⟨tree, tree', htree, htree', hsame⟩ | ⟨problem, problem', hproblem, hproblem', hsame⟩
    · exact .inl ⟨tree, tree', htree, htree', hsame, Node.outline_eq_of_bare hsame⟩
    · exact .inr ⟨problem, problem', hproblem, hproblem', Diagnostic.message_of_unplaced hsame⟩
  · intro outcome outcome'
    obtain ⟨hanswer, hstate⟩ := Prod.mk.inj (Checker.check_bare hbare {})
    have hanswer' : (outcome.1.map id).mapError (Diagnostic.relabel .unplaced)
        = (outcome'.1.map id).mapError (Diagnostic.relabel .unplaced) := by
      rwa [Except.map_id]
    rcases ok_or_error_of_map hanswer' with
      ⟨metrics, metrics', hmetrics, hmetrics', hsame⟩ |
      ⟨problem, problem', hproblem, hproblem', hsame⟩
    · refine .inl ⟨metrics, hmetrics, by rw [hmetrics', ← show metrics = metrics' from hsame], ?_⟩
      rw [← Checker.signatures_relabel_unplaced, hstate, Checker.signatures_relabel_unplaced]
    · exact .inr ⟨problem, problem', hproblem, hproblem', Diagnostic.code?_of_unplaced hsame,
        Diagnostic.message_of_unplaced hsame, hsame⟩

/-- A program in the first and in a later line, and a tree that has something wrong at two
places. -/
theorem layout_irrelevant_later :
    let tokens (before : Nat) : List Token :=
      [⟨.numKeyword, "num", .ofOffsets before (before + 3)⟩,
        ⟨.identifier, "x", .ofOffsets (before + 4) (before + 5)⟩,
        ⟨.semicolon, ";", .ofOffsets (before + 5) (before + 6)⟩]
    let tree (before : Nat) : Node :=
      ⟨.program, [⟨.block, [⟨.assignment, [⟨.identifier "x", [], .ofOffsets before (before + 1)⟩,
        ⟨.integer "1", [], .ofOffsets (before + 4) (before + 5)⟩], {}⟩], {}⟩], {}⟩
    (tokens 0).map Token.content = (tokens 7).map Token.content ∧
      (tree 0).bare = (tree 7).bare ∧
      (∃ first later, parse (tokens 0) = .ok first ∧ parse (tokens 7) = .ok later ∧
        first.bare = later.bare ∧ first.outline = later.outline) ∧
      (∃ first later, (Checker.check {} (tree 0)).1 = .error first ∧
        (Checker.check {} (tree 7)).1 = .error later ∧ first.code? = later.code? ∧
        first.message = later.message ∧ first.relabel .unplaced = later.relabel .unplaced) := by
  intro tokens tree
  obtain ⟨hparse, hcheck⟩ := layout_irrelevant
  refine ⟨rfl, rfl, ?_, ?_⟩
  · obtain ⟨first, hfirst⟩ : ∃ first, parse (tokens 0) = .ok first :=
      ⟨_, (parse_eq (tokens 0)).trans rfl⟩
    refine (hparse (tokens 0) (tokens 7) rfl).resolve_right ?_
    rintro ⟨problem, _, hproblem, -⟩
    rw [hfirst] at hproblem
    cases hproblem
  · have hfirst : (Checker.check {} (tree 0)).1
        = .error (.undefinedIdentifier "x" (.ofOffsets 0 1)) := by
      -- checks are computed as walks of limited depth
      rw [Checker.check_eq]
      decide +kernel
    refine (hcheck (tree 0) (tree 7) rfl).resolve_left ?_
    rintro ⟨metrics, hmetrics, -⟩
    rw [hfirst] at hmetrics
    cases hmetrics

/-! ## Outlines of sources -/

/-- The outline of a source is that of the tree of its tokens. -/
theorem outlineSource_eq_ok_iff {source text : String} :
    outlineSource source = .ok text ↔ ∃ tokens tree, tokenize source = .ok tokens ∧
      parse tokens = .ok tree ∧ tree.outline = text := by
  unfold outlineSource treeOfSource
  cases htokens : tokenize source with
  | error problem =>
    constructor
    · nofun
    · rintro ⟨_, _, ⟨⟩, _⟩
  | ok tokens =>
    show (Stage.grammatical.mark (parse tokens) >>= fun tree => pure tree.outline) = _ ↔ _
    cases htree : parse tokens with
    | error problem =>
      constructor
      · nofun
      · rintro ⟨_, _, ⟨⟩, htree', _⟩
        cases htree.symm.trans htree'
    | ok tree =>
      constructor
      · intro h
        exact ⟨tokens, tree, rfl, htree, Except.ok.inj h⟩
      · rintro ⟨_, _, ⟨⟩, htree', rfl⟩
        obtain rfl := Except.ok.inj (htree.symm.trans htree')
        rfl

/-- **Faithful outlines**. Two sources that have outlines have the same one exactly when they have
the same kinds and texts of tokens in the same order. -/
theorem outlineSource_eq_iff {source source' text text' : String}
    (h : outlineSource source = .ok text) (h' : outlineSource source' = .ok text') :
    text = text' ↔ ∃ tokens tokens', tokenize source = .ok tokens ∧
      tokenize source' = .ok tokens' ∧ tokens.map Token.content = tokens'.map Token.content := by
  obtain ⟨tokens, tree, htokens, htree, rfl⟩ := outlineSource_eq_ok_iff.mp h
  obtain ⟨tokens', tree', htokens', htree', rfl⟩ := outlineSource_eq_ok_iff.mp h'
  constructor
  · intro houtline
    obtain ⟨hderivation, -, -, hprint⟩ := parse_sound (tokenize_spelled htokens) htree
    obtain ⟨hderivation', -, -, hprint'⟩ := parse_sound (tokenize_spelled htokens') htree'
    -- the outline tells the bare tree, and that one prints the tokens
    have hbare : tree.bare = tree'.bare :=
      Node.bare_eq_of_outline hderivation.produced hderivation'.produced houtline
    refine ⟨tokens, tokens', htokens, htokens', ?_⟩
    rw [← hprint, ← hprint', ← Node.print_bare, hbare, Node.print_bare]
  · rintro ⟨_, _, hsame, hsame', hcontent⟩
    obtain rfl := Except.ok.inj (htokens.symm.trans hsame)
    obtain rfl := Except.ok.inj (htokens'.symm.trans hsame')
    have hparse := parse_of_content hcontent
    rw [htree, htree'] at hparse
    exact Node.outline_eq_of_bare (Except.ok.inj hparse)

/-- One program in two layouts. -/
theorem outlineSource_eq_iff_layouts :
    let text := "Program\n  Block\n    Stmt\n      Declaration\n        NormalDeclaration(num)\n"
      ++ "          Identifier(x)\n"
    let loose := "num // a number\n\tx ;\n"
    outlineSource "num x;" = .ok text ∧ outlineSource loose = .ok text ∧
      ∃ tokens tokens', tokenize "num x;" = .ok tokens ∧ tokenize loose = .ok tokens' ∧
        tokens.map Token.content = tokens'.map Token.content := by
  intro text loose
  have htight : outlineSource "num x;" = .ok text := by decide +kernel
  have hloose : outlineSource loose = .ok text := by decide +kernel
  exact ⟨htight, hloose, (outlineSource_eq_iff htight hloose).mp rfl⟩

end Census
