import Mathlib.Logic.Relation
import Census.Proofs.Check.Congruence
import Census.Proofs.Check.Findings
import Census.Proofs.Check.Relabeling

/-!
# Redundant parentheses and braces

Parentheses around a value and braces around a statement may be written or not, wherever the tree
does not become too deep by them. Each construct between the parentheses and the value has a rule of
its own, but without operators all of them only hand on what a visit to their part does, as long as
that is not to produce no type at all.

- `Node.wrap`, `NodeKind.ladder`: the constructs that are put around a tree.
- `Node.Redundant`: a value in parentheses, or a statement in braces.
- `Rule.HandsOn`: a construct that does nothing but to hand on what its part does.
- `Node.equivalent_wrap`: more constructs that hand on do not matter.
- `check_redundant`: a program that is written with more parentheses and braces.
-/

namespace Census

open Check

/-! ## Trees that are wrapped up -/

/-- The constructs of the given kinds around the tree, each the only part of the one before. -/
def Node.wrap (span : Span) (kinds : List NodeKind) (tree : Node) : Node :=
  kinds.foldr (fun kind inside => ⟨kind, [inside], span⟩) tree

/-- The constructs from an expression down to a value, without operators. -/
def NodeKind.ladder : List NodeKind :=
  [.expression, .logical [], .comparison none, .sum [], .product [], .signed [], .negation [],
    .value]

/-- A construct is written in parentheses or braces of its own. -/
inductive Node.Redundant : Node → Node → Prop where
  | parentheses {content : Node} {span : Span} :
      Redundant ⟨.value, [content], span⟩ ⟨.value, [content.wrap span NodeKind.ladder], span⟩
  | braces {content : Node} {span : Span} :
      Redundant ⟨.statement, [content], span⟩
        ⟨.statement, [content.wrap span [.block, .statement]], span⟩

theorem Node.height_wrap (span : Span) (kinds : List NodeKind) (tree : Node) :
    (tree.wrap span kinds).height = tree.height + kinds.length := by
  induction kinds with
  | nil => rfl
  | cons kind kinds ih =>
    show height ⟨kind, [tree.wrap span kinds], span⟩ = _
    rw [height, heightOfAll, heightOfAll, ih, Nat.max_zero, List.length_cons, Nat.add_assoc]

/-! ## Visits to lone parts -/

/-- The check never answers that there is no type. -/
def Check.Productive (check : Check (Option ValueType)) : Prop :=
  Proper check fun produced => produced.isSome = true

/-- To insist on a type that is always produced does nothing. -/
theorem Check.Productive.insist {check : Check (Option ValueType)} (h : Productive check)
    (node : Node) :
    (check >>= fun produced => typeOf produced node >>= fun type => pure (some type)) = check := by
  refine funext fun s => ?_
  show (check >>= _).run.run s = check.run.run s
  have hs := h s
  revert hs
  rw [Ends, run_bind]
  rcases check.run.run s with ⟨problem | _ | type, s'⟩
  · exact fun _ => rfl
  · intro hsome
    cases hsome
  · exact fun _ => rfl

namespace Rule

variable {visit : Visit} {kind : NodeKind} {part : Node} {span : Span}

theorem visitEach_lone : visitEach visit kind [part] = visit kind part := by
  simp [visitEach]

theorem comparison_lone :
    comparison visit ⟨kind, [part], span⟩ none = visitTyped visit kind part := by
  simp [comparison]

theorem stacked_lone (refused : ValueType) :
    stacked visit ⟨kind, [part], span⟩ [] refused = visit kind part := by
  show (visitEach visit kind [part] >>= fun produced => pure produced) = _
  rw [visitEach_lone, bind_pure]

/-- A construct of the kind does nothing but to hand on what its only part does, as long as that
has the property. -/
def HandsOn (P : Check (Option ValueType) → Prop) (kind : NodeKind) : Prop :=
  ∀ {visit : Visit} {parent : NodeKind} {part : Node} {span : Span}, P (visit kind part) →
    apply visit parent ⟨kind, [part], span⟩ = visit kind part

theorem handsOn_ladder (hkind : kind ∈ NodeKind.ladder) : HandsOn Productive kind := by
  intro visit parent part span h
  simp only [NodeKind.ladder, List.mem_cons, List.not_mem_nil, or_false] at hkind
  rcases hkind with rfl | rfl | rfl | rfl | rfl | rfl | rfl | rfl
  · exact visitEach_lone
  · exact visitEach_lone
  · -- the only construct of them that needs a type
    show (comparison visit _ none >>= fun type => pure (some type)) = _
    rw [comparison_lone, visitTyped, bind_assoc]
    exact h.insist part
  · exact visitEach_lone
  · exact visitEach_lone
  · exact stacked_lone .bool
  · exact stacked_lone .num
  · exact visitEach_lone

theorem handsOn_braces (hkind : kind ∈ [.block, .statement]) : HandsOn (fun _ => True) kind := by
  intro visit parent part span _
  simp only [List.mem_cons, List.not_mem_nil, or_false] at hkind
  rcases hkind with rfl | rfl <;> exact visitEach_lone

end Rule

namespace Node

variable {P : Check (Option ValueType) → Prop} {last : NodeKind} {span : Span}
  {tree tree' padded : Node} {tokens : List Token}

/-- A visit to constructs that hand on, one inside of the other, is one to what the last of them has
for its part. -/
theorem visitWithin_wrap {levels : Nat} (kinds : List NodeKind)
    (hkinds : ∀ kind ∈ kinds ++ [last], Rule.HandsOn P kind)
    (h : P (visitWithin levels last tree)) (parent : NodeKind) :
    visitWithin (levels + (kinds ++ [last]).length) parent (tree.wrap span (kinds ++ [last]))
      = visitWithin levels last tree := by
  induction kinds generalizing parent with
  | nil => exact hkinds last (by simp) h
  | cons kind kinds ih =>
    -- the visit to what is inside has the property as well, as it is the same one
    obtain ⟨hkind, hothers⟩ := List.forall_mem_cons.mp hkinds
    have hinside := ih hothers kind
    rw [← hinside]
    exact hkind (hinside ▸ h)

/-- Constructs that hand on may be put between a construct that does so too and its only part. -/
theorem equivalent_wrap (kinds : List NodeKind)
    (hkinds : ∀ kind ∈ kinds ++ [last], Rule.HandsOn P kind)
    (h : ∀ {levels}, tree.height ≤ levels → P (visitWithin levels last tree)) :
    Equivalent ⟨last, [tree], span⟩ ⟨last, [tree.wrap span (kinds ++ [last])], span⟩ where
  kind_eq := rfl
  span_eq := rfl
  visit_eq := by
    intro parent levels levels' hlevels hlevels'
    rw [height, heightOfAll, heightOfAll, Nat.max_zero] at hlevels hlevels'
    rw [height_wrap] at hlevels'
    obtain ⟨fewer, rfl⟩ : ∃ fewer, levels = fewer + 1 := ⟨levels - 1, by omega⟩
    obtain ⟨fewer', rfl⟩ : ∃ fewer', levels' = fewer' + (kinds ++ [last]).length + 1 :=
      ⟨levels' - ((kinds ++ [last]).length + 1), by omega⟩
    have hlow : tree.height ≤ fewer := by omega
    have hlow' : tree.height ≤ fewer' := by omega
    have hlast : Rule.HandsOn P last := hkinds last (by simp)
    have hwrap : visitWithin (fewer' + (kinds ++ [last]).length) last
        (tree.wrap span (kinds ++ [last])) = visitWithin fewer' last tree :=
      visitWithin_wrap kinds hkinds (h hlow') last
    calc visitWithin (fewer + 1) parent ⟨last, [tree], span⟩
        = visitWithin fewer last tree := hlast (h hlow)
      _ = visitWithin fewer' last tree := (Equivalent.refl tree).visit_eq last hlow hlow'
      _ = visitWithin (fewer' + (kinds ++ [last]).length) last
            (tree.wrap span (kinds ++ [last])) := hwrap.symm
      _ = visitWithin (fewer' + (kinds ++ [last]).length + 1) parent
            ⟨last, [tree.wrap span (kinds ++ [last])], span⟩ :=
          (hlast (hwrap ▸ h hlow')).symm

/-! ## Redundant constructs -/

/-- The only part of a value is visited to a type. -/
theorem productive_of_value {content : Node} {span : Span} {levels : Nat}
    (hderives : Derives .value ⟨.value, [content], span⟩ tokens)
    (hheight : content.height ≤ levels) :
    Productive (visitWithin levels .value content) := by
  have hlow : height ⟨.value, [content], span⟩ ≤ levels + 1 := by
    simpa [height, heightOfAll] using hheight
  have hvisit := (visitWithin_proper (levels + 1) .program hderives hlow).typed rfl
  rwa [show visitWithin (levels + 1) .program ⟨.value, [content], span⟩
    = visitWithin levels .value content from Rule.visitEach_lone] at hvisit

/-- What is written in parentheses or braces of its own is visited as without them. -/
theorem Redundant.equivalent {category : Category} (h : Redundant tree tree')
    (hderives : Derives category tree tokens) : Equivalent tree tree' := by
  cases h with
  | @parentheses content span =>
    obtain rfl : category = .value := hderives.1.symm
    exact equivalent_wrap NodeKind.ladder.dropLast (fun _ hkind => Rule.handsOn_ladder hkind)
      (productive_of_value hderives)
  | @braces content span =>
    have hbraces : ∀ kind ∈ [.block] ++ [.statement], Rule.HandsOn (fun _ => True) kind :=
      fun _ hkind => Rule.handsOn_braces hkind
    exact equivalent_wrap [.block] hbraces fun _ => trivial

theorem derives_lone {kind : NodeKind} {category : Category}
    (production : Production kind [.part category]) (h : Derives category tree tokens) :
    Derives kind.category ⟨kind, [tree], span⟩ tokens :=
  ⟨rfl, _, production, .lastTree h⟩

/-- What is written in parentheses or braces of its own is derived as without them. -/
theorem Redundant.keepsDerivations (h : Redundant tree tree') : KeepsDerivations tree tree' := by
  intro category tokens hderives
  obtain rfl : tree.kind.category = category := hderives.1
  cases h with
  | @parentheses content span =>
    have hnegation : Production (.negation []) [.part .value] := @Production.negation [] nofun
    have hsigned : Production (.signed []) [.part .negation] := @Production.signed [] nofun
    have hproduct : Production (.product []) [.part .signed] := @Production.product [] nofun
    have hsum : Production (.sum []) [.part .product] := @Production.sum [] nofun
    have hlogical : Production (.logical []) [.part .comparison] := @Production.logical [] nofun
    have hexpression : Derives .expression (content.wrap span NodeKind.ladder) tokens :=
      derives_lone .expression <| derives_lone hlogical <| derives_lone .operand <|
        derives_lone hsum <| derives_lone hproduct <| derives_lone hsigned <|
        derives_lone hnegation hderives
    exact ⟨⟨.leftParen, "(", {}⟩ :: (tokens ++ [⟨.rightParen, ")", {}⟩]), rfl, _, .parentheses,
      .mark rfl (.tree hexpression (.mark rfl .nil))⟩
  | @braces content span =>
    have hblock : Derives .block (content.wrap span [.block, .statement]) tokens :=
      derives_lone (.block 1) hderives
    exact ⟨⟨.leftBrace, "\x7b", {}⟩ :: (tokens ++ [⟨.rightBrace, "\x7d", {}⟩]), rfl, _, .braces,
      .mark rfl (.tree hblock (.mark rfl .nil))⟩

/-- Any number of redundant parentheses and braces. -/
theorem equivalent_of_redundant (hderives : Derives .program tree tokens)
    (hsteps : Relation.ReflTransGen (Rewrites Redundant) tree padded) :
    Equivalent tree padded := by
  -- each step starts at a derivation again
  suffices h : Equivalent tree padded ∧ ∃ tokens, Derives .program padded tokens from h.1
  induction hsteps with
  | refl => exact ⟨.refl tree, tokens, hderives⟩
  | tail _ hstep ih =>
    obtain ⟨hequivalent, inside, hderives⟩ := ih
    have hsame := (hstep.restrict hderives).lift Equivalent.refl
      (fun h => h.1.equivalent h.2.choose_spec) equivalent_mk
    exact ⟨hequivalent.trans hsame, hstep.derives Redundant.keepsDerivations _ _ hderives⟩

end Node

section Programs

variable {tokens : List Token} {tree padded tree' : Node}

/-- **Parentheses and braces may be redundant**. When any number of values and statements of a
parsed program are put in parentheses and braces of their own, and no construct comes to lie too
deep by that, a check with a fresh checker ends as before: it accepts the same programs, it finds
the same problem up to spans otherwise, it has counted the same when it ends either way, and it has
declared the same names with the same types. -/
theorem check_redundant (hparse : parse tokens = .ok tree)
    (hsteps : Relation.ReflTransGen (Node.Rewrites Node.Redundant) tree padded)
    (hspans : tree'.bare = padded.bare)
    (hdepth : ∀ entry ∈ tree'.preorder 0, entry.1 ≤ depthLimit) :
    let outcome := Checker.check {} tree
    let outcome' := Checker.check {} tree'
    outcome'.1.mapError (Diagnostic.relabel .unplaced)
        = outcome.1.mapError (Diagnostic.relabel .unplaced) ∧
      outcome'.2.metrics = outcome.2.metrics ∧
      outcome'.2.symbols.entries.map (fun symbol => (symbol.name, symbol.type))
        = outcome.2.symbols.entries.map fun symbol => (symbol.name, symbol.type) := by
  have hheight : tree'.height ≤ depthLimit + 1 := by
    simpa using Node.forall_preorder_le_iff.mp hdepth
  have hpadded : padded.height ≤ depthLimit + 1 := by
    rwa [← Node.height_bare, ← hspans, Node.height_bare]
  have hequivalent := Node.equivalent_of_redundant (parse_ok hparse).1 hsteps
  intro outcome outcome'
  have hsame : outcome = Checker.check {} padded :=
    hequivalent.check_eq (Nat.le_succ_of_le (height_le_depthLimit hparse)) hpadded {}
  obtain ⟨hanswer, hstate⟩ := Prod.mk.inj (Checker.check_bare hspans {})
  rw [← hsame] at hanswer hstate
  have hmetrics := congrArg Checker.metrics hstate
  refine ⟨hanswer, hmetrics, ?_⟩
  rw [← Checker.signatures_relabel_unplaced, hstate, Checker.signatures_relabel_unplaced]

/-- A content of the wrong type is assigned, at first plainly, then in parentheses and in braces. -/
theorem check_redundant_assignment :
    let declares : Node := ⟨.statement, [⟨.declaration, [⟨.scalarDeclaration "num",
      [⟨.identifier "x", [], {}⟩], {}⟩], {}⟩], {}⟩
    let assigns (content : Node) : Node := ⟨.statement, [⟨.assignment,
      [⟨.identifier "x", [], {}⟩, content.wrap {} NodeKind.ladder], {}⟩], {}⟩
    let program (statement : Node) : Node := ⟨.program, [⟨.block, [declares, statement], {}⟩], {}⟩
    let truth : Node := ⟨.boolean true, [], {}⟩
    let tokens : List Token := [⟨.numKeyword, "num", {}⟩, ⟨.identifier, "x", {}⟩,
      ⟨.semicolon, ";", {}⟩, ⟨.identifier, "x", {}⟩, ⟨.assign, "=", {}⟩,
      ⟨.trueKeyword, "true", {}⟩, ⟨.semicolon, ";", {}⟩]
    let tree := program (assigns truth)
    let tree' := program ⟨.statement,
      [⟨.block, [assigns (truth.wrap {} NodeKind.ladder)], {}⟩], {}⟩
    parse tokens = .ok tree ∧
      Relation.ReflTransGen (Node.Rewrites Node.Redundant) tree tree' ∧
      (Checker.check {} tree').1.mapError (Diagnostic.relabel .unplaced)
        = .error (.assignmentTypeMismatch "x" .num .bool {}) ∧
      (Checker.check {} tree').2.metrics = (Checker.check {} tree).2.metrics := by
  intro declares assigns program truth tokens tree tree'
  have hparse : parse tokens = .ok tree := (parse_eq tokens).trans rfl
  have hparentheses : (assigns truth).Rewrites Node.Redundant
      (assigns (truth.wrap {} NodeKind.ladder)) :=
    @Node.Rewrites.inside _ _ [] [] _ _ _ <| @Node.Rewrites.inside _ _ [_] [] _ _ _ <|
      @Node.Rewrites.inside _ _ [] [] _ _ _ <| @Node.Rewrites.inside _ _ [] [] _ _ _ <|
      @Node.Rewrites.inside _ _ [] [] _ _ _ <| @Node.Rewrites.inside _ _ [] [] _ _ _ <|
      @Node.Rewrites.inside _ _ [] [] _ _ _ <| @Node.Rewrites.inside _ _ [] [] _ _ _ <|
      @Node.Rewrites.inside _ _ [] [] _ _ _ <| .here .parentheses
  have hprogram {statement statement' : Node} (h : statement.Rewrites Node.Redundant statement') :
      (program statement).Rewrites Node.Redundant (program statement') :=
    @Node.Rewrites.inside _ _ [] [] _ _ _ <| @Node.Rewrites.inside _ _ [_] [] _ _ _ h
  have hsteps : Relation.ReflTransGen (Node.Rewrites Node.Redundant) tree tree' :=
    (Relation.ReflTransGen.single (hprogram hparentheses)).tail (hprogram (.here .braces))
  have hfails : (Checker.check {} tree).1.mapError (Diagnostic.relabel .unplaced)
      = .error (.assignmentTypeMismatch "x" .num .bool {}) := by
    decide +kernel
  obtain ⟨hanswer, hmetrics, -⟩ := check_redundant hparse hsteps rfl (by decide)
  exact ⟨hparse, hsteps, hanswer.trans hfails, hmetrics⟩

end Programs

end Census
