import Census.Proofs.Check.Congruence

/-!
# Walks without a limit

A tour is the same walk as a check, but it goes as deep as the tree does, and it notes every node
that it visits and how deep that lies. Up to the first node beyond the limit, the check and the tour
take the same steps. So the limit shows only where the tour comes to such a node.

- `Tour`, `Tour.check`: walks without a limit; `Tour.visitAt_eq`: what a visit does.
- `Tour.NotesIn`: the nodes that a tour notes are nodes of its tree.
- `Check.Guards`: a check does what a tour does, or stops where that goes too deep.
- `Walker.check_limits_tour`: what the limit changes.
-/

namespace Census

open Check

/-- A checker on a walk, and the nodes it has visited with their depths, in order. -/
structure Tour extends Checker where
  visited : List (Nat × Node) := []

instance : Holds Tour where
  checker := Tour.toChecker
  update change tour := { tour with toChecker := change tour.toChecker }

namespace Tour

@[simp] theorem checker_tour (tour : Tour) : Holds.checker tour = tour.toChecker := rfl

/-- Notes that a node is visited. -/
def note (depth : Nat) (node : Node) : CheckOn Tour Unit :=
  modify fun tour => { tour with visited := tour.visited ++ [(depth, node)] }

/-- Visits at a depth and below it, as many inside of each other as there is fuel for. -/
def visits : (fuel depth : Nat) → VisitOn Tour
  | 0, _ => fun _ _ => return none
  | fuel + 1, depth => fun parent node => do
    note depth node
    Rule.apply (visits fuel (depth + 1)) parent node

/-- Visits a node that lies at the depth, and all below it. A tree has no more levels than its
height. -/
def visitAt (depth : Nat) : VisitOn Tour := fun parent node => visits node.height depth parent node

/-- Checks a program as a walker does, but for the limit: the parts of the root lie one level below
it. -/
def check (s : Checker) (tree : Node) : Except Diagnostic Metrics × Tour :=
  (checkProgramBy (visitAt 1) tree).run.run ⟨s, []⟩

variable {depth : Nat} {parent : NodeKind} {node : Node} {allowed : List (Nat × Node)}

/-- Fuel that is left over does not matter. -/
theorem visits_eq_visits {fuel fuel' : Nat} (h : node.height ≤ fuel) (h' : node.height ≤ fuel') :
    visits fuel depth parent node = visits fuel' depth parent node := by
  induction node using Node.induction generalizing fuel fuel' depth parent with
  | step kind children span ih =>
    obtain ⟨fewer, rfl⟩ := Node.exists_levels h
    obtain ⟨fewer', rfl⟩ := Node.exists_levels h'
    have hparts : List.Forall₂ (Rule.StandsFor (visits fewer (depth + 1))
        (visits fewer' (depth + 1)) kind) children children :=
      List.forall₂_same.mpr fun child hchild =>
        ⟨rfl, rfl, ih child hchild (Node.height_le_of_mem h child hchild)
          (Node.height_le_of_mem h' child hchild)⟩
    rw [visits, visits]
    dsimp only
    rw [Rule.apply_congr hparts parent]

/-- The fuel never runs out: a visit notes its node and goes on inside, one level deeper. -/
theorem visitAt_eq :
    visitAt depth parent node
      = (do note depth node; Rule.apply (visitAt (depth + 1)) parent node) := by
  obtain ⟨kind, children, span⟩ := node
  have hparts : List.Forall₂ (Rule.StandsFor (visits (Node.heightOfAll children) (depth + 1))
      (visitAt (depth + 1)) kind) children children :=
    List.forall₂_same.mpr fun child hchild =>
      ⟨rfl, rfl, visits_eq_visits (Node.heightOfAll_le_iff.mp (Nat.le_refl _) child hchild)
        (Nat.le_refl _)⟩
  rw [← Rule.apply_congr hparts parent]
  rfl

/-- A visit first takes note of its node, then does what the rule says. -/
theorem run_visitAt (tour : Tour) :
    (visitAt depth parent node).run.run tour
      = (Rule.apply (visitAt (depth + 1)) parent node).run.run
        { tour with visited := tour.visited ++ [(depth, node)] } := by
  rw [visitAt_eq]
  rfl

/-! ## Notes -/

/-- The check only notes nodes that are allowed, behind those that were noted before. -/
def NotesIn (allowed : List (Nat × Node)) {α : Type} (check : CheckOn Tour α) : Prop :=
  ∀ tour : Tour, ∃ notes ⊆ allowed, (check.run.run tour).2.visited = tour.visited ++ notes

/-- Checks in a row take notes in a row. -/
theorem NotesIn.bind {α β : Type} {check : CheckOn Tour α} {next : α → CheckOn Tour β}
    (h : NotesIn allowed check) (hnext : ∀ answer, NotesIn allowed (next answer)) :
    NotesIn allowed (check >>= next) := by
  intro tour
  obtain ⟨notes, hnotes, hvisited⟩ := h tour
  rw [run_bind]
  rcases hrun : check.run.run tour with ⟨problem | answer, between⟩ <;> rw [hrun] at hvisited
  · exact ⟨notes, hnotes, hvisited⟩
  · obtain ⟨more, hmore, hafter⟩ := hnext answer between
    refine ⟨notes ++ more, List.append_subset.mpr ⟨hnotes, hmore⟩, ?_⟩
    rw [← List.append_assoc, ← hvisited]
    exact hafter

/-- A step that takes no notes takes none that is not allowed. -/
theorem notesIn_of_same {α : Type} {check : CheckOn Tour α}
    (h : ∀ tour : Tour, (check.run.run tour).2.visited = tour.visited) : NotesIn allowed check :=
  fun tour => ⟨[], List.nil_subset _, by rw [h tour, List.append_nil]⟩

/-- The steps of checks do not note anything. -/
theorem inherited_notesIn (allowed : List (Nat × Node)) :
    Inherited fun (check : CheckOn Tour _) (_ : CheckOn Tour _) => NotesIn allowed check where
  pure _ := notesIn_of_same fun _ => rfl
  throw _ := notesIn_of_same fun _ => rfl
  bind := NotesIn.bind
  lookupType name span := notesIn_of_same fun tour => by
    rw [lookupType, run_get_bind]
    cases (Holds.checker tour).symbols.lookupType name span <;> rfl
  count _ _ _ := notesIn_of_same fun _ => rfl
  declare name type span := notesIn_of_same fun tour => by
    rw [declare, run_get_bind]
    cases (Holds.checker tour).symbols.declare name type span <;> rfl

theorem NotesIn.mono {α : Type} {check : CheckOn Tour α} {allowed' : List (Nat × Node)}
    (h : NotesIn allowed check) (hsub : allowed ⊆ allowed') : NotesIn allowed' check := fun tour =>
  let ⟨notes, hnotes, hvisited⟩ := h tour
  ⟨notes, List.Subset.trans hnotes hsub, hvisited⟩

/-- What is noted below a construct comes from its parts. -/
theorem apply_notesIn {kind : NodeKind} {children : List Node} {span : Span}
    (h : ∀ part ∈ children, NotesIn (part.preorder (depth + 1)) (visitAt (depth + 1) kind part)) :
    NotesIn (children.flatMap (Node.preorder (depth + 1)))
      (Rule.apply (visitAt (depth + 1)) parent ⟨kind, children, span⟩) :=
  Rule.apply_inherits_of_parts (inherited_notesIn _) (fun part hpart => (h part hpart).mono
    fun _ hentry => List.mem_flatMap.mpr ⟨part, hpart, hentry⟩) parent

/-- The nodes that a visit notes are those of the tree, at their depths. -/
theorem visitAt_notesIn : NotesIn (node.preorder depth) (visitAt depth parent node) := by
  induction node using Node.induction generalizing depth parent with
  | step kind children span ih =>
    intro tour
    obtain ⟨notes, hnotes, hvisited⟩ :=
      apply_notesIn (fun part hpart => ih part hpart) { tour with visited := _ }
    rw [run_visitAt, Node.preorder_mk]
    exact ⟨_ :: notes, List.cons_subset_cons _ hnotes, by rw [hvisited]; simp⟩

/-- A visit notes its own node first. -/
theorem exists_notes_of_visitAt (tour : Tour) :
    ∃ notes, ((visitAt depth parent node).run.run tour).2.visited
      = tour.visited ++ (depth, node) :: notes := by
  obtain ⟨kind, children, span⟩ := node
  obtain ⟨notes, -, hvisited⟩ :=
    apply_notesIn (fun part _ => visitAt_notesIn) { tour with visited := _ }
  rw [run_visitAt]
  exact ⟨notes, by rw [hvisited]; simp⟩

end Tour

/-! ## The limit -/

/-- The first of some noted nodes that lies beyond the limit. -/
def beyond? (notes : List (Nat × Node)) : Option (Nat × Node) :=
  notes.find? fun entry => depthLimit < entry.1

theorem beyond?_append (notes more : List (Nat × Node)) :
    beyond? (notes ++ more) = (beyond? notes).or (beyond? more) := List.find?_append

/-- No note is beyond the limit if all are within it. -/
theorem beyond?_eq_none_iff {notes : List (Nat × Node)} :
    beyond? notes = none ↔ ∀ entry ∈ notes, entry.1 ≤ depthLimit := by
  simp [beyond?]

namespace Check

variable {α β : Type}

/-- The check does what the tour does, unless that notes a node beyond the limit: then the check
fails at the first such node. -/
def Guards (tour : CheckOn Tour α) (check : Check α) : Prop :=
  ∀ s : Tour, ∃ notes, (tour.run.run s).2.visited = s.visited ++ notes ∧
    (beyond? notes = none →
      check.run.run s.toChecker = ((tour.run.run s).1, (tour.run.run s).2.toChecker)) ∧
    ∀ entry, beyond? notes = some entry → (check.run.run s.toChecker).1
      = .error (.malformedTree Malformation.tooDeep.message entry.2.span)

/-- If the first check stays within the limit, the second one starts from the same state; if not,
the failure is known. -/
theorem Guards.bind {tour : CheckOn Tour α} {check : Check α} {next : α → CheckOn Tour β}
    {next' : α → Check β} (h : Guards tour check)
    (hnext : ∀ answer, Guards (next answer) (next' answer)) :
    Guards (tour >>= next) (check >>= next') := by
  intro s
  obtain ⟨notes, hnotes, hsame, hdeep⟩ := h s
  -- what the tour does behind a node beyond the limit does not matter
  have hfails (entry : Nat × Node) (hentry : beyond? notes = some entry) :
      ((check >>= next').run.run s.toChecker).1
        = .error (.malformedTree Malformation.tooDeep.message entry.2.span) := by
    have herror := hdeep entry hentry
    rw [run_bind]
    rcases hrun : check.run.run s.toChecker with ⟨problem | answer, between⟩ <;>
      rw [hrun] at herror
    · exact congrArg Except.error (Except.error.inj herror)
    · cases herror
  rw [run_bind]
  rcases hrun : tour.run.run s with ⟨problem | answer, between⟩ <;> rw [hrun] at hnotes hsame
  · exact ⟨notes, hnotes, fun hnone => by rw [run_bind, hsame hnone], hfails⟩
  · obtain ⟨more, hmore, hsame', hdeep'⟩ := hnext answer between
    refine ⟨notes ++ more, by rw [← List.append_assoc, ← hnotes]; exact hmore, ?_⟩
    rw [beyond?_append]
    cases hfirst : beyond? notes with
    | some entry =>
      refine ⟨fun hnone => by simp at hnone, fun entry' hentry' => ?_⟩
      obtain rfl : entry = entry' := by simpa using hentry'
      exact hfails entry hfirst
    | none =>
      rw [run_bind, hsame hfirst]
      exact ⟨hsame', hdeep'⟩

theorem guards_of_same {tour : CheckOn Tour α} {check : Check α}
    (h : ∀ s : Tour, (tour.run.run s).2.visited = s.visited ∧
      check.run.run s.toChecker = ((tour.run.run s).1, (tour.run.run s).2.toChecker)) :
    Guards tour check := fun s =>
  ⟨[], by rw [(h s).1, List.append_nil], fun _ => (h s).2, fun _ hentry => by cases hentry⟩

/-- Steps without visits take no notes and do the same. -/
theorem inherited_guards :
    Inherited (Guards : {α : Type} → CheckOn Tour α → Check α → Prop) where
  pure _ := guards_of_same fun _ => ⟨rfl, rfl⟩
  throw _ := guards_of_same fun _ => ⟨rfl, rfl⟩
  bind := Guards.bind
  lookupType name span := guards_of_same fun s => by
    rw [run_lookupType, lookupType, run_get_bind, Tour.checker_tour]
    cases s.symbols.lookupType name span <;> exact ⟨rfl, rfl⟩
  count _ _ _ := guards_of_same fun _ => ⟨rfl, rfl⟩
  declare name type span := guards_of_same fun s => by
    rw [run_declare, declare, run_get_bind, Tour.checker_tour, SymbolTable.declare]
    cases s.symbols.lookup? name <;> exact ⟨rfl, rfl⟩

end Check

/-- A visit with the levels that are left at its depth, and a visit without a limit. -/
theorem visitAt_guards {levels depth : Nat} (hlevels : depth + levels = depthLimit + 1)
    (parent : NodeKind) (node : Node) :
    Check.Guards (Tour.visitAt depth parent node) (visitWithin levels parent node) := by
  induction levels generalizing depth parent node with
  | zero =>
    intro s
    have hbeyond : depthLimit < depth := by omega
    obtain ⟨notes, hnotes⟩ : ∃ notes, ((Tour.visitAt depth parent node).run.run s).2.visited
        = s.visited ++ (depth, node) :: notes := Tour.exists_notes_of_visitAt s
    have hfirst : beyond? ((depth, node) :: notes) = some (depth, node) := by
      simp [beyond?, hbeyond]
    refine ⟨(depth, node) :: notes, hnotes, fun hnone => ?_, fun entry hentry => ?_⟩
    · cases hfirst.symm.trans hnone
    · cases hfirst.symm.trans hentry
      rfl
  | succ levels ih =>
    intro s
    have hwithin : ¬ depthLimit < depth := by omega
    have hbelow := ih (show depth + 1 + levels = depthLimit + 1 by omega)
    obtain ⟨notes, hnotes, hsame, hdeep⟩ := Rule.apply_inherits Check.inherited_guards hbelow parent
      node { s with visited := s.visited ++ [(depth, node)] }
    have hfirst : beyond? ((depth, node) :: notes) = beyond? notes := by
      simp [beyond?, hwithin]
    rw [Tour.run_visitAt]
    refine ⟨(depth, node) :: notes, by rw [hnotes]; simp, ?_⟩
    rw [hfirst]
    exact ⟨hsame, hdeep⟩

/-- The parts of the root are at depth one. -/
theorem walkProgram_guards (tree : Node) :
    Check.Guards (walkProgramBy (Tour.visitAt 1) tree) (walkProgram tree) :=
  walkProgramBy_inherits Check.inherited_guards
    (fun _ _ => visitAt_guards (Nat.add_comm _ _) _ _) tree

/-- The root itself is not visited, its parts are. -/
theorem Tour.walk_notesIn (tree : Node) :
    NotesIn (tree.preorder 0) (walkProgramBy (visitAt 1) tree) := by
  obtain ⟨kind, children, span⟩ := tree
  by_cases hkind : kind = .program
  · subst hkind
    have hparts : NotesIn (children.flatMap (Node.preorder 1))
        (Rule.apply (visitAt 1) .program ⟨.program, children, span⟩) :=
      apply_notesIn fun _ _ => visitAt_notesIn
    have hrow : NotesIn (Node.preorder 0 ⟨.program, children, span⟩)
        (Rule.visitChildren (visitAt 1) ⟨.program, children, span⟩) := by
      rw [Node.preorder_mk]
      exact hparts.mono (List.subset_cons_self _ _)
    exact hrow.bind fun _ => (inherited_notesIn _).pure ()
  · unfold walkProgramBy
    rw [if_neg hkind]
    exact (inherited_notesIn _).malformed _ _

theorem Tour.check_eq (s : Checker) (tree : Node) :
    check s tree
      = let outcome := (walkProgramBy (visitAt 1) tree).run.run ⟨s, []⟩
        (outcome.1.map fun _ => outcome.2.metrics, outcome.2) :=
  run_checkProgramBy _ tree _

/-- Only nodes of the tree are visited, each at its own depth. -/
theorem Tour.visited_check_subset (s : Checker) (tree : Node) :
    (check s tree).2.visited ⊆ tree.preorder 0 := by
  obtain ⟨notes, hnotes, hvisited⟩ := walk_notesIn tree ⟨s, []⟩
  rw [check_eq]
  dsimp only
  rwa [hvisited]

/-- A walker stops at the first node beyond the limit, and does what a tour does if there is
none. -/
theorem Walker.check_of_tour (s : Checker) (tree : Node) :
    let tour := Tour.check s tree
    (beyond? tour.2.visited = none → check ⟨s, 0⟩ tree = (tour.1, ⟨tour.2.toChecker, 0⟩)) ∧
      ∀ entry, beyond? tour.2.visited = some entry → (check ⟨s, 0⟩ tree).1
        = .error (.malformedTree Malformation.tooDeep.message entry.2.span) := by
  obtain ⟨notes, hnotes, hsame, hdeep⟩ := walkProgram_guards tree ⟨s, []⟩
  rw [check_mk, run_checkProgram, Tour.check_eq]
  dsimp only at hsame hdeep ⊢
  rw [hnotes]
  refine ⟨fun hnone => ?_, fun entry hentry => ?_⟩
  · rw [hsame hnone]
  · rw [hdeep entry hentry]
    rfl

/-- **What the limit changes**. A tour visits nodes of the tree and takes them at their depths below
the root. Where no node of a tree lies beyond the limit, the check has the outcome of the tour and
leaves what the tour leaves. The same goes for every check that succeeds, and then the tour has
visited no node beyond the limit. If the tour visits such a node before it ends, the check fails at
the first one. In all cases the walker is back at the root in the end. -/
theorem Walker.check_limits_tour (s : Checker) (tree : Node) :
    let limited := check ⟨s, 0⟩ tree
    let tour := Tour.check s tree
    tour.2.visited ⊆ tree.preorder 0 ∧ limited.2.depth = 0 ∧
    ((∀ entry ∈ tree.preorder 0, entry.1 ≤ 1024) →
      limited = (tour.1, ⟨tour.2.toChecker, 0⟩)) ∧
    (∀ metrics, limited.1 = .ok metrics →
      limited = (tour.1, ⟨tour.2.toChecker, 0⟩) ∧ ∀ entry ∈ tour.2.visited, entry.1 ≤ 1024) ∧
    ∀ entry, (tour.2.visited.find? fun entry => 1024 < entry.1) = some entry →
      limited.1 = .error (.malformedTree "tree nesting exceeds 1024 levels" entry.2.span) := by
  intro limited tour
  have hvisited : tour.2.visited ⊆ tree.preorder 0 := Tour.visited_check_subset s tree
  have hdepth : limited.2.depth = 0 := congrArg (fun outcome => outcome.2.depth) (check_mk s tree)
  obtain ⟨hsame, hdeep⟩ := check_of_tour s tree
  refine ⟨hvisited, hdepth, fun hshallow => ?_, fun metrics hmetrics => ?_, hdeep⟩
  · exact hsame (beyond?_eq_none_iff.mpr fun entry hentry => hshallow entry (hvisited hentry))
  · cases hfirst : beyond? tour.2.visited with
    | none => exact ⟨hsame hfirst, beyond?_eq_none_iff.mp hfirst⟩
    | some entry => cases hmetrics.symm.trans (hdeep entry hfirst)

/-- Blocks inside of each other, each at a place that tells its depth. -/
def Node.nested (levels : Nat) : Node :=
  let place (depth : Nat) : Span := ⟨⟨1, depth + 1, depth⟩, ⟨1, depth + 1, depth⟩⟩
  ⟨.program, [(List.range levels).foldr (fun depth inside => ⟨.block, [inside], place (depth + 1)⟩)
    ⟨.block, [], place (levels + 1)⟩], place 0⟩

/-- A tree within the limit, and one that goes beyond it. -/
theorem Walker.check_limits_tour_nested :
    let shallow := Node.nested 3
    let deep := Node.nested 1030
    ((∀ entry ∈ shallow.preorder 0, entry.1 ≤ 1024) ∧
      (check ⟨{}, 0⟩ shallow).1 = .ok {} ∧
      check ⟨{}, 0⟩ shallow
        = ((Tour.check {} shallow).1, ⟨(Tour.check {} shallow).2.toChecker, 0⟩) ∧
      ∀ entry ∈ (Tour.check {} shallow).2.visited, entry.1 ≤ 1024) ∧
    ∃ entry, ((Tour.check {} deep).2.visited.find? fun entry => 1024 < entry.1) = some entry ∧
      entry.2.span = ⟨⟨1, 1026, 1025⟩, ⟨1, 1026, 1025⟩⟩ ∧
      (check ⟨{}, 0⟩ deep).1
        = .error (.malformedTree "tree nesting exceeds 1024 levels" entry.2.span) := by
  intro shallow deep
  have hshallow : ∀ entry ∈ shallow.preorder 0, entry.1 ≤ 1024 := by decide +kernel
  have hsuccess : (check ⟨{}, 0⟩ shallow).1 = .ok {} := by
    rw [check_mk]
    decide +kernel
  obtain ⟨-, -, hsame, hvisited, -⟩ := check_limits_tour {} shallow
  refine ⟨⟨hshallow, hsuccess, hsame hshallow, (hvisited {} hsuccess).2⟩, ?_⟩
  -- without the limit nothing is wrong, so a node beyond it is what the check fails at
  have htour : (Tour.check {} deep).1 = .ok {} := by decide +kernel
  have hcheck : (check ⟨{}, 0⟩ deep).1 = .error (.malformedTree "tree nesting exceeds 1024 levels"
      ⟨⟨1, 1026, 1025⟩, ⟨1, 1026, 1025⟩⟩) := by
    rw [check_mk]
    decide +kernel
  have hfind (notes : List (Nat × Node)) :
      (notes.find? fun entry => 1024 < entry.1) = beyond? notes := rfl
  rw [hfind]
  cases hfirst : beyond? (Tour.check {} deep).2.visited with
  | none =>
    have hsame : (check ⟨{}, 0⟩ deep).1 = (Tour.check {} deep).1 := by
      rw [(check_of_tour {} deep).1 hfirst]
    rw [hcheck, htour] at hsame
    cases hsame
  | some entry =>
    have hdeep := (check_limits_tour {} deep).2.2.2.2 entry ((hfind _).trans hfirst)
    have hspan := hcheck.symm.trans hdeep
    injection hspan with hspan
    injection hspan with _ hspan
    exact ⟨entry, rfl, hspan.symm, hdeep⟩

end Census
