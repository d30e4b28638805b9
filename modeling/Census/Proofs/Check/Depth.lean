import Census.Proofs.Check.Steps

/-!
# Walks of limited depth

A walker counts its depth up and down in its state. However a visit ends, it leaves the depth as it
was, so a visit may as well be told how many levels are left to it. That is the form in which proofs
are about visits.

- `visitWithin`, `checkProgram`: visits and checks that are told how many levels are left.
- `Check.Follows`: a check of a walker that does what a check of its checker does.
- `Walker.visit_follows`: a walker's visits are those with the levels left at its depth.
- `Walker.visit_eq`: what a visit is, whatever its fuel.
- `Walker.check_eq`, `Checker.check_eq`: so the checks are the same.
- `visitWithin_extends`: a visit that does not come to the limit may as well have more levels.
-/

namespace Census

/-- Visits a node of which `levels` levels may be walked, its own included. -/
def visitWithin : (levels : Nat) → Visit
  | 0 => fun _ node => Check.malformed .tooDeep node.span
  | levels + 1 => Rule.apply (visitWithin levels)

/-- Checks a whole program and answers all that has been counted so far. -/
def checkProgram (tree : Node) : Check Metrics := checkProgramBy (visitWithin depthLimit) tree

/-- The walk over a program, without the look at the metrics in the end. -/
def walkProgram (tree : Node) : Check Unit := walkProgramBy (visitWithin depthLimit) tree

/-- A check of a program walks over it and answers what is counted then. -/
theorem run_checkProgram (tree : Node) (s : Checker) :
    (checkProgram tree).run.run s
      = let outcome := (walkProgram tree).run.run s
        (outcome.1.map fun _ => outcome.2.metrics, outcome.2) :=
  run_checkProgramBy _ tree s

section Walks

variable {P : {α : Type} → Check α → Check α → Prop} (hP : Check.Inherited P)
include hP

theorem visitWithin_inherits (levels : Nat) (parent : NodeKind) (node : Node) :
    P (visitWithin levels parent node) (visitWithin levels parent node) := by
  induction levels generalizing parent node with
  | zero => exact hP.malformed _ _
  | succ levels ih => exact Rule.apply_inherits hP ih parent node

theorem walkProgram_inherits (tree : Node) : P (walkProgram tree) (walkProgram tree) :=
  walkProgramBy_inherits hP (visitWithin_inherits hP depthLimit) tree

end Walks

/-! ## More levels -/

namespace Check

variable {α β : Type}

/-- The walk has come to its limit. -/
def CutOff (outcome : Except Diagnostic α) : Prop :=
  ∃ span, outcome = .error (.malformedTree Malformation.tooDeep.message span)

/-- The first check does what the second one does, unless it comes to the limit. -/
def Extends (check check' : Check α) : Prop :=
  ∀ s, CutOff (check.run.run s).1 ∨ check.run.run s = check'.run.run s

theorem Extends.bind {check check' : Check α} {next next' : α → Check β}
    (h : Extends check check') (hnext : ∀ answer, Extends (next answer) (next' answer)) :
    Extends (check >>= next) (check' >>= next') := by
  intro s
  rw [run_bind, run_bind]
  rcases h s with hcut | hsame
  · obtain ⟨span, hspan⟩ := hcut
    rcases hrun : check.run.run s with ⟨_, between⟩
    rw [hrun] at hspan
    subst hspan
    exact .inl ⟨span, rfl⟩
  · rw [hsame]
    rcases check'.run.run s with ⟨problem | answer, between⟩
    · exact .inr rfl
    · exact hnext answer between

theorem inherited_extends :
    Inherited (Extends : {α : Type} → Check α → Check α → Prop) where
  pure _ _ := .inr rfl
  throw _ _ := .inr rfl
  bind := Extends.bind
  lookupType _ _ _ := .inr rfl
  count _ _ _ _ := .inr rfl
  declare _ _ _ _ := .inr rfl

end Check

/-- More levels change nothing where the limit is not reached. -/
theorem visitWithin_extends {levels levels' : Nat} (hlevels : levels ≤ levels')
    (parent : NodeKind) (node : Node) :
    Check.Extends (visitWithin levels parent node) (visitWithin levels' parent node) := by
  induction levels generalizing levels' parent node with
  | zero => exact fun _ => .inl ⟨node.span, rfl⟩
  | succ levels ih =>
    obtain ⟨more, rfl⟩ := Nat.exists_eq_add_of_le hlevels
    rw [Nat.add_right_comm]
    have hbelow := ih (Nat.le_add_right levels more)
    exact Rule.apply_inherits Check.inherited_extends hbelow parent node

/-! ## The depth of walkers -/

namespace Check

variable {α β : Type} {depth : Nat}

/-- At this depth, the walker's check has the outcome of the checker's and leaves what that one
leaves, at the same depth. -/
def Follows (depth : Nat) (check : CheckOn Walker α) (check' : Check α) : Prop :=
  ∀ s : Checker, check.run.run ⟨s, depth⟩
    = let outcome := check'.run.run s
      (outcome.1, ⟨outcome.2, depth⟩)

theorem Follows.bind {check : CheckOn Walker α} {check' : Check α} {next : α → CheckOn Walker β}
    {next' : α → Check β} (h : Follows depth check check')
    (hnext : ∀ answer, Follows depth (next answer) (next' answer)) :
    Follows depth (check >>= next) (check' >>= next') := by
  intro s
  rw [run_bind, run_bind, h s]
  rcases check'.run.run s with ⟨problem | answer, s'⟩
  · rfl
  · exact hnext answer s'

/-- No step looks at the depth. -/
theorem inherited_follows (depth : Nat) : Inherited (Follows depth) where
  pure _ _ := rfl
  throw _ _ := rfl
  bind := Follows.bind
  lookupType name span s := by
    rw [run_lookupType, Check.lookupType, run_get_bind, Walker.checker_mk]
    cases s.symbols.lookupType name span <;> rfl
  count _ _ _ _ := rfl
  declare name type span s := by
    rw [run_declare, Check.declare, run_get_bind, Walker.checker_mk, SymbolTable.declare]
    cases s.symbols.lookup? name <;> rfl

end Check

namespace Walker

open Check

variable {depth : Nat} {parent : NodeKind} {node : Node} {inside : VisitOn Walker}

/-- A visit that the walker is not too deep for follows the rule of its node one level deeper, and
comes back up. -/
theorem run_visitBy (s : Checker) (hdepth : depth < depthLimit) :
    (visitBy inside parent node).run.run ⟨s, depth⟩
      = let outcome := (Rule.apply inside parent node).run.run ⟨s, depth + 1⟩
        (outcome.1, { outcome.2 with depth := outcome.2.depth - 1 }) := by
  have hguard : ¬ depthLimit ≤ (⟨s, depth⟩ : Walker).depth := Nat.not_le.mpr hdepth
  rw [visitBy, run_get_bind, if_neg hguard, run_bind]
  show (ExceptT.lift (Rule.apply inside parent node).run >>= _).run.run ⟨s, depth + 1⟩ = _
  rw [run_bind, ExceptT.run_lift, StateT.run_map]
  rcases (Rule.apply inside parent node).run.run ⟨s, depth + 1⟩ with ⟨_ | _, _⟩ <;> rfl

/-- A visit has the levels that are left at its depth, if the visits inside of it have those left
one level deeper. -/
theorem visitBy_follows (h : depth < depthLimit → ∀ parent node, Follows (depth + 1)
      (inside parent node) (visitWithin (depthLimit - (depth + 1)) parent node)) :
    Follows depth (visitBy inside parent node) (visitWithin (depthLimit - depth) parent node) := by
  intro s
  rcases Nat.lt_or_ge depth depthLimit with hdepth | hdepth
  · have hlevels : depthLimit - depth = depthLimit - (depth + 1) + 1 := by omega
    rw [hlevels, run_visitBy s hdepth,
      Rule.apply_inherits (inherited_follows (depth + 1)) (h hdepth) parent node s]
    rfl
  · have hguard : depthLimit ≤ (⟨s, depth⟩ : Walker).depth := hdepth
    rw [Nat.sub_eq_zero_of_le hdepth, visitBy, run_get_bind, if_pos hguard]
    rfl

theorem visitsBy_follows {fuel : Nat} (hfuel : depthLimit < depth + fuel) :
    Follows depth (visitsBy fuel parent node) (visitWithin (depthLimit - depth) parent node) := by
  induction fuel generalizing depth parent node with
  | zero =>
    rw [Nat.sub_eq_zero_of_le (show depthLimit ≤ depth from Nat.le_of_lt hfuel)]
    exact (inherited_follows depth).malformed _ _
  | succ fuel ih => exact visitBy_follows fun _ parent node => ih (by omega)

/-- A walker's visits have the levels that are left at its depth. -/
theorem visit_follows :
    Follows depth (visit parent node) (visitWithin (depthLimit - depth) parent node) :=
  visitsBy_follows (Nat.lt_of_lt_of_le (Nat.lt_succ_self _) (Nat.le_add_left _ _))

/-- The fuel never runs out: a visit is what its body says, with visits inside. -/
theorem visit_eq : visit = visitBy visit := by
  funext parent node
  refine funext fun ⟨s, depth⟩ => ?_
  exact (visit_follows s).trans (visitBy_follows (fun _ _ _ => visit_follows) s).symm

/-- A check that begins at the root of a tree does not stay in the tree. -/
theorem check_mk (s : Checker) (tree : Node) :
    check ⟨s, 0⟩ tree
      = let outcome := (checkProgram tree).run.run s
        (outcome.1, ⟨outcome.2, 0⟩) := by
  have hwalk : Follows 0 (walkProgramBy visit tree) (walkProgram tree) :=
    walkProgramBy_inherits (inherited_follows 0) (fun _ _ => visit_follows) tree
  rw [check, run_checkProgramBy, run_checkProgram, hwalk s]
  rfl

end Walker

/-- The check of a checker has the walk that is told its levels. -/
theorem Checker.check_eq (s : Checker) (tree : Node) :
    s.check tree = (checkProgram tree).run.run s := by
  rw [check, Walker.check_mk]
  rfl

theorem Checker.succeeds_of_check {s : Checker} {tree : Node} {metrics : Metrics}
    (h : (s.check tree).1 = .ok metrics) :
    Check.Succeeds (checkProgram tree) s metrics (s.check tree).2 := by
  rw [check_eq] at h ⊢
  exact Prod.ext h rfl

theorem Walker.check_eq (s : Checker) (tree : Node) :
    Walker.check ⟨s, 0⟩ tree = ((s.check tree).1, ⟨(s.check tree).2, 0⟩) := by
  rw [check_mk, Checker.check_eq]

end Census
