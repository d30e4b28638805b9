import Census.Proofs.Check.Depth

/-!
# What checks keep

A check changes its state by declaring and counting, and in no other way. So a relation between
states that allows both holds between the states before and after every check, however it ends.

- `Check.Keeps`: a check moves the state along a relation.
- `Growth`: the relations that allow declaring and counting.
- `visitWithin_keeps`, `checkProgram_keeps`: they hold along every visit and every check.
-/

namespace Census

/-- A relation that allows what checks do to their state, any number of times. -/
structure Growth (R : Checker → Checker → Prop) : Prop where
  refl : ∀ s, R s s
  trans : ∀ {s s' s''}, R s s' → R s' s'' → R s s''
  /-- Counting something that is not declared. -/
  count : ∀ s counts, counts.declarations = 0 → R s { s with metrics := s.metrics + counts }
  /-- Declaring a new name. -/
  declare : ∀ s symbol, s.symbols.lookup? symbol.name = none →
    R s ⟨⟨s.symbols.entries ++ [symbol]⟩,
      { s.metrics with declarations := s.metrics.declarations + 1 }⟩

namespace Check

variable {α β : Type} {R : Checker → Checker → Prop}

/-- Whether the check succeeds or fails, the state after it is related to the one before. -/
def Keeps (R : Checker → Checker → Prop) (check : Check α) : Prop :=
  ∀ s, R s (check.run.run s).2

theorem Keeps.of_succeeds {check : Check α} {s s' : Checker} {answer : α} (h : Keeps R check)
    (hrun : Succeeds check s answer s') : R s s' := by
  have hs := h s
  rwa [hrun] at hs

section Steps

variable (hR : Growth R)
include hR

theorem Keeps.bind {check : Check α} {next : α → Check β} (h : Keeps R check)
    (hnext : ∀ answer, Keeps R (next answer)) : Keeps R (check >>= next) := by
  intro s
  rw [run_bind]
  have hs := h s
  rcases hrun : check.run.run s with ⟨diagnostic | first, between⟩
  · rw [hrun] at hs
    exact hs
  · rw [hrun] at hs
    exact hR.trans hs (hnext first between)

theorem keeps_lookupType (name : String) (span : Span) : Keeps R (lookupType name span) := by
  intro s
  rw [run_lookupType]
  exact hR.refl s

theorem keeps_declare (name : String) (type : ValueType) (span : Span) :
    Keeps R (declare name type span) := by
  intro s
  rw [run_declare]
  cases hlookup : s.symbols.lookup? name with
  | none => exact hR.declare s ⟨name, type, span⟩ hlookup
  | some earlier => exact hR.refl s

/-- Along what every step does, and so along rows of steps. -/
theorem inherited_keeps :
    Inherited (fun check _ => Keeps R check : {α : Type} → Check α → Check α → Prop) where
  pure _ := hR.refl
  throw _ := hR.refl
  bind h hnext := h.bind hR hnext
  lookupType := keeps_lookupType hR
  count counts hcounts hstep s := by
    have hcount := hR.count s counts hcounts
    rwa [← hstep] at hcount
  declare := keeps_declare hR

end Steps

end Check

variable {R : Checker → Checker → Prop}

/-- Along every row of visits, if along each of them. -/
theorem Rule.visitEach_keeps {visit : Visit} (hR : Growth R)
    (hvisit : ∀ parent node, Check.Keeps R (visit parent node)) (parent : NodeKind)
    (nodes : List Node) : Check.Keeps R (visitEach visit parent nodes) :=
  @visitEach_inherits Checker Checker _ _ _ visit visit (Check.inherited_keeps hR) hvisit parent
    nodes

/-- Along every visit. -/
theorem visitWithin_keeps (hR : Growth R) (levels : Nat) (parent : NodeKind) (node : Node) :
    Check.Keeps R (visitWithin levels parent node) :=
  visitWithin_inherits (Check.inherited_keeps hR) levels parent node

/-- Along every check of a program. -/
theorem checkProgram_keeps (hR : Growth R) (tree : Node) : (checkProgram tree).Keeps R := by
  intro s
  rw [run_checkProgram]
  exact walkProgram_inherits (Check.inherited_keeps hR) tree s

end Census
