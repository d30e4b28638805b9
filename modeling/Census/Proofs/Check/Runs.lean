import Census.Check.Program

/-!
# Runs of checks

What it means that a check succeeds, step by step: a check made of steps succeeds exactly when all
of them do, one after the other.

- `Check.Succeeds`: a check answers and leaves a state.
-/

namespace Census

namespace Check

variable {α β : Type} {s s' : Checker}

/-- The check answers `answer` and leaves the state `s'`. -/
def Succeeds (check : Check α) (s : Checker) (answer : α) (s' : Checker) : Prop :=
  check.run.run s = (.ok answer, s')

/-- What the second of two checks in a row does is up to the outcome of the first. -/
theorem run_bind {σ : Type} (check : CheckOn σ α) (next : α → CheckOn σ β) (s : σ) :
    (check >>= next).run.run s =
      match check.run.run s with
      | (.ok first, between) => (next first).run.run between
      | (.error diagnostic, between) => (.error diagnostic, between) := by
  simp only [ExceptT.run_bind, StateT.run_bind]
  rcases check.run.run s with ⟨_ | _, _⟩ <;> rfl

theorem run_get_bind {σ : Type} (next : σ → CheckOn σ β) (s : σ) :
    (get >>= next).run.run s = (next s).run.run s := rfl

/-- A look-up leaves the state alone. -/
theorem run_lookupType (name : String) (span : Span) (s : Checker) :
    (lookupType name span).run.run s = (s.symbols.lookupType name span, s) := by
  rw [lookupType, run_get_bind, checker_self]
  cases s.symbols.lookupType name span <;> rfl

/-- A declaration adds an entry and counts it, unless the name is taken. -/
theorem run_declare (name : String) (type : ValueType) (span : Span) (s : Checker) :
    (declare name type span).run.run s =
      match s.symbols.lookup? name with
      | some earlier => (.error (.duplicateDeclaration name span earlier.span), s)
      | none => (.ok (), ⟨⟨s.symbols.entries ++ [⟨name, type, span⟩]⟩,
          { s.metrics with declarations := s.metrics.declarations + 1 }⟩) := by
  rw [declare, run_get_bind, checker_self, SymbolTable.declare]
  cases s.symbols.lookup? name <;> rfl

/-- Where the outcome of a check is known, so is whether it succeeds. -/
theorem succeeds_iff_of_run {check : Check α} {answer : α} {outcome : Except Diagnostic α × Checker}
    (h : check.run.run s = outcome) : Succeeds check s answer s' ↔ outcome = (.ok answer, s') := by
  rw [Succeeds, h]

/-! ## Steps in a row -/

/-- An answer leaves the state as it is. -/
@[simp] theorem succeeds_pure {answer answer' : α} :
    Succeeds (pure answer) s answer' s' ↔ answer' = answer ∧ s' = s := by
  show (Except.ok answer, s) = (Except.ok answer', s') ↔ _
  simp only [Prod.mk.injEq, Except.ok.injEq, eq_comm]

/-- The second of two checks in a row starts where the first one ends. -/
@[simp] theorem succeeds_bind {check : Check α} {next : α → Check β} {answer : β} :
    Succeeds (check >>= next) s answer s' ↔
      ∃ first between, Succeeds check s first between ∧
        Succeeds (next first) between answer s' := by
  rw [Succeeds, run_bind]
  unfold Succeeds
  rcases check.run.run s with ⟨diagnostic | first, between⟩
  · constructor
    · nofun
    · rintro ⟨_, _, ⟨⟩, _⟩
  · constructor
    · intro h
      exact ⟨first, between, rfl, h⟩
    · rintro ⟨_, _, ⟨⟩, h⟩
      exact h

@[simp] theorem succeeds_map {check : Check α} {f : α → β} {answer : β} :
    Succeeds (f <$> check) s answer s' ↔ ∃ first, Succeeds check s first s' ∧ answer = f first := by
  rw [← bind_pure_comp]
  simp only [succeeds_bind, succeeds_pure]
  constructor
  · rintro ⟨first, between, h, rfl, rfl⟩
    exact ⟨first, h, rfl⟩
  · rintro ⟨first, h, rfl⟩
    exact ⟨first, s', h, rfl, rfl⟩

/-- Failures are no success. -/
@[simp] theorem not_succeeds_throw {diagnostic : Diagnostic} {answer : α} :
    ¬ Succeeds (throw diagnostic) s answer s' := nofun

@[simp] theorem not_succeeds_malformed {what : Malformation} {span : Span} {answer : α} :
    ¬ Succeeds (malformed what span) s answer s' := nofun

/-- A demand in front of a check. -/
@[simp] theorem succeeds_demand {p : Prop} [Decidable p] {diagnostic : Diagnostic}
    {check : Check α} {answer : α} :
    Succeeds (if p then check else throw diagnostic) s answer s' ↔
      p ∧ Succeeds check s answer s' := by
  split <;> simp [*]

@[simp] theorem succeeds_demand_bind {p : Prop} [Decidable p] {diagnostic : Diagnostic}
    {check : Check α} {next : β → Check α} {answer : α} :
    Succeeds (if p then check else throw diagnostic >>= next) s answer s' ↔
      p ∧ Succeeds check s answer s' := by
  split <;> simp [*]

/-- A ban in front of a check. -/
@[simp] theorem succeeds_ban_bind {p : Prop} [Decidable p] {diagnostic : Diagnostic}
    {check : Check α} {next : β → Check α} {answer : α} :
    Succeeds (if p then throw diagnostic >>= next else check) s answer s' ↔
      ¬ p ∧ Succeeds check s answer s' := by
  split <;> simp [*]

/-! ## Single steps -/

@[simp] theorem succeeds_get {state : Checker} :
    Succeeds get s state s' ↔ state = s ∧ s' = s := by
  show Succeeds (pure s) s state s' ↔ _
  exact succeeds_pure

@[simp] theorem succeeds_modify {f : Checker → Checker} {answer : PUnit} :
    Succeeds (modify f) s answer s' ↔ s' = f s := by
  show (Except.ok PUnit.unit, f s) = (Except.ok answer, s') ↔ _
  simp [eq_comm]

/-- Counting changes one counter and nothing else. -/
@[simp] theorem succeeds_count {step : Metrics → Metrics} {answer : PUnit} :
    Succeeds (count step) s answer s' ↔ s' = { s with metrics := step s.metrics } :=
  succeeds_modify

/-- A part is at hand if there is one with the number. -/
@[simp] theorem succeeds_child {node part : Node} {index : Nat} :
    Succeeds (child node index) s part s' ↔ node.child? index = some part ∧ s' = s := by
  unfold child
  split <;> simp [*, eq_comm]

@[simp] theorem succeeds_nameOf {node : Node} {name : String} :
    Succeeds (nameOf node) s name s' ↔ node.identifier? = some name ∧ s' = s := by
  unfold nameOf
  split <;> simp [*, eq_comm]

/-- A type is at hand if one was produced. -/
@[simp] theorem succeeds_typeOf {produced : Option ValueType} {node : Node} {type : ValueType} :
    Succeeds (typeOf produced node) s type s' ↔ produced = some type ∧ s' = s := by
  unfold typeOf
  split <;> simp [eq_comm]

/-- A look-up succeeds for names in the table and leaves it alone. -/
@[simp] theorem succeeds_lookupType {name : String} {span : Span} {type : ValueType} :
    Succeeds (lookupType name span) s type s' ↔
      (∃ symbol, s.symbols.lookup? name = some symbol ∧ symbol.type = type) ∧ s' = s := by
  rw [succeeds_iff_of_run (run_lookupType name span s), SymbolTable.lookupType]
  cases s.symbols.lookup? name <;> simp [eq_comm]

/-- A free name gets an entry behind all others, and is counted. -/
@[simp] theorem succeeds_declare {name : String} {type : ValueType} {span : Span} {answer : PUnit} :
    Succeeds (declare name type span) s answer s' ↔
      s.symbols.lookup? name = none ∧
        s' = ⟨⟨s.symbols.entries ++ [⟨name, type, span⟩]⟩,
          { s.metrics with declarations := s.metrics.declarations + 1 }⟩ := by
  rw [succeeds_iff_of_run (run_declare name type span s)]
  cases s.symbols.lookup? name <;> simp [eq_comm]

end Check

end Census
