/-!
# How programs with a state end

A program that works on a state and may fail ends with an answer or with a failure. What is asked
of both ends of a program made of steps is asked of its last step, and of the failures of all of
them.

- `Ends`: what holds of the answer or of the failure of a program, and of the state left then.
-/

namespace Census

variable {ε σ α β : Type} {s : σ} {answers : α → σ → Prop} {fails : ε → σ → Prop}

/-- The program answers something of the first kind or fails with something of the second. -/
def Ends (program : ExceptT ε (StateM σ) α) (s : σ) (answers : α → σ → Prop)
    (fails : ε → σ → Prop) : Prop :=
  match program.run.run s with
  | (.ok answer, s') => answers answer s'
  | (.error failure, s') => fails failure s'

/-- The second of two programs in a row starts where the first one ends. -/
theorem ends_bind_iff {program : ExceptT ε (StateM σ) α} {next : α → ExceptT ε (StateM σ) β}
    {answers : β → σ → Prop} :
    Ends (program >>= next) s answers fails ↔
      Ends program s (fun first between => Ends (next first) between answers fails) fails := by
  unfold Ends
  simp only [ExceptT.run_bind, StateT.run_bind]
  rcases program.run.run s with ⟨_ | _, _⟩ <;> rfl

/-- What only works on the state does not fail. -/
theorem ends_liftM_iff {action : StateM σ α} :
    Ends (liftM action : ExceptT ε (StateM σ) α) s answers fails ↔
      answers (action.run s).1 (action.run s).2 := .rfl

theorem Ends.imp {answers' : α → σ → Prop} {fails' : ε → σ → Prop}
    {program : ExceptT ε (StateM σ) α} (h : Ends program s answers fails)
    (hanswers : ∀ answer s', answers answer s' → answers' answer s')
    (hfails : ∀ failure s', fails failure s' → fails' failure s') :
    Ends program s answers' fails' := by
  revert h
  unfold Ends
  rcases program.run.run s with ⟨failure | answer, s'⟩
  · exact hfails failure s'
  · exact hanswers answer s'

theorem Ends.and {answers' : α → σ → Prop} {fails' : ε → σ → Prop}
    {program : ExceptT ε (StateM σ) α} (h : Ends program s answers fails)
    (h' : Ends program s answers' fails') :
    Ends program s (fun answer s' => answers answer s' ∧ answers' answer s')
      fun failure s' => fails failure s' ∧ fails' failure s' := by
  unfold Ends at *
  generalize program.run.run s = outcome at *
  obtain ⟨_ | _, _⟩ := outcome <;> exact ⟨h, h'⟩

theorem ends_iff_of_ok {program : ExceptT ε (StateM σ) α} {answer : α} {s' : σ}
    (h : program.run.run s = (.ok answer, s')) :
    Ends program s answers fails ↔ answers answer s' := by
  unfold Ends
  rw [h]

theorem ends_iff_of_error {program : ExceptT ε (StateM σ) α} {failure : ε} {s' : σ}
    (h : program.run.run s = (.error failure, s')) :
    Ends program s answers fails ↔ fails failure s' := by
  unfold Ends
  rw [h]

/-- A program with one possible end ends there. -/
theorem Ends.run_eq {program : ExceptT ε (StateM σ) α} {answer : α} {s' : σ}
    (h : Ends program s (fun answer' after => answer' = answer ∧ after = s') fun _ _ => False) :
    program.run.run s = (.ok answer, s') := by
  unfold Ends at h
  generalize program.run.run s = outcome at h ⊢
  obtain ⟨_ | _, _⟩ := outcome
  · exact h.elim
  · obtain ⟨rfl, rfl⟩ := h
    rfl

/-- A program with one possible failure fails with that. -/
theorem Ends.run_eq_error {program : ExceptT ε (StateM σ) α} {failure : ε} {s' : σ}
    (h : Ends program s (fun _ _ => False)
      fun failure' after => failure' = failure ∧ after = s') :
    program.run.run s = (.error failure, s') := by
  unfold Ends at h
  generalize program.run.run s = outcome at h ⊢
  obtain ⟨_ | _, _⟩ := outcome
  · obtain ⟨rfl, rfl⟩ := h
    rfl
  · exact h.elim

end Census
