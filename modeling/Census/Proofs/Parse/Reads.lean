import Census.Proofs.Parse.Runs

/-!
# Outcomes of parsers

Where a parser stands in front of tokens that make sense to it, only the limit on nesting can
stop it. `Parser.Reads` tells both outcomes at once, so that what is known of the steps of a
parser gives what is known of the parser.

- `Parser.Reads`: the two outcomes, told apart by a condition.
- `Parser.Reads.bind`: steps in a row.
-/

namespace Census

namespace Parser

variable {α β : Type}

/-- In front of `tokens`, which `rest` follows, the parser reads just these and answers something
good if everything fits below the limit on nesting, and otherwise refuses to nest any deeper. -/
def Reads (parser : Parser α) (tokens rest : List Token) (fits : Prop) (good : α → Prop) : Prop :=
  ∀ cursor : Cursor, cursor.rest = tokens ++ rest →
    (fits → ∃ answer cursor', Runs parser cursor answer cursor' ∧
      cursor.Advances tokens cursor' ∧ good answer) ∧
    (¬ fits → ∃ span, Fails parser cursor ⟨.nestingExceeded, span⟩)

namespace Reads

variable {parser : Parser α} {next : α → Parser β} {tokens front back rest : List Token}
  {fits fits' : Prop} {good : α → Prop} {good' : β → Prop}

/-- How the tokens fit may be said in other words, and less may be said of the answer. -/
theorem congr {good' : α → Prop} (h : Reads parser tokens rest fits good) (hfits : fits' ↔ fits)
    (hgood : ∀ answer, good answer → good' answer) : Reads parser tokens rest fits' good' := by
  intro cursor hcursor
  obtain ⟨hruns, hfails⟩ := h cursor hcursor
  rw [hfits]
  refine ⟨fun hfits => ?_, hfails⟩
  obtain ⟨answer, cursor', hrun, hmoved, hanswer⟩ := hruns hfits
  exact ⟨answer, cursor', hrun, hmoved, hgood answer hanswer⟩

theorem of_iff (h : Reads parser tokens rest fits good) (hfits : fits' ↔ fits) :
    Reads parser tokens rest fits' good :=
  h.congr hfits fun _ => id

/-- What is in front of the first reader is in two parts, one for each. -/
theorem bind (h : Reads parser front (back ++ rest) fits good)
    (hnext : ∀ answer, good answer → Reads (next answer) back rest fits' good') :
    Reads (parser >>= next) (front ++ back) rest (fits ∧ fits') good' := by
  intro cursor hcursor
  rw [List.append_assoc] at hcursor
  obtain ⟨hruns, hfails⟩ := h cursor hcursor
  -- whatever does not fit, one of the parsers meets it first and refuses
  refine ⟨fun ⟨hfits, hfits'⟩ => ?_, fun hnot => ?_⟩
  · obtain ⟨first, between, hrun, hmoved, hgood⟩ := hruns hfits
    have hbetween := List.append_cancel_left (hmoved.rest.symm.trans hcursor)
    obtain ⟨answer, cursor', hrun', hmoved', hanswer⟩ :=
      (hnext first hgood between hbetween).1 hfits'
    exact ⟨answer, cursor', runs_bind.mpr ⟨first, between, hrun, hrun'⟩, hmoved.trans hmoved',
      hanswer⟩
  · by_cases hfits : fits
    · obtain ⟨first, between, hrun, hmoved, hgood⟩ := hruns hfits
      have hbetween := List.append_cancel_left (hmoved.rest.symm.trans hcursor)
      obtain ⟨span, hfail⟩ :=
        (hnext first hgood between hbetween).2 fun hfits' => hnot ⟨hfits, hfits'⟩
      exact ⟨span, fails_bind.mpr (.inr ⟨first, between, hrun, hfail⟩)⟩
    · obtain ⟨span, hfail⟩ := hfails hfits
      exact ⟨span, fails_bind.mpr (.inl hfail)⟩

/-- A step that always fits leaves the condition to the rest. -/
theorem step (h : Reads parser front (back ++ rest) True good)
    (hnext : ∀ answer, good answer → Reads (next answer) back rest fits' good') :
    Reads (parser >>= next) (front ++ back) rest fits' good' :=
  (h.bind hnext).of_iff (by simp)

/-- A step that always fits, behind all others. -/
theorem finish (h : Reads parser tokens rest fits good)
    (hnext : ∀ answer, good answer → Reads (next answer) [] rest True good') :
    Reads (parser >>= next) tokens rest fits good' := by
  have hboth : Reads (parser >>= next) (tokens ++ []) rest (fits ∧ True) good' := h.bind hnext
  rw [List.append_nil] at hboth
  exact hboth.of_iff (by simp)

end Reads

variable {tokens rest : List Token} {kinds : List TokenKind}

theorem reads_pure {good : α → Prop} {answer : α} (h : good answer) :
    Reads (pure answer) [] rest True good := fun cursor _ =>
  ⟨fun _ => ⟨answer, cursor, runs_pure.mpr ⟨rfl, rfl⟩, .refl cursor, h⟩,
    fun hnot => absurd trivial hnot⟩

theorem reads_nextSpan : Reads nextSpan [] rest True fun _ => True := fun cursor _ =>
  ⟨fun _ => ⟨_, cursor, runs_nextSpan.mpr ⟨rfl, rfl⟩, .refl cursor, trivial⟩,
    fun hnot => absurd trivial hnot⟩

theorem reads_previousSpan : Reads previousSpan [] rest True fun _ => True := fun cursor _ =>
  ⟨fun _ => ⟨_, cursor, runs_previousSpan.mpr ⟨rfl, rfl⟩, .refl cursor, trivial⟩,
    fun hnot => absurd trivial hnot⟩

theorem reads_nextKind? :
    Reads nextKind? [] rest True fun kind? => kind? = rest.head?.map Token.kind := by
  intro cursor hcursor
  rw [List.nil_append] at hcursor
  exact ⟨fun _ => ⟨_, cursor, runs_nextKind?.mpr ⟨rfl, rfl⟩, .refl cursor, by rw [hcursor]⟩,
    fun hnot => absurd trivial hnot⟩

theorem reads_remaining : Reads remaining [] rest True fun count => count = rest.length := by
  intro cursor hcursor
  rw [List.nil_append] at hcursor
  exact ⟨fun _ => ⟨_, cursor, runs_remaining.mpr ⟨rfl, rfl⟩, .refl cursor, by rw [hcursor]⟩,
    fun hnot => absurd trivial hnot⟩

/-- The reader goes on behind a token of one of the kinds. -/
theorem reads_accept?_some {token : Token} (h : token.kind ∈ kinds) :
    Reads (accept? kinds) [token] rest True fun next => next = some token := by
  intro cursor hcursor
  obtain ⟨cursor', hone⟩ := Cursor.exists_advances hcursor
  exact ⟨fun _ => ⟨some token, cursor', runs_accept?_some.mpr ⟨h, hone⟩, hone, rfl⟩,
    fun hnot => absurd trivial hnot⟩

/-- It stays in front of any other token, and at the end. -/
theorem reads_accept?_none (h : ∀ token ∈ rest.head?, token.kind ∉ kinds) :
    Reads (accept? kinds) [] rest True fun next => next = none := by
  intro cursor hcursor
  rw [List.nil_append] at hcursor
  rw [← hcursor] at h
  exact ⟨fun _ => ⟨none, cursor, runs_accept?_none.mpr ⟨h, rfl⟩, .refl cursor, rfl⟩,
    fun hnot => absurd trivial hnot⟩

/-- The run ends where a token of another kind stands. -/
theorem reads_acceptRun {run : List Token} (hrun : ∀ token ∈ run, token.kind ∈ kinds)
    (hstop : ∀ token ∈ rest.head?, token.kind ∉ kinds) :
    Reads (acceptRun kinds) run rest True fun tokens => tokens = run := by
  intro cursor hcursor
  have hmoved : cursor.Advances run ⟨run.getLast?.or cursor.previous, rest⟩ := ⟨hcursor, rfl⟩
  exact ⟨fun _ => ⟨run, _, runs_acceptRun.mpr ⟨hmoved, hrun, hstop⟩, hmoved, rfl⟩,
    fun hnot => absurd trivial hnot⟩

/-- A token that is demanded and stands there is read. -/
theorem reads_expect {token : Token} {kind : TokenKind} (h : token.kind = kind) :
    Reads (expect kind) [token] rest True fun _ => True := by
  intro cursor hcursor
  obtain ⟨cursor', hone⟩ := Cursor.exists_advances hcursor
  exact ⟨fun _ => ⟨token, cursor', runs_expect.mpr ⟨h, hone⟩, hone, trivial⟩,
    fun hnot => absurd trivial hnot⟩

theorem reads_identifier {token : Token} (h : token.kind = .identifier) :
    Reads identifier [token] rest True
      fun node => node = ⟨.identifier token.text, [], token.span⟩ := by
  intro cursor hcursor
  obtain ⟨cursor', hone⟩ := Cursor.exists_advances hcursor
  exact ⟨fun _ => ⟨_, cursor', runs_identifier.mpr ⟨token, h, hone, rfl⟩, hone, rfl⟩,
    fun hnot => absurd trivial hnot⟩

/-- A refusal to nest is what is asked for where nothing fits. -/
theorem reads_refuseNesting {fits : Prop} {good : α → Prop} (h : ¬ fits) :
    Reads refuseNesting tokens rest fits good := fun cursor _ =>
  ⟨fun hfits => absurd hfits h, fun _ => ⟨cursor.span, fails_refuseNesting.mpr rfl⟩⟩

end Parser

end Census
