import Census.Proofs.Source.Lines

/-!
# Hulls of spans

Merging compares offsets only, but it carries whole places along. Two places of one text that have
the same offset are the same place, so there it does not matter which of them stays. Merging
spans that were looked up in a text is then the same as looking up the earlier start and the later
stop.

- `Location.earlier`, `Location.later`: the two choices that merging makes.
- `Location.LeadsInto`: offsets that lead to a place of a text.
- `Span.ResolvedIn`: spans that were looked up in a text; `Span.Encloses`: spans around others.
- `Span.resolve?_min_max`: merging what is looked up is looking up the hull.
-/

namespace Census

namespace Location

variable {source : String} {place other third : Location} {offset : Nat}

/-! ## Of two places one -/

/-- The place with the smaller offset; of two at the same offset, the first. -/
def earlier (place other : Location) : Location :=
  if place.offset ≤ other.offset then place else other

/-- The place with the larger offset; of two at the same offset, the first. -/
def later (place other : Location) : Location :=
  if place.offset ≥ other.offset then place else other

/-- Of two places the one with the smaller offset comes first. -/
@[simp] theorem offset_earlier (place other : Location) :
    (place.earlier other).offset = min place.offset other.offset := by
  unfold earlier
  split <;> omega

@[simp] theorem offset_later (place other : Location) :
    (place.later other).offset = max place.offset other.offset := by
  unfold later
  split <;> omega

/-- The first of three places, and of those at its offset the leftmost one. -/
theorem earlier_assoc (place other third : Location) :
    (place.earlier other).earlier third = place.earlier (other.earlier third) := by
  simp only [earlier]
  grind

theorem later_assoc (place other third : Location) :
    (place.later other).later third = place.later (other.later third) := by
  simp only [later]
  grind

namespace StandsIn

/-- A text has one place at an offset. -/
theorem eq_of_offset_eq (h : place.StandsIn source) (h' : other.StandsIn source)
    (heq : place.offset = other.offset) : place = other := by
  have hseek := h.seek?_eq
  rw [heq, h'.seek?_eq] at hseek
  exact (Option.some.inj hseek).symm

theorem earlier (h : place.StandsIn source) (h' : other.StandsIn source) :
    (place.earlier other).StandsIn source := by
  unfold Location.earlier
  split
  · exact h
  · exact h'

theorem later (h : place.StandsIn source) (h' : other.StandsIn source) :
    (place.later other).StandsIn source := by
  unfold Location.later
  split
  · exact h
  · exact h'

/-- Within one text the choice does not depend on the order, since equal offsets mean equal places.
-/
theorem earlier_comm (h : place.StandsIn source) (h' : other.StandsIn source) :
    place.earlier other = other.earlier place :=
  (h.earlier h').eq_of_offset_eq (h'.earlier h) (by simp [Nat.min_comm])

/-- The same for the later place. -/
theorem later_comm (h : place.StandsIn source) (h' : other.StandsIn source) :
    place.later other = other.later place :=
  (h.later h').eq_of_offset_eq (h'.later h) (by simp [Nat.max_comm])

end StandsIn

/-! ## Places that are looked up -/

/-- The offset lies between two characters of the text, or at its end or past that. -/
def LeadsInto (source : String) (offset : Nat) : Prop :=
  String.Pos.Raw.IsValid source ⟨offset⟩ ∨ source.utf8ByteSize ≤ offset

/-- What is found is a place of the text. -/
theorem exists_of_seek? {here : Location} {text : List Char}
    (h : here.seek? text offset = some place) :
    ∃ front back, text = front ++ back ∧ place = here.advanceAll front := by
  induction text generalizing here with
  | nil => exact ⟨[], [], rfl, (Option.some.inj h).symm⟩
  | cons c text ih =>
    unfold seek? at h
    split at h
    · exact ⟨[], c :: text, rfl, (Option.some.inj h).symm⟩
    · split at h
      · obtain ⟨front, back, rfl, rfl⟩ := ih h
        exact ⟨c :: front, back, rfl, rfl⟩
      · cases h

/-- The end of a text is a place of it. -/
theorem standsIn_endOf (source : String) : (endOf source).StandsIn source :=
  ⟨source.toList, [], (List.append_nil _).symm, rfl⟩

/-- The place at such an offset is the one at the offset itself or the end. -/
theorem LeadsInto.exists_place (h : LeadsInto source offset) :
    ∃ place : Location, place.StandsIn source ∧
      origin.seek? source.toList offset = some place ∧
      place.offset = min offset source.utf8ByteSize := by
  rcases h with hvalid | hpast
  · obtain ⟨place, hplace, rfl⟩ := StandsIn.exists_of_isValid hvalid
    exact ⟨place, hplace, hplace.seek?_eq, (Nat.min_eq_left hplace.isValid.le_utf8ByteSize).symm⟩
  · have hend : origin.offset + String.utf8Len source.toList = source.utf8ByteSize := by
      simp [origin]
    refine ⟨endOf source, standsIn_endOf source, seek?_eq_end _ (hend ▸ hpast), ?_⟩
    rw [endOf, offset_advanceAll, hend, Nat.min_eq_right hpast]

/-- Of two offsets the smaller leads to the earlier place. -/
theorem seek?_min_eq {offset' : Nat} (h : LeadsInto source offset) (h' : LeadsInto source offset')
    (hplace : origin.seek? source.toList offset = some place)
    (hother : origin.seek? source.toList offset' = some other) :
    origin.seek? source.toList (min offset offset') = some (place.earlier other) := by
  obtain ⟨_, hstands, hseek, hoffset⟩ := h.exists_place
  obtain ⟨_, hstands', hseek', hoffset'⟩ := h'.exists_place
  cases hseek.symm.trans hplace
  cases hseek'.symm.trans hother
  rcases Nat.le_total offset offset' with hle | hle
  · rw [Nat.min_eq_left hle, hplace, earlier, if_pos (by omega)]
  · rw [Nat.min_eq_right hle, hother, hstands.earlier_comm hstands', earlier, if_pos (by omega)]

/-- Of two offsets the larger leads to the later place. -/
theorem seek?_max_eq {offset' : Nat} (h : LeadsInto source offset) (h' : LeadsInto source offset')
    (hplace : origin.seek? source.toList offset = some place)
    (hother : origin.seek? source.toList offset' = some other) :
    origin.seek? source.toList (max offset offset') = some (place.later other) := by
  obtain ⟨_, hstands, hseek, hoffset⟩ := h.exists_place
  obtain ⟨_, hstands', hseek', hoffset'⟩ := h'.exists_place
  cases hseek.symm.trans hplace
  cases hseek'.symm.trans hother
  rcases Nat.le_total offset offset' with hle | hle
  · rw [Nat.max_eq_right hle, hother, hstands.later_comm hstands', later, if_pos (by omega)]
  · rw [Nat.max_eq_left hle, hplace, later, if_pos (by omega)]

end Location

namespace Span

open Location

variable {source : String} {span other : Span}

/-! ## Merging -/

/-- The span was looked up in the text. -/
def ResolvedIn (source : String) (span : Span) : Prop :=
  ∃ start stop, resolve? source start stop = some span

/-- The outer span starts no later and stops no earlier. -/
structure Encloses (outer inner : Span) : Prop where
  start_le : outer.start.offset ≤ inner.start.offset
  le_stop : inner.stop.offset ≤ outer.stop.offset

theorem merge_eq (span other : Span) :
    span.merge other = ⟨span.start.earlier other.start, span.stop.later other.stop⟩ := rfl

/-- Hulls of several spans do not depend on how they are bracketed. -/
theorem merge_assoc (span other third : Span) :
    (span.merge other).merge third = span.merge (other.merge third) := by
  simp only [merge_eq, earlier_assoc, later_assoc]

/-- A hull starts no later and ends no earlier than its first span. -/
theorem encloses_merge_left (span other : Span) : (span.merge other).Encloses span := by
  rw [merge_eq]
  exact ⟨by simp, by simp⟩

/-- Nor than its second one. -/
theorem encloses_merge_right (span other : Span) : (span.merge other).Encloses other := by
  rw [merge_eq]
  exact ⟨by simp, by simp⟩

/-- A span is looked up by looking up both of its ends. -/
theorem resolve?_eq_some_iff {start stop : Nat} : resolve? source start stop = some span ↔
    origin.seek? source.toList start = some span.start ∧
      origin.seek? source.toList stop = some span.stop := by
  obtain ⟨first, last⟩ := span
  simp [resolve?, Option.bind_eq_some_iff]

/-- Both ends of a span that was looked up are places of the text. -/
theorem ResolvedIn.standsIn (h : ResolvedIn source span) :
    span.start.StandsIn source ∧ span.stop.StandsIn source := by
  obtain ⟨start, stop, h⟩ := h
  obtain ⟨hstart, hstop⟩ := resolve?_eq_some_iff.mp h
  exact ⟨exists_of_seek? hstart, exists_of_seek? hstop⟩

/-- Spans of one text merge to the same in either order. -/
theorem ResolvedIn.merge_comm (h : ResolvedIn source span) (h' : ResolvedIn source other) :
    span.merge other = other.merge span := by
  obtain ⟨hstart, hstop⟩ := h.standsIn
  obtain ⟨hstart', hstop'⟩ := h'.standsIn
  rw [merge_eq, merge_eq, hstart.earlier_comm hstart', hstop.later_comm hstop']

/-- **Merging is looking up the hull**. If four offsets lie between characters of a text or past its
end, the spans from the first to the second and from the third to the fourth are there, and merged
they are the span from the earlier start to the later stop, with its lines and columns. On the spans
of a text merging is commutative, associative and idempotent, and the merged span encloses both.
Spans that were not looked up in one text may not commute. -/
theorem resolve?_min_max (source : String) :
    (∀ a b c d, LeadsInto source a → LeadsInto source b → LeadsInto source c →
      LeadsInto source d → ∃ span other,
        resolve? source a b = some span ∧ resolve? source c d = some other ∧
        resolve? source (min a c) (max b d) = some (span.merge other)) ∧
    (∀ span other third, ResolvedIn source span → ResolvedIn source other →
      ResolvedIn source third →
        span.merge other = other.merge span ∧
        (span.merge other).merge third = span.merge (other.merge third) ∧
        span.merge span = span ∧
        (span.merge other).Encloses span ∧ (span.merge other).Encloses other) ∧
    ¬ ∀ span other : Span, span.merge other = other.merge span := by
  refine ⟨fun a b c d ha hb hc hd => ?_, fun span other third h h' _ => ?_, fun hcomm => ?_⟩
  · obtain ⟨start, -, hstart, -⟩ := ha.exists_place
    obtain ⟨stop, -, hstop, -⟩ := hb.exists_place
    obtain ⟨start', -, hstart', -⟩ := hc.exists_place
    obtain ⟨stop', -, hstop', -⟩ := hd.exists_place
    refine ⟨⟨start, stop⟩, ⟨start', stop'⟩, resolve?_eq_some_iff.mpr ⟨hstart, hstop⟩,
      resolve?_eq_some_iff.mpr ⟨hstart', hstop'⟩, resolve?_eq_some_iff.mpr ⟨?_, ?_⟩⟩
    · exact seek?_min_eq ha hc hstart hstart'
    · exact seek?_max_eq hb hd hstop hstop'
  · exact ⟨h.merge_comm h', merge_assoc span other third, merge_self span,
      encloses_merge_left span other, encloses_merge_right span other⟩
  · -- the same offset in two lines
    have hsame := hcomm (emptyAt ⟨1, 1, 0⟩) (emptyAt ⟨2, 1, 0⟩)
    cases hsame

/-- The second line of a text, which is told to go on behind its end, and a character of the first
line that is longer than a byte. -/
theorem resolve?_min_max_umlaut :
    let source := "aä\nb"
    let line : Span := ⟨⟨2, 1, 4⟩, ⟨2, 2, 5⟩⟩
    let character : Span := ⟨⟨1, 2, 1⟩, ⟨1, 4, 3⟩⟩
    (LeadsInto source 4 ∧ LeadsInto source 9 ∧ LeadsInto source 1 ∧ LeadsInto source 3) ∧
    (resolve? source 4 9 = some line ∧ resolve? source 1 3 = some character ∧
      resolve? source 1 9 = some (line.merge character)) ∧
    ResolvedIn source line ∧ ResolvedIn source character ∧
    line.merge character = character.merge line := by
  intro source line character
  have hlength : source.utf8ByteSize = 5 := by decide
  have hfour : LeadsInto source 4 := .inl (by decide)
  have hnine : LeadsInto source 9 := .inr (by omega)
  have hone : LeadsInto source 1 := .inl (by decide)
  have hthree : LeadsInto source 3 := .inl (by decide)
  have hline : resolve? source 4 9 = some line := by decide
  have hcharacter : resolve? source 1 3 = some character := by decide
  obtain ⟨hhull, hlaws, -⟩ := resolve?_min_max source
  obtain ⟨_, _, hspan, hother, hmerged⟩ := hhull 4 9 1 3 hfour hnine hone hthree
  cases hline.symm.trans hspan
  cases hcharacter.symm.trans hother
  have hlaw := hlaws line character line ⟨4, 9, hline⟩ ⟨1, 3, hcharacter⟩ ⟨4, 9, hline⟩
  exact ⟨⟨hfour, hnine, hone, hthree⟩, ⟨hline, hcharacter, hmerged⟩, ⟨4, 9, hline⟩,
    ⟨1, 3, hcharacter⟩, hlaw.1⟩

end Span

end Census
