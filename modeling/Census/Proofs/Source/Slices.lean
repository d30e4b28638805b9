import Mathlib.Data.String.Basic
import Census.Source.Span

/-!
# Places and slices of a text

A place of a text has some of the text before it and the others behind it. Its byte offset is the
length of what stands before it, and from the offset alone the whole place is found again.

- `Location.StandsIn`: the places of a text.
- `Span.PointsInto`: a span that resolving its offsets in a text gives back.
- `Span.slice`: the text that a span covers.
-/

namespace Census

open String (utf8Len)

namespace Location

@[simp] theorem offset_advanceAll (here : Location) (text : List Char) :
    (here.advanceAll text).offset = here.offset + utf8Len text := by
  induction text generalizing here with
  | nil => rfl
  | cons c text ih =>
    rw [advanceAll_cons, ih, offset_advance, String.utf8Len_cons]
    omega

/-- The offset behind the front of a text leads back there. -/
theorem seek?_advanceAll (here : Location) (front back : List Char) :
    here.seek? (front ++ back) (here.advanceAll front).offset = some (here.advanceAll front) := by
  induction front generalizing here with
  | nil => cases back <;> simp [seek?]
  | cons c front ih =>
    have hpos := c.utf8Size_pos
    have hoffset := (here.advance c).offset_advanceAll front
    rw [offset_advance] at hoffset
    rw [List.cons_append, advanceAll_cons, seek?, if_neg (by omega), if_pos (by omega), ih]

/-- The place stands somewhere in the text, or at its end. -/
def StandsIn (source : String) (place : Location) : Prop :=
  ∃ before after, source.toList = before ++ after ∧ place = origin.advanceAll before

/-- The place where a text ends. -/
def endOf (source : String) : Location := origin.advanceAll source.toList

namespace StandsIn

variable {source : String} {place : Location}

theorem seek?_eq (h : place.StandsIn source) :
    origin.seek? source.toList place.offset = some place := by
  obtain ⟨before, after, hsource, rfl⟩ := h
  rw [hsource]
  exact seek?_advanceAll origin before after

/-- No place is inside a character. -/
theorem isValid (h : place.StandsIn source) : String.Pos.Raw.IsValid source ⟨place.offset⟩ := by
  obtain ⟨before, after, hsource, rfl⟩ := h
  refine String.Pos.Raw.isValid_iff_exists_append.mpr
    ⟨String.ofList before, String.ofList after, ?_, ?_⟩
  · rw [← String.ofList_append, ← hsource, String.ofList_toList]
  · simp [origin]

end StandsIn

end Location

namespace Span

open Location

/-- The span lies in the text, starts and ends between characters, and has the lines and columns
of the text at its two offsets. -/
structure PointsInto (source : String) (span : Span) : Prop where
  ordered : span.start.offset ≤ span.stop.offset
  bounded : span.stop.offset ≤ source.utf8ByteSize
  startValid : String.Pos.Raw.IsValid source ⟨span.start.offset⟩
  stopValid : String.Pos.Raw.IsValid source ⟨span.stop.offset⟩
  resolved : resolve? source span.start.offset span.stop.offset = some span

/-- The text that a span covers. -/
def slice (source : String) (span : Span) : String :=
  String.Pos.Raw.extract source ⟨span.start.offset⟩ ⟨span.stop.offset⟩

variable {source : String} {span : Span}

/-- A span points into a text if its ends are places of the text. -/
theorem pointsInto_of_standsIn (hstart : span.start.StandsIn source)
    (hstop : span.stop.StandsIn source) (hle : span.start.offset ≤ span.stop.offset) :
    span.PointsInto source := by
  refine ⟨hle, hstop.isValid.le_utf8ByteSize, hstart.isValid, hstop.isValid, ?_⟩
  rw [resolve?, hstart.seek?_eq, hstop.seek?_eq]
  rfl

/-- A text is covered from where it starts to where it ends. -/
theorem slice_eq {before text after : List Char} (h : source.toList = before ++ text ++ after) :
    slice source ⟨origin.advanceAll before, origin.advanceAll (before ++ text)⟩
      = String.ofList text := by
  have hsource : source = String.ofList (before ++ text ++ after) := by
    rw [← h, String.ofList_toList]
  have hslice := String.extract_of_valid before text after
  rw [hsource]
  simpa [slice, origin] using hslice

/-- Of two fronts of a text the longer one has the other at its front. -/
theorem prefix_of_utf8Len_le {front front' text : List Char} (h : front <+: text)
    (h' : front' <+: text) (hle : utf8Len front ≤ utf8Len front') : front <+: front' := by
  rcases List.prefix_or_prefix_of_prefix h h' with hprefix | ⟨back, rfl⟩
  · exact hprefix
  · rw [String.utf8Len_append] at hle
    have hback : back = [] := String.utf8Len_eq_zero.mp (by omega)
    simp [hback]

/-- What points into a text takes it apart into what comes before, between and behind. -/
theorem PointsInto.exists_split (h : span.PointsInto source) : ∃ before text after,
    source.toList = before ++ text ++ after ∧
      span = ⟨origin.advanceAll before, origin.advanceAll (before ++ text)⟩ := by
  obtain ⟨front, back, hsource, hstart⟩ := String.Pos.Raw.isValid_iff_exists_append.mp h.startValid
  obtain ⟨front', back', hsource', hstop⟩ := String.Pos.Raw.isValid_iff_exists_append.mp h.stopValid
  have hsplit : source.toList = front.toList ++ back.toList := by
    rw [hsource, String.toList_append]
  have hsplit' : source.toList = front'.toList ++ back'.toList := by
    rw [hsource', String.toList_append]
  have hoffset : (origin.advanceAll front.toList).offset = span.start.offset := by
    simpa [origin] using (congrArg String.Pos.Raw.byteIdx hstart).symm
  have hoffset' : (origin.advanceAll front'.toList).offset = span.stop.offset := by
    simpa [origin] using (congrArg String.Pos.Raw.byteIdx hstop).symm
  have hle : utf8Len front.toList ≤ utf8Len front'.toList := by
    have hordered := h.ordered
    rw [← hoffset, ← hoffset', offset_advanceAll, offset_advanceAll] at hordered
    omega
  obtain ⟨text, htext⟩ := prefix_of_utf8Len_le ⟨_, hsplit.symm⟩ ⟨_, hsplit'.symm⟩ hle
  refine ⟨front.toList, text, back'.toList, by rw [htext, hsplit'], ?_⟩
  have hresolved := h.resolved
  rw [resolve?, ← hoffset, ← hoffset', StandsIn.seek?_eq ⟨_, _, hsplit, rfl⟩,
    StandsIn.seek?_eq ⟨_, _, hsplit', rfl⟩] at hresolved
  rw [htext]
  exact (Option.some.inj hresolved).symm

theorem slice_origin {text after : List Char} (h : source.toList = text ++ after) :
    slice source ⟨origin, origin.advanceAll text⟩ = String.ofList text := by
  have hwhole : source.toList = [] ++ text ++ after := h
  exact slice_eq hwhole

theorem slice_endOf {before text : List Char} (h : source.toList = before ++ text) :
    slice source ⟨origin.advanceAll before, endOf source⟩ = String.ofList text := by
  rw [endOf, h]
  exact slice_eq (by rw [h, List.append_nil])

end Span

end Census
