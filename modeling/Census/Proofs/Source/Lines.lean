import Mathlib.Data.List.Induction
import Census.Proofs.Source.Slices

/-!
# Lines and columns

A place of a text says in which line it stands and how far behind the start of that line. Both are
counted in bytes, and of all bytes only line feeds matter, which are no part of any other character.
So line and column tell the offset of a place, and places are in the same order either way.

- `lineFeedsBefore`, `lineStarts`: the lines of a text, read off its bytes.
- `Location.Precedes`: the order of places by line, and in a line by column.
- `Location.Measures`: a place that has the line and the column that are counted in the bytes.
- `Span.resolve?_lines_columns`: what places are looked up in a text.
-/

namespace Census

open String (utf8Len)

/-! ## Lines in bytes -/

/-- The byte that ends a line. -/
def lineFeed : UInt8 := 0x0A

/-- The bytes of a text. -/
def bytesOf (source : String) : List UInt8 := source.toUTF8.data.toList

/-- How many lines end before a byte offset. -/
def lineFeedsBefore (source : String) (offset : Nat) : Nat :=
  ((bytesOf source).take offset).count lineFeed

/-- The offsets where the lines of some bytes start: the first one, and one behind each line
feed. -/
def lineStarts (bytes : List UInt8) : List Nat := 0 :: bytes.idxsOf lineFeed 1

/-- The bytes of some characters. -/
def encoded (text : List Char) : List UInt8 := text.flatMap String.utf8EncodeChar

/-- The bytes of a text are those of its characters. -/
theorem bytesOf_eq (source : String) : bytesOf source = encoded source.toList := by
  rw [bytesOf, String.toUTF8_eq_toByteArray, ← String.utf8Encode_toList, List.utf8Encode,
    List.toList_data_toByteArray, encoded]

@[simp] theorem encoded_append (front back : List Char) :
    encoded (front ++ back) = encoded front ++ encoded back :=
  List.flatMap_append

@[simp] theorem encoded_singleton (c : Char) : encoded [c] = String.utf8EncodeChar c :=
  List.flatMap_singleton _ _

@[simp] theorem length_encoded (text : List Char) : (encoded text).length = utf8Len text := by
  induction text with
  | nil => rfl
  | cons c text ih =>
    rw [encoded, List.flatMap_cons, List.length_append, String.length_utf8EncodeChar,
      String.utf8Len_cons, Nat.add_comm, ← ih, encoded]

/-- No other character has a line feed among its bytes: the bytes of longer ones are larger. -/
theorem lineFeed_notMem_utf8EncodeChar {c : Char} (h : c ≠ '\n') :
    lineFeed ∉ String.utf8EncodeChar c := by
  have hcode : c.toNat ≠ 0x0A := fun heq => h (Char.ext (UInt32.toNat_inj.mp heq))
  have hval : c.val.toNat = c.toNat := rfl
  intro hmem
  unfold String.utf8EncodeChar at hmem
  dsimp only at hmem
  split_ifs at hmem <;> simp [lineFeed, ← UInt8.toNat_inj] at hmem <;> omega

/-- Lines of the second part start where they would, moved by the first part. -/
theorem lineStarts_append (front back : List UInt8) :
    lineStarts (front ++ back) = lineStarts front ++ back.idxsOf lineFeed (1 + front.length) := by
  rw [lineStarts, List.idxsOf_append, lineStarts, List.cons_append]

/-- There is a line more than line feeds. -/
theorem length_lineStarts (bytes : List UInt8) :
    (lineStarts bytes).length = bytes.count lineFeed + 1 := by
  rw [lineStarts, List.length_cons, List.length_idxsOf]

/-- A line feed starts a line. -/
theorem lineStarts_concat_lineFeed (bytes : List UInt8) :
    lineStarts (bytes ++ [lineFeed]) = lineStarts bytes ++ [1 + bytes.length] := by
  rw [lineStarts_append]
  rfl

/-- Nothing else does. -/
theorem lineStarts_append_of_notMem {front back : List UInt8} (h : lineFeed ∉ back) :
    lineStarts (front ++ back) = lineStarts front := by
  have hnone : (back.idxsOf lineFeed (1 + front.length)).length = 0 := by
    rw [List.length_idxsOf, List.count_eq_zero_of_not_mem h]
  rw [lineStarts_append, List.eq_nil_of_length_eq_zero hnone, List.append_nil]

namespace Location

variable {source : String} {here place place' : Location}

/-! ## The order of places -/

/-- The place stands in an earlier line, or earlier in the same line. -/
def Precedes (place place' : Location) : Prop :=
  place.line < place'.line ∨ place.line = place'.line ∧ place.column < place'.column

theorem Precedes.trans {place'' : Location} (h : place.Precedes place')
    (h' : place'.Precedes place'') : place.Precedes place'' := by
  unfold Precedes at *
  omega

theorem Precedes.asymm (h : place.Precedes place') : ¬ place'.Precedes place := by
  unfold Precedes at *
  omega

theorem not_precedes_self (place : Location) : ¬ place.Precedes place := fun h => h.asymm h

/-- Every character moves places on. -/
theorem precedes_advance (here : Location) (c : Char) : here.Precedes (here.advance c) := by
  have hpos := c.utf8Size_pos
  unfold Precedes advance
  split
  · exact .inl (Nat.lt_succ_self _)
  · exact .inr ⟨rfl, Nat.lt_add_of_pos_right hpos⟩

/-- Whatever text is passed, one comes out behind. -/
theorem precedes_advanceAll (here : Location) {text : List Char} (h : text ≠ []) :
    here.Precedes (here.advanceAll text) := by
  induction text generalizing here with
  | nil => exact absurd rfl h
  | cons c text ih =>
    rw [advanceAll_cons]
    by_cases htext : text = []
    · subst htext
      exact here.precedes_advance c
    · exact (here.precedes_advance c).trans (ih _ htext)

/-- Moving on over a text and moving on in lines and columns is the same. -/
theorem offset_lt_advanceAll_iff (here : Location) (text : List Char) :
    here.offset < (here.advanceAll text).offset ↔ here.Precedes (here.advanceAll text) := by
  rw [offset_advanceAll]
  by_cases htext : text = []
  · simp [htext, not_precedes_self]
  · have hlen : utf8Len text ≠ 0 := fun hzero => htext (String.utf8Len_eq_zero.mp hzero)
    exact ⟨fun _ => here.precedes_advanceAll htext, fun _ => by omega⟩

theorem not_precedes_of_advanceAll (here : Location) (text : List Char) :
    ¬ (here.advanceAll text).Precedes here := by
  by_cases htext : text = []
  · simp [htext, not_precedes_self]
  · exact (here.precedes_advanceAll htext).asymm

/-! ## Counting -/

/-- Where the text in front of a place is known, so are its line and its column. -/
theorem line_column_advanceAll (front : List Char) :
    (origin.advanceAll front).line = (encoded front).count lineFeed + 1 ∧
      ∃ start, (lineStarts (encoded front)).getLast? = some start ∧
        start + ((origin.advanceAll front).column - 1) = (origin.advanceAll front).offset ∧
          1 ≤ (origin.advanceAll front).column := by
  induction front using List.reverseRecOn with
  | nil => exact ⟨rfl, 0, rfl, rfl, Nat.le_refl 1⟩
  | append_singleton front c ih =>
    obtain ⟨hline, start, hstart, hcolumn, hpos⟩ := ih
    have hoffset : (origin.advanceAll front).offset = (encoded front).length := by simp [origin]
    rw [advanceAll_append, encoded_append, encoded_singleton, advanceAll_cons, advanceAll_nil,
      advance]
    split
    · next h =>
      subst h
      have hbyte : String.utf8EncodeChar '\n' = [lineFeed] := by decide
      rw [hbyte, lineStarts_concat_lineFeed]
      refine ⟨by simp [hline], 1 + (encoded front).length, List.getLast?_concat, ?_, Nat.le_refl 1⟩
      simp only [hoffset]
      omega
    · next h =>
      have hnone := lineFeed_notMem_utf8EncodeChar h
      rw [lineStarts_append_of_notMem hnone, List.count_append,
        List.count_eq_zero_of_not_mem hnone]
      refine ⟨hline, start, hstart, ?_, ?_⟩ <;> simp only <;> omega

/-- The place is at the byte offset. Its line is one more than the line feeds before, its column
one more than the bytes between the start of that line and the offset. -/
structure Measures (source : String) (offset : Nat) (place : Location) : Prop where
  offset_eq : place.offset = offset
  line_eq : place.line = lineFeedsBefore source offset + 1
  column_eq : ∃ start, (lineStarts (bytesOf source))[place.line - 1]? = some start ∧
    start + (place.column - 1) = offset ∧ 1 ≤ place.column

namespace StandsIn

/-- The numbers of a place in a text are those that can be computed from its offset. -/
theorem measures (h : place.StandsIn source) : place.Measures source place.offset := by
  obtain ⟨front, back, hsource, rfl⟩ := h
  obtain ⟨hline, start, hstart, hcolumn⟩ := line_column_advanceAll front
  have hoffset : (origin.advanceAll front).offset = (encoded front).length := by simp [origin]
  have hbytes : bytesOf source = encoded front ++ encoded back := by
    rw [bytesOf_eq, hsource, encoded_append]
  have hbefore : (bytesOf source).take (origin.advanceAll front).offset = encoded front := by
    rw [hbytes, hoffset, List.take_left]
  refine ⟨rfl, by rw [lineFeedsBefore, hbefore, hline], start, ?_, hcolumn⟩
  -- the last line that starts in front of the place is the one it stands in
  rw [List.getLast?_eq_getElem?, length_lineStarts, Nat.add_sub_cancel] at hstart
  rw [hline, Nat.add_sub_cancel, hbytes, lineStarts_append, List.getElem?_append_left, hstart]
  rw [length_lineStarts]
  exact Nat.lt_succ_self _

/-- Between two characters there is a place. -/
theorem exists_of_isValid {offset : Nat} (h : String.Pos.Raw.IsValid source ⟨offset⟩) :
    ∃ place : Location, place.StandsIn source ∧ place.offset = offset := by
  obtain ⟨front, back, rfl, hoffset⟩ := String.Pos.Raw.isValid_iff_exists_append.mp h
  refine ⟨origin.advanceAll front.toList, ⟨_, back.toList, String.toList_append, rfl⟩, ?_⟩
  simpa [origin] using (congrArg String.Pos.Raw.byteIdx hoffset).symm

/-- Places of one text are in the same order by their offsets as by their lines and columns. -/
theorem offset_lt_iff (h : place.StandsIn source) (h' : place'.StandsIn source) :
    place.offset < place'.offset ↔ place.Precedes place' := by
  obtain ⟨front, back, hsource, rfl⟩ := h
  obtain ⟨front', back', hsource', rfl⟩ := h'
  have hprefix : front <+: front' ∨ front' <+: front :=
    List.prefix_or_prefix_of_prefix ⟨back, hsource.symm⟩ ⟨back', hsource'.symm⟩
  -- one place is the other one moved on over the text in between
  rcases hprefix with ⟨text, rfl⟩ | ⟨text, rfl⟩ <;> rw [advanceAll_append]
  · exact offset_lt_advanceAll_iff _ text
  · exact ⟨fun hlt => absurd hlt (Nat.not_lt.mpr (by simp)),
      fun hafter => absurd hafter (not_precedes_of_advanceAll _ text)⟩

end StandsIn

/-! ## The end -/

/-- An offset past the end leads to the end. -/
theorem seek?_eq_end (here : Location) {text : List Char} {offset : Nat}
    (h : here.offset + utf8Len text ≤ offset) :
    here.seek? text offset = some (here.advanceAll text) := by
  induction text generalizing here with
  | nil => rfl
  | cons c text ih =>
    have hpos := c.utf8Size_pos
    rw [String.utf8Len_cons] at h
    rw [seek?, if_neg (by omega), if_pos (by omega), ih _ (by rw [offset_advance]; omega),
      advanceAll_cons]

/-- So it may as well be the end. -/
theorem seek?_min (source : String) (offset : Nat) :
    origin.seek? source.toList offset
      = origin.seek? source.toList (min offset source.utf8ByteSize) := by
  have hsize : origin.offset + utf8Len source.toList = source.utf8ByteSize := by simp [origin]
  rcases Nat.le_total offset source.utf8ByteSize with hle | hle
  · rw [Nat.min_eq_left hle]
  · rw [Nat.min_eq_right hle, seek?_eq_end _ (hsize ▸ hle), seek?_eq_end _ (Nat.le_of_eq hsize)]

end Location

open Location

/-- **Lines and columns**. Looking up two offsets of a text that lie between characters finds two
places. They are in the order of the offsets by line and column too, each is in the line and the
column that the bytes of the text tell, so that line and column tell the offset. Offsets past the
end mean the end. -/
theorem Span.resolve?_lines_columns (source : String) :
    (∀ start stop, String.Pos.Raw.IsValid source ⟨start⟩ → String.Pos.Raw.IsValid source ⟨stop⟩ →
      ∃ first last, resolve? source start stop = some ⟨first, last⟩ ∧
        first.Measures source start ∧ last.Measures source stop ∧
        (start < stop ↔ first.Precedes last) ∧
        (first.line = last.line → first.column = last.column → start = stop)) ∧
    ∀ start stop, resolve? source start stop
      = resolve? source (min start source.utf8ByteSize) (min stop source.utf8ByteSize) := by
  refine ⟨fun start stop hstart hstop => ?_, fun start stop => ?_⟩
  · obtain ⟨first, hfirst, rfl⟩ := StandsIn.exists_of_isValid hstart
    obtain ⟨last, hlast, rfl⟩ := StandsIn.exists_of_isValid hstop
    refine ⟨first, last, ?_, hfirst.measures, hlast.measures, hfirst.offset_lt_iff hlast, ?_⟩
    · rw [resolve?, hfirst.seek?_eq, hlast.seek?_eq]
      rfl
    · intro hline hcolumn
      have hforth := hfirst.offset_lt_iff hlast
      have hback := hlast.offset_lt_iff hfirst
      unfold Precedes at hforth hback
      omega
  · rw [resolve?, seek?_min source start, seek?_min source stop, resolve?]

/-- The last character of the first line of a text, which is longer than a byte, and the end of the
text. -/
theorem Span.resolve?_lines_columns_umlaut :
    String.Pos.Raw.IsValid "aä\nb" ⟨1⟩ ∧ String.Pos.Raw.IsValid "aä\nb" ⟨5⟩ ∧
      resolve? "aä\nb" 1 9 = some ⟨⟨1, 2, 1⟩, ⟨2, 2, 5⟩⟩ ∧
      Measures "aä\nb" 1 ⟨1, 2, 1⟩ ∧ Measures "aä\nb" 5 ⟨2, 2, 5⟩ := by
  have hfirst : String.Pos.Raw.IsValid "aä\nb" ⟨1⟩ := by decide
  have hlast : String.Pos.Raw.IsValid "aä\nb" ⟨5⟩ := by decide
  obtain ⟨hvalid, hend⟩ := resolve?_lines_columns "aä\nb"
  obtain ⟨first, last, hresolve, hmeasures, hmeasures', -⟩ := hvalid 1 5 hfirst hlast
  have hfound : resolve? "aä\nb" 1 5 = some ⟨⟨1, 2, 1⟩, ⟨2, 2, 5⟩⟩ := by decide
  obtain ⟨rfl, rfl⟩ : first = ⟨1, 2, 1⟩ ∧ last = ⟨2, 2, 5⟩ := by
    simpa [hfound, eq_comm] using hresolve
  exact ⟨hfirst, hlast, (hend 1 9).trans hfound, hmeasures, hmeasures'⟩

end Census
