import Mathlib.Data.List.TakeWhile
import Census.Report

/-!
# Reports in sinks

A sink takes bytes as long as it has room, however they come to it. So the pieces of a report leave
the same in it as the whole line would, and the report is written if and only if all of it fits. In
the line, numbers stand between words that no number goes on with, so it tells the counts.

- `Sink.filled`: a sink that has taken what it has room for.
- `Sink.write_eq`, `Sink.writeEach_eq_write`: what one text and what several texts leave in a sink.
- `Metrics.reportLine_injective`: the line tells the counts.
- `analyzeInto_fills_sink`: reports in sinks of every size.
-/

namespace Census

/-! ## Bytes in sinks -/

namespace Sink

variable {sink : Sink} {room : Nat} {held bytes front back : List UInt8}

/-- The sink when it has taken as many of the bytes as it has room for. -/
def filled (sink : Sink) (bytes : List UInt8) : Sink :=
  ⟨sink.room.map (· - bytes.length), sink.held ++ bytes.take (sink.capacity bytes.length)⟩

/-- Whether there is room for some number of bytes. -/
def hasRoom (sink : Sink) (size : Nat) : Bool := sink.capacity size = size

theorem filled_unlimited : filled ⟨none, held⟩ bytes = ⟨none, held ++ bytes⟩ := by
  simp [filled, capacity]

theorem filled_limited :
    filled ⟨some room, held⟩ bytes = ⟨some (room - bytes.length), held ++ bytes.take room⟩ := by
  have htake : bytes.take (min room bytes.length) = bytes.take room :=
    List.take_eq_take_iff.mpr (by omega)
  rw [filled, capacity, htake]
  rfl

theorem hasRoom_unlimited {size : Nat} : hasRoom ⟨none, held⟩ size = true := by
  simp [hasRoom, capacity]

theorem hasRoom_limited {size : Nat} : hasRoom ⟨some room, held⟩ size = decide (size ≤ room) := by
  show decide (min room size = size) = decide (size ≤ room)
  rw [decide_eq_decide]
  omega

@[simp] theorem filled_nil : sink.filled [] = sink := by
  obtain ⟨_ | room, held⟩ := sink
  · rw [filled_unlimited, List.append_nil]
  · rw [filled_limited, List.take_nil, List.append_nil]
    rfl

@[simp] theorem hasRoom_zero : sink.hasRoom 0 = true := by
  obtain ⟨_ | room, held⟩ := sink
  · exact hasRoom_unlimited
  · simp [hasRoom_limited]

/-- It does not matter whether bytes come at once or one part after the other. -/
theorem filled_append : (sink.filled front).filled back = sink.filled (front ++ back) := by
  obtain ⟨_ | room, held⟩ := sink
  · simp only [filled_unlimited, List.append_assoc]
  · simp only [filled_limited, List.length_append, List.take_append, List.append_assoc,
      Nat.sub_sub]

theorem hasRoom_append : sink.hasRoom (front ++ back).length
    = (sink.hasRoom front.length && (sink.filled front).hasRoom back.length) := by
  obtain ⟨_ | room, held⟩ := sink
  · simp only [filled_unlimited, hasRoom_unlimited, Bool.and_self]
  · simp only [filled_limited, hasRoom_limited, List.length_append, ← Bool.decide_and,
      decide_eq_decide]
    omega

/-- What comes when the sink is full is lost. -/
theorem filled_append_of_full (h : sink.hasRoom front.length = false) :
    sink.filled (front ++ back) = sink.filled front := by
  obtain ⟨_ | room, held⟩ := sink
  · rw [hasRoom_unlimited] at h
    cases h
  · rw [hasRoom_limited, decide_eq_false_iff_not, Nat.not_le] at h
    have hnone : room - front.length = 0 := Nat.sub_eq_zero_of_le (Nat.le_of_lt h)
    simp only [filled_limited, List.length_append, List.take_append, ← Nat.sub_sub, hnone,
      Nat.zero_sub, List.take_zero, List.append_nil]

/-! ## Writes -/

/-- A write takes some first bytes that there is room for, unless the sink is full. -/
theorem take?_cases (hbytes : bytes ≠ []) :
    (∃ front back, bytes = front ++ back ∧ front ≠ [] ∧ sink.hasRoom front.length = true ∧
      sink.take? bytes = some (sink.filled front, back)) ∨
    sink.room = some 0 ∧ sink.take? bytes = none := by
  have hlength : 0 < bytes.length := List.length_pos_iff.mpr hbytes
  have hsome : bytes.isEmpty = false := List.isEmpty_eq_false_iff.mpr hbytes
  obtain ⟨_ | room, held⟩ := sink
  · refine .inl ⟨bytes, [], (List.append_nil _).symm, hbytes, hasRoom_unlimited, ?_⟩
    rw [filled_unlimited]
    simp [take?, capacity, hbytes]
  · rcases Nat.eq_zero_or_pos room with rfl | hroom
    · exact .inr ⟨rfl, by simp [take?, capacity, hsome]⟩
    · have hfront : (bytes.take room).length = min room bytes.length := List.length_take
      refine .inl ⟨bytes.take room, bytes.drop room, (List.take_append_drop ..).symm, ?_, ?_, ?_⟩
      · exact List.ne_nil_of_length_pos (by omega)
      · rw [hasRoom_limited, decide_eq_true_eq]
        omega
      · have hcapacity : capacity ⟨some room, held⟩ bytes.length = min room bytes.length := rfl
        have hpos : min room bytes.length ≠ 0 := by omega
        have htake : bytes.take (min room bytes.length) = bytes.take room :=
          List.take_eq_take_iff.mpr (by omega)
        have hdrop : bytes.drop (min room bytes.length) = bytes.drop room := by
          rcases Nat.le_total room bytes.length with h | h
          · rw [Nat.min_eq_left h]
          · rw [Nat.min_eq_right h, List.drop_length, List.drop_eq_nil_of_le h]
        rw [filled_limited, hfront, List.take_take, Nat.min_self]
        simp [take?, hcapacity, hpos, htake, hdrop]

/-- Writes in a row take what there is room for. -/
theorem takeAll_eq {fuel : Nat} (hfuel : bytes.length ≤ fuel) :
    sink.takeAll bytes fuel = (sink.filled bytes, sink.hasRoom bytes.length) := by
  induction fuel generalizing sink bytes with
  | zero =>
    obtain rfl : bytes = [] := List.eq_nil_of_length_eq_zero (Nat.le_zero.mp hfuel)
    simp [takeAll]
  | succ fuel ih =>
    by_cases hbytes : bytes = []
    · subst hbytes
      simp [takeAll]
    rw [takeAll, if_neg (by simpa using hbytes)]
    rcases sink.take?_cases hbytes with ⟨front, back, rfl, hfront, hroom, htake⟩ | ⟨hfull, htake⟩
    · have hpos := List.length_pos_iff.mpr hfront
      rw [List.length_append] at hfuel
      rw [htake]
      dsimp only
      rw [ih (by omega), filled_append, hasRoom_append, hroom, Bool.true_and]
    · obtain ⟨_, held⟩ := sink
      obtain rfl : _ = some 0 := hfull
      rw [htake, filled_limited, hasRoom_limited]
      simp [hbytes]

/-! ## Texts -/

theorem textBytes_append (text text' : String) :
    textBytes (text ++ text') = textBytes text ++ textBytes text' := by
  simp only [textBytes, String.toUTF8_eq_toByteArray, String.toByteArray_append,
    ByteArray.toList_data_append]

/-- A text leaves what there is room for, and is written if there is room for all of it. -/
theorem write_eq (text : String) : sink.write text
    = (sink.filled (textBytes text), sink.hasRoom (textBytes text).length) :=
  takeAll_eq (Nat.le_refl _)

/-- Several texts leave the same as all of them in one, wherever the sink becomes full. -/
theorem writeEach_eq_write (texts : List String) :
    sink.writeEach texts = sink.write (String.join texts) := by
  induction texts generalizing sink with
  | nil => simp [writeEach, write_eq, textBytes]
  | cons text others ih =>
    rw [writeEach, String.join_cons]
    simp only [write_eq, textBytes_append] at ih ⊢
    cases hroom : sink.hasRoom (textBytes text).length with
    | true => simp only [ih, filled_append, hasRoom_append, hroom, Bool.true_and]
    | false => simp only [filled_append_of_full hroom, hasRoom_append, hroom, Bool.false_and]

end Sink

/-! ## Lines -/

/-- A number ends where a word begins that does not begin with a digit. -/
theorem eq_of_digits_append {m n : Nat} {word rest rest' : List Char}
    (hword : word.head?.map Char.isDigit = some false)
    (h : (toString m).toList ++ (word ++ rest) = (toString n).toList ++ (word ++ rest')) :
    m = n ∧ rest = rest' := by
  obtain ⟨c, others, rfl⟩ : ∃ c others, word = c :: others := by
    cases word with
    | nil => cases hword
    | cons c others => exact ⟨c, others, rfl⟩
  have hc : ¬ c.isDigit = true := by simpa using hword
  have htext (n : Nat) : (toString n).toList = Nat.toDigits 10 n := by
    rw [Nat.toString_eq_ofList_toDigits, String.toList_ofList]
  have hdigits (n : Nat) : ∀ d ∈ Nat.toDigits 10 n, d.isDigit = true := fun d =>
    Nat.isDigit_of_mem_toDigits (by decide) (by decide)
  rw [htext, htext, List.cons_append, List.cons_append] at h
  have hnumber := congrArg (List.takeWhile Char.isDigit) h
  rw [List.takeWhile_append_of_pos (hdigits m), List.takeWhile_append_of_pos (hdigits n),
    List.takeWhile_cons_of_neg hc, List.takeWhile_cons_of_neg hc, List.append_nil,
    List.append_nil] at hnumber
  rw [hnumber] at h
  refine ⟨?_, List.append_cancel_left (List.cons.inj (List.append_cancel_left h)).2⟩
  rw [← Nat.ofDigitChars_ten_toDigits (n := m), hnumber, Nat.ofDigitChars_ten_toDigits]

namespace Metrics

/-- The pieces make up the line. -/
theorem join_reportPieces (metrics : Metrics) :
    String.join metrics.reportPieces = metrics.reportLine := by
  unfold reportPieces reportLine report
  simp only [String.join_cons, String.join_nil, String.append_empty, String.append_assoc]

/-- Lines are the same only if all five counts are. -/
theorem reportLine_injective : Function.Injective reportLine := by
  intro metrics metrics' h
  have hline := congrArg String.toList h
  unfold reportLine report at hline
  simp only [String.toList_append, List.append_assoc] at hline
  obtain ⟨hdeclarations, hline⟩ :=
    eq_of_digits_append (by decide) (List.append_cancel_left hline)
  obtain ⟨hwhileLoops, hline⟩ := eq_of_digits_append (by decide) hline
  obtain ⟨hconditionals, hline⟩ := eq_of_digits_append (by decide) hline
  obtain ⟨hforLoops, hline⟩ := eq_of_digits_append (by decide) hline
  obtain ⟨hoperators, -⟩ := eq_of_digits_append (by decide) hline
  obtain ⟨⟩ := metrics
  obtain ⟨⟩ := metrics'
  simp_all

end Metrics

/-! ## Reports -/

/-- **Reports in sinks**. The report on a rejected program is its problem, and nothing is written.
Of the line of an accepted one, a sink gets as many of the first bytes as it has room for, and it
is told whether these are all of them. The line tells all five counts. -/
theorem analyzeInto_fills_sink (tree : Node) (room : Nat) (held : List UInt8) :
    (match analyze tree with
      | .error problem => analyzeInto tree ⟨some room, held⟩ = (.error problem, ⟨some room, held⟩)
      | .ok metrics =>
        let line := textBytes metrics.reportLine
        analyzeInto tree ⟨some room, held⟩
          = (if line.length ≤ room then .ok metrics else .error (.transfer "sink full"),
            ⟨some (room - line.length), held ++ line.take (min room line.length)⟩)) ∧
      Function.Injective Metrics.reportLine := by
  refine ⟨?_, Metrics.reportLine_injective⟩
  unfold analyzeInto
  cases analyze tree with
  | error problem => rfl
  | ok metrics =>
    dsimp only
    rw [Sink.writeEach_eq_write, Metrics.join_reportPieces, Sink.write_eq, Sink.hasRoom_limited]
    by_cases hroom : (textBytes metrics.reportLine).length ≤ room
    · rw [decide_eq_true hroom, if_pos hroom]
      rfl
    · rw [decide_eq_false hroom, if_neg hroom]
      rfl

/-- There is room for the first count and a part of the next word. -/
theorem analyzeInto_fills_sink_partly :
    let declaration : Node := ⟨.scalarDeclaration "num", [⟨.identifier "a", [], {}⟩], {}⟩
    let tree : Node := ⟨.program, [declaration], {}⟩
    analyze tree = .ok { declarations := 1 } ∧
      analyzeInto tree ⟨some 10, []⟩
        = (.error (.transfer "sink full"), ⟨some 0, textBytes "\x7bVAR:1, WH"⟩) := by
  intro declaration tree
  have haccepted : analyze tree = .ok { declarations := 1 } := by decide
  have hfills := (analyzeInto_fills_sink tree 10 []).1
  rw [haccepted] at hfills
  exact ⟨haccepted, hfills.trans (by decide)⟩

end Census
