import MacroRegions.Proofs.Source.Table

/-!
From lines and columns to offsets and back.

A line with its end is a range of offsets, and the point of an offset names the line
that it lies on. So a line and a column address the one offset that has them, as long
as the sum of line start and column is a word. A sum past the largest word counts
round to an offset before the line.
-/

namespace MacroRegions

namespace Source

variable {source : Source} {line column offset : Nat}

/-- A line that begins ends where the next one begins, or with the text. -/
theorem exists_lineEnd?
    {index start : Nat}
    (starts : source.lineStarts[index]? = some start) :
    ∃ stop,
      source.lineEnd? (index + 1) = some stop ∧
        start ≤ stop ∧
        ∀ offset, start ≤ offset →
          (offset ≤ stop ↔ source.HoldsAt offset index start ∧ offset ≤ source.size) := by
  obtain ⟨within, _⟩ := List.getElem?_eq_some_iff.1 starts
  have counted : ¬ source.lineCount < index + 1 := by
    rw [lineCount]
    omega
  cases startsNext : source.lineStarts[index + 1]? with
  | none =>
      refine ⟨source.size, ?_, le_size_of_getElem?_lineStarts starts, ?_⟩
      · simp [lineEnd?, counted, startsNext]
      · intro offset begun
        constructor
        · intro before
          exact ⟨⟨starts, begun, by simp [startsNext]⟩, before⟩
        · intro held
          exact held.2
  | some next =>
      have later := lt_of_getElem?_lineStarts (Nat.lt_succ_self index) starts startsNext
      have nextWithin := le_size_of_getElem?_lineStarts startsNext
      refine ⟨next - 1, ?_, by omega, ?_⟩
      · simp [lineEnd?, counted, startsNext]
      · intro offset begun
        constructor
        · intro before
          refine ⟨⟨starts, begun, ?_⟩, by omega⟩
          intro next' startsNext'
          obtain rfl : next = next' := Option.some.inj (startsNext.symm.trans startsNext')
          omega
        · intro held
          have notEnded := held.1.notEnded next startsNext
          omega

/-- The point of an offset, told by the line that holds the offset. -/
theorem pointAt_eq_iff (within : offset ≤ source.size) :
    source.pointAt offset = ⟨line, column, offset⟩ ↔
      ∃ index start,
        source.HoldsAt offset index start ∧ line = index + 1 ∧ column = offset - start + 1 := by
  constructor
  · intro pointEq
    obtain ⟨index, start, holds⟩ := exists_holdsAt within
    rw [holds.pointAt_eq within] at pointEq
    obtain ⟨lineEq, columnEq, _⟩ := Point.mk.inj pointEq
    exact ⟨index, start, holds, lineEq.symm, columnEq.symm⟩
  · intro held
    obtain ⟨index, start, holds, rfl, rfl⟩ := held
    exact holds.pointAt_eq within

/-- The sum of the line's start and the column, both counted as offsets, is past
the largest word. -/
def CountsRound (source : Source) (line column : Nat) : Prop :=
  ∃ start, source.lineStart? line = some start ∧ wordLimit < start + column

private theorem offsetOf?_eq_none
    (noLine : source.lineStart? line = none) :
    source.offsetOf? line column = none := by
  simp [offsetOf?, noLine]

private theorem offsetOf?_column_zero (source : Source) (line : Nat) :
    source.offsetOf? line 0 = none := by
  cases found : source.lineStart? line <;> simp [offsetOf?, found]

private theorem offsetOf?_succ
    {start stop : Nat}
    (starts : source.lineStart? line = some start)
    (stops : source.lineEnd? line = some stop)
    (distance : Nat) :
    source.offsetOf? line (distance + 1) =
      if wrapWord (start + distance) ≤ stop then some (wrapWord (start + distance)) else none := by
  simp [offsetOf?, starts, stops]

private theorem exists_index_of_lineStart?
    {start : Nat}
    (starts : source.lineStart? line = some start) :
    ∃ index, line = index + 1 ∧ source.lineStarts[index]? = some start := by
  cases line with
  | zero => simp [lineStart?] at starts
  | succ index => exact ⟨index, rfl, starts⟩

/-- A line and a column address the offset of which they are the point, if their
sum is a word. -/
theorem offsetOf?_eq_some_iff
    (direct : ¬ source.CountsRound line column) :
    source.offsetOf? line column = some offset ↔
      offset ≤ source.size ∧ source.pointAt offset = ⟨line, column, offset⟩ := by
  cases column with
  | zero =>
      rw [offsetOf?_column_zero]
      refine iff_of_false (by simp) ?_
      intro addressed
      obtain ⟨_, _, _, _, columnEq⟩ := (pointAt_eq_iff addressed.1).1 addressed.2
      omega
  | succ distance =>
      cases starts : source.lineStart? line with
      | none =>
          rw [offsetOf?_eq_none starts]
          refine iff_of_false (by simp) ?_
          intro addressed
          obtain ⟨index, start, holds, rfl, _⟩ := (pointAt_eq_iff addressed.1).1 addressed.2
          rw [lineStart?, holds.starts] at starts
          simp at starts
      | some start =>
          obtain ⟨index, rfl, startsAt⟩ := exists_index_of_lineStart? starts
          obtain ⟨stop, stops, _, before⟩ := exists_lineEnd? startsAt
          have small : wrapWord (start + distance) = start + distance := by
            refine Nat.mod_eq_of_lt ?_
            have fits := mt (fun more => (⟨start, starts, more⟩ : source.CountsRound _ _)) direct
            omega
          rw [offsetOf?_succ starts stops, small]
          constructor
          · intro found
            split at found
            · next reached =>
                obtain rfl := Option.some.inj found
                obtain ⟨holds, within⟩ := (before _ (Nat.le_add_right _ _)).1 reached
                refine ⟨within, (pointAt_eq_iff within).2 ⟨index, start, holds, rfl, ?_⟩⟩
                omega
            · simp at found
          · intro addressed
            obtain ⟨within, pointEq⟩ := addressed
            obtain ⟨index', start', holds, lineEq, columnEq⟩ := (pointAt_eq_iff within).1 pointEq
            obtain rfl : index = index' := Nat.succ.inj lineEq
            obtain rfl : start = start' := Option.some.inj (startsAt.symm.trans holds.starts)
            have begun := holds.begun
            obtain rfl : offset = start + distance := by omega
            rw [if_pos ((before _ begun).2 ⟨holds, within⟩)]

/-- A sum past the largest word comes to an offset before the line, which is
taken for an answer. -/
theorem exists_offsetOf?_of_countsRound
    (small : source.size < wordLimit)
    (word : column < wordLimit)
    (round : source.CountsRound line column) :
    ∃ start offset,
      source.lineStart? line = some start ∧
        offset + wordLimit + 1 = start + column ∧
        offset < start ∧
        source.offsetOf? line column = some offset := by
  obtain ⟨start, starts, past⟩ := round
  obtain ⟨index, rfl, startsAt⟩ := exists_index_of_lineStart? starts
  obtain ⟨stop, stops, startLe, _⟩ := exists_lineEnd? startsAt
  have startSmall := le_size_of_getElem?_lineStarts startsAt
  obtain ⟨distance, rfl⟩ : ∃ distance, column = distance + 1 :=
    ⟨column - 1, by omega⟩
  have wrapped : wrapWord (start + distance) = start + distance - wordLimit := by
    rw [wrapWord, Nat.mod_eq_sub_mod (by omega), Nat.mod_eq_of_lt (by omega)]
  refine ⟨start, start + distance - wordLimit, starts, by omega, by omega, ?_⟩
  rw [offsetOf?_succ starts stops, wrapped, if_pos (by omega)]

/-- The point of an offset leads back to the offset. -/
theorem offsetOf?_pointAt
    (small : source.size < wordLimit)
    (within : offset ≤ source.size) :
    source.offsetOf? (source.pointAt offset).line (source.pointAt offset).column =
      some offset := by
  obtain ⟨index, start, holds⟩ := exists_holdsAt within
  have pointEq := holds.pointAt_eq within
  have begun := holds.begun
  rw [pointEq]
  refine (offsetOf?_eq_some_iff ?_).2 ⟨within, pointEq⟩
  intro round
  obtain ⟨start', starts, past⟩ := round
  obtain rfl : start = start' := Option.some.inj (holds.starts.symm.trans starts)
  have past' : wordLimit < start + (offset - start + 1) := past
  omega

/-- What a line and a column are answered by: the offset whose point they are,
and nothing if there is none. -/
def Addresses (source : Source) (line column : Nat) : Prop :=
  ∀ offset,
    source.offsetOf? line column = some offset ↔
      offset ≤ source.size ∧ source.pointAt offset = ⟨line, column, offset⟩

/-- Every offset is found again by its point. A line and a column are answered as
they should be exactly if their sum is a word; otherwise the answer is an offset
before the line. -/
theorem addresses_iff_not_countsRound
    (small : source.size < wordLimit)
    (word : column < wordLimit) :
    (∀ offset, offset ≤ source.size →
        source.offsetOf? (source.pointAt offset).line (source.pointAt offset).column =
          some offset) ∧
      (source.Addresses line column ↔ ¬ source.CountsRound line column) ∧
      (source.CountsRound line column →
        ∃ start offset,
          source.lineStart? line = some start ∧
            offset + wordLimit + 1 = start + column ∧
            offset < start ∧
            source.offsetOf? line column = some offset) := by
  refine ⟨fun offset within => offsetOf?_pointAt small within, ?_, ?_⟩
  · constructor
    · intro addresses round
      obtain ⟨start, offset, starts, _, before, found⟩ :=
        exists_offsetOf?_of_countsRound small word round
      obtain ⟨within, pointEq⟩ := (addresses offset).1 found
      obtain ⟨index, start', holds, rfl, _⟩ := (pointAt_eq_iff within).1 pointEq
      obtain rfl : start' = start := Option.some.inj (holds.starts.symm.trans starts)
      have begun := holds.begun
      omega
    · intro direct offset
      exact offsetOf?_eq_some_iff direct
  · exact exists_offsetOf?_of_countsRound small word

def twoLines : Source :=
  ofText "ab\ncd".toList

theorem addresses_twoLines :
    twoLines.size < wordLimit ∧ 3 < wordLimit ∧
      (∀ offset, offset ≤ twoLines.size →
          twoLines.offsetOf? (twoLines.pointAt offset).line (twoLines.pointAt offset).column =
            some offset) ∧
      (twoLines.Addresses 2 3 ↔ ¬ twoLines.CountsRound 2 3) ∧
      (twoLines.CountsRound 2 3 →
        ∃ start offset,
          twoLines.lineStart? 2 = some start ∧
            offset + wordLimit + 1 = start + 3 ∧
            offset < start ∧
            twoLines.offsetOf? 2 3 = some offset) := by
  have small : twoLines.size < wordLimit := by decide
  have word : 3 < wordLimit := by decide
  exact ⟨small, word, addresses_iff_not_countsRound small word⟩

/-- A column near the largest word of the second line is answered by an offset on
the first one. -/
theorem not_addresses_twoLines :
    twoLines.size < wordLimit ∧ wordLimit - 1 < wordLimit ∧
      twoLines.offsetOf? 2 (wordLimit - 1) = some 1 ∧
      twoLines.pointAt 1 = ⟨1, 2, 1⟩ ∧
      ¬ twoLines.Addresses 2 (wordLimit - 1) := by
  have found : twoLines.offsetOf? 2 (wordLimit - 1) = some 1 := by decide
  have pointEq : twoLines.pointAt 1 = ⟨1, 2, 1⟩ := by decide
  refine ⟨by decide, by decide, found, pointEq, ?_⟩
  intro addresses
  have lineEq := congrArg Point.line (pointEq.symm.trans ((addresses 1).1 found).2)
  exact absurd lineEq (by decide)

end Source

end MacroRegions
