import MacroRegions.Source

/-!
Lines of a source.

Lines begin behind newlines, so the line of an offset is told by the newlines
before it. A text has fewer lines than bytes, or one more.
-/

namespace MacroRegions

namespace Text

theorem takeWhile_offsetsBehindNewlines_of_le
    {bound offset : Nat}
    (reached : bound ≤ offset)
    (text : Text) :
    (offsetsBehindNewlines offset text).takeWhile (· ≤ bound) = [] := by
  induction text generalizing offset with
  | nil => rfl
  | cons c rest inductionHypothesis =>
      have positive := Char.utf8Size_pos c
      by_cases newline : c = '\n'
      · have behind : ¬ offset + c.utf8Size ≤ bound := by omega
        simp [offsetsBehindNewlines, newline, newline ▸ behind]
      · rw [offsetsBehindNewlines, if_neg newline]
        exact inductionHypothesis (by omega)

private theorem length_takeWhile_offsetsBehindNewlines
    (offset : Nat)
    (front back : Text) :
    ((offsetsBehindNewlines offset (front ++ back)).takeWhile
        (· ≤ offset + byteSize front)).length =
      front.count '\n' := by
  induction front generalizing offset with
  | nil =>
      rw [List.nil_append, byteSize_nil, Nat.add_zero,
        takeWhile_offsetsBehindNewlines_of_le (Nat.le_refl _) back]
      rfl
  | cons c front inductionHypothesis =>
      have later := inductionHypothesis (offset + c.utf8Size)
      rw [Nat.add_assoc] at later
      by_cases newline : c = '\n'
      · subst newline
        have reached : offset + '\n'.utf8Size ≤ offset + byteSize ('\n' :: front) := by
          rw [byteSize_cons]
          omega
        rw [List.cons_append, offsetsBehindNewlines, if_pos rfl,
          List.takeWhile_cons, if_pos (decide_eq_true reached), List.length_cons, byteSize_cons,
          later, List.count_cons_self]
      · rw [List.cons_append, offsetsBehindNewlines, if_neg newline, byteSize_cons, later,
          List.count_cons_of_ne newline]

theorem length_offsetsBehindNewlines (offset : Nat) (text : Text) :
    (offsetsBehindNewlines offset text).length = text.count '\n' := by
  induction text generalizing offset with
  | nil => rfl
  | cons c rest inductionHypothesis =>
      by_cases newline : c = '\n'
      · subst newline
        rw [offsetsBehindNewlines, if_pos rfl, List.length_cons, inductionHypothesis,
          List.count_cons_self]
      · rw [offsetsBehindNewlines, if_neg newline, inductionHypothesis,
          List.count_cons_of_ne newline]

theorem length_le_byteSize (text : Text) : text.length ≤ byteSize text := by
  induction text with
  | nil => exact Nat.le_refl _
  | cons c rest inductionHypothesis =>
      have positive := Char.utf8Size_pos c
      rw [List.length_cons, byteSize_cons]
      omega

end Text

namespace Source

/-- A line is told by the newlines before it. -/
theorem line_pointAt
    {source : Source}
    {front back : Text}
    (split : source.text = front ++ back) :
    (source.pointAt (Text.byteSize front)).line = front.count '\n' + 1 := by
  have within : min (Text.byteSize front) source.size = Text.byteSize front := by
    rw [source.size_eq, split, Text.byteSize_append]
    omega
  have begun := Text.length_takeWhile_offsetsBehindNewlines 0 front back
  rw [Nat.zero_add] at begun
  simp only [pointAt, within, source.lineStarts_eq, split, Text.lineStarts]
  rw [List.takeWhile_cons_of_pos (by simp), List.length_cons, begun]

theorem offset_pointAt
    {source : Source}
    {front back : Text}
    (split : source.text = front ++ back) :
    (source.pointAt (Text.byteSize front)).offset = Text.byteSize front := by
  simp only [pointAt, source.size_eq, split, Text.byteSize_append]
  omega

theorem lineCount_eq (source : Source) : source.lineCount = source.text.count '\n' + 1 := by
  rw [lineCount, source.lineStarts_eq, Text.lineStarts, List.length_cons,
    Text.length_offsetsBehindNewlines]

/-- The line of something that is written in a text is no greater than the size
of the text. -/
theorem line_pointAt_le_size
    {source : Source}
    {front back : Text}
    (split : source.text = front ++ back)
    (nonempty : back ≠ []) :
    (source.pointAt (Text.byteSize front)).line ≤ source.size := by
  have newlines : front.count '\n' ≤ front.length := List.count_le_length
  have frontSize := Text.length_le_byteSize front
  have backSize := Text.length_le_byteSize back
  have some := List.length_pos_iff.2 nonempty
  rw [line_pointAt split, source.size_eq, split, Text.byteSize_append]
  omega

end Source

end MacroRegions
