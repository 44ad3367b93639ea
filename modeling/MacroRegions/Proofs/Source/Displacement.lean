import MacroRegions.Proofs.Source.Lines

/-!
One text behind another.

Behind a text that ends with a newline every point of another text is as many bytes
and as many lines further on as that text has, in the same column. The text itself is
not displaced.
-/

namespace MacroRegions

def Point.behind (front : Text) (point : Point) : Point :=
  ⟨point.line + front.count '\n', point.column, point.offset + Text.byteSize front⟩

def Span.behind (front : Text) (span : Span) : Span :=
  ⟨span.start + Text.byteSize front, span.stop + Text.byteSize front⟩

def Position.behind (front : Text) (position : Position) : Position :=
  ⟨position.start.behind front, position.stop.behind front⟩

namespace Text

theorem slice?_append_left
    {start stop : Nat}
    {front piece : Text}
    (sliced : slice? start stop front = some piece)
    (back : Text) :
    slice? start stop (front ++ back) = some piece := by
  obtain ⟨before, after, rfl, startEq, stopEq⟩ := slice?_eq_some_iff.1 sliced
  exact slice?_eq_some_iff.2 ⟨before, after ++ back, by simp, startEq, stopEq⟩

private theorem dropBytes?_add_byteSize (count : Nat) (front back : Text) :
    dropBytes? (count + byteSize front) (front ++ back) = dropBytes? count back := by
  induction front with
  | nil => rfl
  | cons c front inductionHypothesis =>
      have positive := Char.utf8Size_pos c
      obtain ⟨total, totalEq⟩ : ∃ total, count + byteSize (c :: front) = total + 1 :=
        ⟨count + byteSize (c :: front) - 1, by simp only [byteSize_cons]; omega⟩
      rw [totalEq, List.cons_append, dropBytes?]
      rw [byteSize_cons] at totalEq
      rw [if_pos (by omega), show total + 1 - c.utf8Size = count + byteSize front by omega]
      exact inductionHypothesis

theorem slice?_append_right (start stop : Nat) (front back : Text) :
    slice? (start + byteSize front) (stop + byteSize front) (front ++ back) =
      slice? start stop back := by
  simp only [slice?, dropBytes?_add_byteSize, Nat.add_le_add_iff_right, Nat.add_sub_add_right]

theorem offsetsBehindNewlines_append (offset : Nat) (front back : Text) :
    offsetsBehindNewlines offset (front ++ back) =
      offsetsBehindNewlines offset front ++
        offsetsBehindNewlines (offset + byteSize front) back := by
  induction front generalizing offset with
  | nil => rfl
  | cons c front inductionHypothesis =>
      have later := inductionHypothesis (offset + c.utf8Size)
      rw [Nat.add_assoc] at later
      rw [List.cons_append, offsetsBehindNewlines, offsetsBehindNewlines, byteSize_cons, later]
      split <;> rfl

private theorem offsetsBehindNewlines_add (offset more : Nat) (text : Text) :
    offsetsBehindNewlines (offset + more) text =
      (offsetsBehindNewlines offset text).map (· + more) := by
  induction text generalizing offset with
  | nil => rfl
  | cons c rest inductionHypothesis =>
      rw [offsetsBehindNewlines, offsetsBehindNewlines, Nat.add_right_comm offset more,
        inductionHypothesis]
      split <;> rfl

theorem le_of_mem_offsetsBehindNewlines
    {offset start : Nat}
    {text : Text}
    (member : start ∈ offsetsBehindNewlines offset text) :
    start ≤ offset + byteSize text := by
  induction text generalizing offset with
  | nil => simp [offsetsBehindNewlines] at member
  | cons c rest inductionHypothesis =>
      rw [byteSize_cons]
      by_cases newline : c = '\n'
      · rw [offsetsBehindNewlines, if_pos newline, List.mem_cons] at member
        rcases member with rfl | later
        · omega
        · have further := inductionHypothesis later
          omega
      · rw [offsetsBehindNewlines, if_neg newline] at member
        have further := inductionHypothesis member
        omega

/-- Behind a text that ends with a newline, the lines of another text begin
where they do, further on. -/
theorem exists_lineStarts_append
    {front : Text}
    (ended : front.getLast? = some '\n')
    (back : Text) :
    ∃ before,
      lineStarts (front ++ back) = before ++ (lineStarts back).map (· + byteSize front) ∧
        before.length = front.count '\n' ∧
        ∀ start ∈ before, start ≤ byteSize front := by
  obtain ⟨first, rfl⟩ := List.getLast?_eq_some_iff.1 ended
  refine ⟨0 :: offsetsBehindNewlines 0 first, ?_, ?_, ?_⟩
  · have laterEq := offsetsBehindNewlines_add 0 (byteSize (first ++ ['\n'])) back
    rw [Nat.zero_add] at laterEq
    simp only [lineStarts, List.map_cons, ← laterEq, Nat.zero_add]
    rw [offsetsBehindNewlines_append, offsetsBehindNewlines_append]
    simp [offsetsBehindNewlines]
  · simp [length_offsetsBehindNewlines]
  · intro start member
    rw [byteSize_append]
    rcases List.mem_cons.1 member with rfl | later
    · exact Nat.zero_le _
    · have further := le_of_mem_offsetsBehindNewlines later
      omega

end Text

namespace Source

private theorem pointAt_ofText (text : Text) (offset : Nat) :
    (ofText text).pointAt offset =
      let clamped := min offset (Text.byteSize text)
      let begun := (Text.lineStarts text).takeWhile (· ≤ clamped)
      ⟨begun.length, clamped - begun.getLastD 0 + 1, clamped⟩ :=
  rfl

/-- A point of a text is where it is, whatever follows the text. -/
theorem pointAt_append_left
    {offset : Nat}
    {front : Text}
    (within : offset ≤ Text.byteSize front)
    (back : Text) :
    (ofText (front ++ back)).pointAt offset = (ofText front).pointAt offset := by
  have clampedEq : min offset (Text.byteSize (front ++ back)) = offset := by
    rw [Text.byteSize_append]
    omega
  have clampedEq' : min offset (Text.byteSize front) = offset := Nat.min_eq_left within
  have begunEq :
      (Text.lineStarts (front ++ back)).takeWhile (· ≤ offset) =
        (Text.lineStarts front).takeWhile (· ≤ offset) := by
    have noneLater :=
      Text.takeWhile_offsetsBehindNewlines_of_le
        (show offset ≤ 0 + Text.byteSize front by omega) back
    rw [Text.lineStarts, Text.offsetsBehindNewlines_append, ← List.cons_append,
      ← Text.lineStarts, List.takeWhile_append, noneLater, List.append_nil]
    split
    · next all => exact ((List.takeWhile_prefix _).eq_of_length all).symm
    · rfl
  simp only [pointAt_ofText, clampedEq, clampedEq', begunEq]

/-- A point of a text that stands behind lines is that much further on. -/
theorem pointAt_append_right
    {front : Text}
    (ended : front.getLast? = some '\n')
    (back : Text)
    (offset : Nat) :
    (ofText (front ++ back)).pointAt (offset + Text.byteSize front) =
      ((ofText back).pointAt offset).behind front := by
  obtain ⟨before, startsEq, lengthEq, beforeLe⟩ := Text.exists_lineStarts_append ended back
  have clampedEq :
      min (offset + Text.byteSize front) (Text.byteSize (front ++ back)) =
        min offset (Text.byteSize back) + Text.byteSize front := by
    rw [Text.byteSize_append]
    omega
  have begunEq :
      (Text.lineStarts (front ++ back)).takeWhile
          (· ≤ min offset (Text.byteSize back) + Text.byteSize front) =
        before ++
          ((Text.lineStarts back).takeWhile (· ≤ min offset (Text.byteSize back))).map
            (· + Text.byteSize front) := by
    rw [startsEq, List.takeWhile_append_of_pos, List.takeWhile_map]
    · simp [Function.comp_def]
    · intro start member
      have begun := beforeLe start member
      simp only [decide_eq_true_eq]
      omega
  have someBegun :
      (Text.lineStarts back).takeWhile (· ≤ min offset (Text.byteSize back)) ≠ [] := by
    simp [Text.lineStarts]
  obtain ⟨first, last, begunEq'⟩ := (List.eq_nil_or_concat _).resolve_left someBegun
  simp only [pointAt_ofText, clampedEq, begunEq, begunEq', Point.behind, List.length_append,
    List.length_map, lengthEq, List.concat_eq_append, List.map_append, List.map_cons,
    List.map_nil, List.length_singleton, ← List.append_assoc, List.getLastD_concat,
    Nat.add_sub_add_right]
  rw [Nat.add_assoc, Nat.add_comm (front.count '\n')]

end Source

end MacroRegions
