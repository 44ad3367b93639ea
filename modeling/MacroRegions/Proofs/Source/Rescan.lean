import MacroRegions.Proofs.Source.Table

/-!
The table of lines against one pass over the bytes.

A pass over the bytes of a text counts lines, columns and offsets as it goes. The
table of lines and every point that is found in it are what such a pass comes to, from
the beginning or from any other point of the text.
-/

namespace MacroRegions

namespace Text

def newlineByte : UInt8 := 10

def utf8 (text : Text) : List UInt8 :=
  text.flatMap String.utf8EncodeChar

def offsetsBehindNewlineBytes (offset : Nat) : List UInt8 → List Nat
  | [] => []
  | byte :: rest =>
    if byte = newlineByte then
      (offset + 1) :: offsetsBehindNewlineBytes (offset + 1) rest
    else
      offsetsBehindNewlineBytes (offset + 1) rest

/-- The table of lines that one pass over the bytes comes to. -/
def lineTable (bytes : List UInt8) : List Nat :=
  0 :: offsetsBehindNewlineBytes 0 bytes

private theorem utf8EncodeChar_newline : String.utf8EncodeChar '\n' = [newlineByte] := rfl

/-- The bytes of a character that is not ASCII are not ASCII either. -/
theorem le_toNat_of_mem_utf8EncodeChar
    {c : Char}
    {byte : UInt8}
    (wide : ¬ c.val.toNat ≤ 127)
    (member : byte ∈ String.utf8EncodeChar c) :
    128 ≤ byte.toNat := by
  simp only [String.utf8EncodeChar, if_neg wide] at member
  split at member
  · simp only [List.mem_cons, List.not_mem_nil, or_false] at member
    rcases member with rfl | rfl <;> rw [UInt8.toNat_ofNat'] <;> omega
  · split at member
    · simp only [List.mem_cons, List.not_mem_nil, or_false] at member
      rcases member with rfl | rfl | rfl <;> rw [UInt8.toNat_ofNat'] <;> omega
    · simp only [List.mem_cons, List.not_mem_nil, or_false] at member
      rcases member with rfl | rfl | rfl | rfl <;> rw [UInt8.toNat_ofNat'] <;> omega

/-- Only the newline has the byte of a newline in its UTF-8 form. -/
theorem newlineByte_notMem_utf8EncodeChar
    {c : Char}
    (notNewline : c ≠ '\n') :
    newlineByte ∉ String.utf8EncodeChar c := by
  intro member
  by_cases ascii : c.val.toNat ≤ 127
  · simp only [String.utf8EncodeChar, if_pos ascii, List.mem_singleton] at member
    have code := congrArg UInt8.toNat member
    rw [UInt8.toNat_ofNat', Nat.mod_eq_of_lt (by omega)] at code
    exact notNewline (Char.ext (UInt32.toNat_inj.1 code.symm))
  · exact absurd (le_toNat_of_mem_utf8EncodeChar ascii member) (by decide)

private theorem offsetsBehindNewlineBytes_append_of_notMem
    {bytes : List UInt8}
    (oneLine : newlineByte ∉ bytes)
    (offset : Nat)
    (rest : List UInt8) :
    offsetsBehindNewlineBytes offset (bytes ++ rest) =
      offsetsBehindNewlineBytes (offset + bytes.length) rest := by
  induction bytes generalizing offset with
  | nil => rfl
  | cons byte bytes inductionHypothesis =>
      obtain ⟨different, later⟩ := not_or.1 (mt List.mem_cons.2 oneLine)
      rw [List.cons_append, offsetsBehindNewlineBytes, if_neg (Ne.symm different),
        inductionHypothesis later, List.length_cons, Nat.add_assoc, Nat.add_comm 1]

/-- The pass over the bytes of a text finds the line starts of its characters. -/
theorem lineTable_utf8 (text : Text) : lineTable (utf8 text) = lineStarts text := by
  have tables :
      ∀ offset,
        offsetsBehindNewlineBytes offset (utf8 text) = offsetsBehindNewlines offset text := by
    induction text with
    | nil => exact fun _ => rfl
    | cons c rest inductionHypothesis =>
        intro offset
        rw [utf8, List.flatMap_cons, offsetsBehindNewlines]
        by_cases newline : c = '\n'
        · subst newline
          rw [utf8EncodeChar_newline, List.cons_append, List.nil_append,
            offsetsBehindNewlineBytes, if_pos rfl, if_pos rfl]
          exact congrArg _ (inductionHypothesis _)
        · rw [offsetsBehindNewlineBytes_append_of_notMem
              (newlineByte_notMem_utf8EncodeChar newline),
            if_neg newline, String.length_utf8EncodeChar]
          exact inductionHypothesis _
  rw [lineTable, tables, lineStarts]

end Text

namespace Point

def stepByte (point : Point) (byte : UInt8) : Point :=
  if byte = Text.newlineByte then
    ⟨wrapWord (point.line + 1), 1, wrapWord (point.offset + 1)⟩
  else
    ⟨point.line, wrapWord (point.column + 1), wrapWord (point.offset + 1)⟩

def advanceBytes (point : Point) (bytes : List UInt8) : Point :=
  bytes.foldl stepByte point

private theorem wrapWord_add (value more : Nat) :
    wrapWord (wrapWord value + more) = wrapWord (value + more) :=
  Nat.mod_add_mod value wordLimit more

private theorem advanceBytes_of_notMem
    {byte : UInt8}
    {bytes : List UInt8}
    (oneLine : Text.newlineByte ∉ byte :: bytes)
    (point : Point) :
    point.advanceBytes (byte :: bytes) =
      ⟨point.line, wrapWord (point.column + (byte :: bytes).length),
        wrapWord (point.offset + (byte :: bytes).length)⟩ := by
  induction bytes generalizing byte point with
  | nil =>
      have different : byte ≠ Text.newlineByte := by simpa [eq_comm] using oneLine
      simp [advanceBytes, stepByte, different]
  | cons next bytes inductionHypothesis =>
      obtain ⟨different, later⟩ := not_or.1 (mt List.mem_cons.2 oneLine)
      have step : point.advanceBytes (byte :: next :: bytes) =
          (point.stepByte byte).advanceBytes (next :: bytes) := rfl
      rw [step, inductionHypothesis later, stepByte, if_neg (Ne.symm different)]
      simp only [wrapWord_add, List.length_cons, Nat.add_assoc, Nat.add_comm 1]

/-- A character moves a point as its bytes do. -/
theorem advanceBytes_utf8EncodeChar (point : Point) (c : Char) :
    point.advanceBytes (String.utf8EncodeChar c) = point.step c := by
  by_cases newline : c = '\n'
  · subst newline
    rfl
  · obtain ⟨byte, bytes, bytesEq⟩ :=
      List.exists_cons_of_ne_nil (@String.utf8EncodeChar_ne_nil c)
    have oneLine := Text.newlineByte_notMem_utf8EncodeChar newline
    have size := String.length_utf8EncodeChar c
    rw [bytesEq] at oneLine size ⊢
    rw [advanceBytes_of_notMem oneLine, size, step, if_neg newline]

/-- A text moves a point as its bytes do. -/
theorem advanceBytes_utf8 (point : Point) (text : Text) :
    point.advanceBytes (Text.utf8 text) = point.advance text := by
  induction text generalizing point with
  | nil => rfl
  | cons c rest inductionHypothesis =>
      have split : point.advanceBytes (Text.utf8 (c :: rest)) =
          (point.advanceBytes (String.utf8EncodeChar c)).advanceBytes (Text.utf8 rest) :=
        List.foldl_append
      rw [split, advanceBytes_utf8EncodeChar, inductionHypothesis, advance_cons]

end Point

namespace Source

variable {source : Source}

private theorem mem_lineStarts_of_split
    {front back : Text}
    (split : source.text = front ++ '\n' :: back) :
    Text.byteSize front + 1 ∈ source.lineStarts := by
  rw [source.lineStarts_eq]
  exact Text.mem_lineStarts_iff.2 (Or.inr ⟨front, back, split, rfl⟩)

/-- Behind a newline the next line has begun. -/
theorem HoldsAt.behind_newline
    {index start : Nat}
    {front back : Text}
    (holds : source.HoldsAt (Text.byteSize front) index start)
    (split : source.text = front ++ '\n' :: back) :
    source.HoldsAt (Text.byteSize front + 1) (index + 1) (Text.byteSize front + 1) := by
  obtain ⟨place, placed⟩ := List.mem_iff_getElem?.1 (mem_lineStarts_of_split split)
  have begun := holds.begun
  have placeEq : place = index + 1 := by
    rcases Nat.lt_trichotomy place (index + 1) with before | same | behind
    · rcases Nat.lt_or_eq_of_le (Nat.le_of_lt_succ before) with earlier | rfl
      · have increasing := lt_of_getElem?_lineStarts earlier placed holds.starts
        omega
      · have startEq := Option.some.inj (placed.symm.trans holds.starts)
        omega
    · exact same
    · obtain ⟨placeWithin, _⟩ := List.getElem?_eq_some_iff.1 placed
      have startsNext := List.getElem?_eq_getElem (Nat.lt_trans behind placeWithin)
      have ended := holds.notEnded _ startsNext
      have increasing := lt_of_getElem?_lineStarts behind startsNext placed
      omega
  subst placeEq
  refine ⟨placed, Nat.le_refl _, ?_⟩
  intro next startsNext
  exact lt_of_getElem?_lineStarts (Nat.lt_succ_self _) placed startsNext

/-- Behind any other character it is still the same line. -/
theorem HoldsAt.behind_character
    {index start : Nat}
    {front back : Text}
    {c : Char}
    (holds : source.HoldsAt (Text.byteSize front) index start)
    (split : source.text = front ++ c :: back)
    (notNewline : c ≠ '\n') :
    source.HoldsAt (Text.byteSize front + c.utf8Size) index start := by
  refine ⟨holds.starts, Nat.le_add_right_of_le holds.begun, ?_⟩
  intro next startsNext
  have ended := holds.notEnded next startsNext
  have member := List.mem_of_getElem? startsNext
  rw [source.lineStarts_eq] at member
  rcases Text.mem_lineStarts_iff.1 member with rfl | ⟨front', back', split', rfl⟩
  · omega
  -- the newline before the next line stands behind the character
  · rcases List.append_eq_append_iff.1 (split.symm.trans split') with
      ⟨more, frontEq, restEq⟩ | ⟨more, frontEq, restEq⟩
    · cases more with
      | nil => exact absurd (List.cons.inj restEq).1 notNewline
      | cons d more =>
          obtain ⟨rfl, _⟩ := List.cons.inj restEq
          rw [frontEq, Text.byteSize_append, Text.byteSize_cons]
          omega
    · cases more with
      | nil => exact absurd (List.cons.inj restEq).1.symm notNewline
      | cons d more =>
          have positive := Char.utf8Size_pos d
          rw [frontEq, Text.byteSize_append, Text.byteSize_cons] at ended
          omega

/-- One character further, the point in the table is one step further. -/
theorem pointAt_step
    {front back : Text}
    {c : Char}
    (small : source.size + 1 < wordLimit)
    (split : source.text = front ++ c :: back) :
    (source.pointAt (Text.byteSize front)).step c =
      source.pointAt (Text.byteSize front + c.utf8Size) := by
  have sizeEq : source.size = Text.byteSize front + (c.utf8Size + Text.byteSize back) := by
    rw [source.size_eq, split, Text.byteSize_append, Text.byteSize_cons]
  have newlineCount : front.count '\n' ≤ Text.byteSize front :=
    Nat.le_trans List.count_le_length (Text.length_le_byteSize front)
  have lineEq := line_pointAt split
  have wrapped : ∀ value, value ≤ source.size + 1 → wrapWord value = value :=
    fun value within => Nat.mod_eq_of_lt (by omega)
  have within : Text.byteSize front ≤ source.size := by omega
  obtain ⟨index, start, holds⟩ := exists_holdsAt within
  rw [holds.pointAt_eq within] at lineEq ⊢
  obtain rfl : index = front.count '\n' := Nat.succ.inj lineEq
  have positive := Char.utf8Size_pos c
  by_cases newline : c = '\n'
  · subst newline
    have sizeOne : '\n'.utf8Size = 1 := rfl
    rw [sizeOne] at sizeEq ⊢
    rw [Point.step, if_pos rfl, (holds.behind_newline split).pointAt_eq (by omega)]
    simp only [wrapped _ (show front.count '\n' + 1 + 1 ≤ source.size + 1 by omega),
      wrapped _ (show Text.byteSize front + 1 ≤ source.size + 1 by omega), Nat.sub_self]
  · have begun := holds.begun
    rw [Point.step, if_neg newline,
      (holds.behind_character split newline).pointAt_eq (by omega)]
    simp only [
      wrapped _ (show Text.byteSize front - start + 1 + c.utf8Size ≤ source.size + 1 by omega),
      wrapped _ (show Text.byteSize front + c.utf8Size ≤ source.size + 1 by omega)]
    congr 1
    omega

private theorem pointAt_zero (source : Source) : source.pointAt 0 = Point.origin := by
  have holds : source.HoldsAt 0 0 0 := by
    refine ⟨source.head?_lineStarts, Nat.le_refl _, ?_⟩
    intro next startsNext
    exact lt_of_getElem?_lineStarts Nat.zero_lt_one source.head?_lineStarts startsNext
  rw [holds.pointAt_eq (Nat.zero_le _)]
  rfl

/-- Counting on from one point of a text comes to any later point. -/
theorem advance_pointAt
    {front between back : Text}
    (small : source.size + 1 < wordLimit)
    (split : source.text = front ++ between ++ back) :
    (source.pointAt (Text.byteSize front)).advance between =
      source.pointAt (Text.byteSize (front ++ between)) := by
  induction between generalizing front with
  | nil => rw [Point.advance_nil, List.append_nil]
  | cons c between inductionHypothesis =>
      have splitHere : source.text = front ++ c :: (between ++ back) := by simp [split]
      have splitLater : source.text = (front ++ [c]) ++ between ++ back := by simp [split]
      have later := inductionHypothesis splitLater
      have sizeEq : Text.byteSize (front ++ [c]) = Text.byteSize front + c.utf8Size := by
        rw [Text.byteSize_append, Text.byteSize_cons, Text.byteSize_nil, Nat.add_zero]
      rw [sizeEq] at later
      rw [Point.advance_cons, pointAt_step small splitHere, later, List.append_assoc,
        List.singleton_append]

/-- The table of lines, and what is found in it, is what a pass over the bytes
comes to. -/
structure AgreesWithRescan (source : Source) : Prop where
  table : source.lineStarts = Text.lineTable (Text.utf8 source.text)
  sought : ∀ offset, source.soughtPoint? offset = some (source.pointAt offset)
  rescanned : ∀ front back, source.text = front ++ back →
    source.pointAt (Text.byteSize front) = Point.origin.advanceBytes (Text.utf8 front)
  advanced : ∀ front between back, source.text = front ++ between ++ back →
    (source.pointAt (Text.byteSize front)).advanceBytes (Text.utf8 between) =
      source.pointAt (Text.byteSize (front ++ between))
  clamped : ∀ offset, source.size ≤ offset → source.pointAt offset = source.pointAt source.size
  lineStart : ∀ offset, offset ≤ source.size →
    source.soughtLineStart? offset = some (source.lineStartOf offset) ∧
      source.lineStartOf offset + (source.pointAt offset).column = offset + 1 ∧
      ∀ front back, source.text = front ++ '\n' :: back →
        ¬ (source.lineStartOf offset ≤ Text.byteSize front ∧ Text.byteSize front < offset)

/-- In a text that leaves room for the numbers of its points, the table of lines
agrees with a pass over the bytes. -/
theorem lineTable_agrees_with_rescan
    (small : source.size + 1 < wordLimit) :
    source.AgreesWithRescan where
  table := by rw [Text.lineTable_utf8, source.lineStarts_eq]
  sought := source.soughtPoint?_eq
  rescanned := by
    intro front back split
    have counted :
        (source.pointAt (Text.byteSize [])).advance front =
          source.pointAt (Text.byteSize ([] ++ front)) :=
      advance_pointAt small split
    rw [Text.byteSize_nil, pointAt_zero, List.nil_append] at counted
    rw [Point.advanceBytes_utf8, counted]
  advanced := by
    intro front between back split
    rw [Point.advanceBytes_utf8, advance_pointAt small split]
  clamped := by
    intro offset past
    rw [← pointAt_min, Nat.min_eq_right past]
  lineStart := by
    intro offset within
    obtain ⟨index, start, holds⟩ := exists_holdsAt within
    have begun := holds.begun
    rw [soughtLineStart?_eq, holds.lineStartOf_eq within, holds.pointAt_eq within]
    refine ⟨rfl, by simp only; omega, ?_⟩
    intro front back split between
    obtain ⟨fromStart, before⟩ := between
    have beforeStart := holds.le_start (mem_lineStarts_of_split split) before
    omega

/-- Characters of several bytes, a carriage return, an empty line and no newline
at the end. -/
def unevenLines : Source :=
  ofText "é😀\r\n\nx".toList

theorem lineTable_agrees_with_rescan_unevenLines :
    unevenLines.size + 1 < wordLimit ∧
      unevenLines.AgreesWithRescan ∧
      Point.origin.advanceBytes (Text.utf8 "é😀\r\n\n".toList) = ⟨3, 1, 9⟩ := by
  have small : unevenLines.size + 1 < wordLimit := by decide
  exact ⟨small, lineTable_agrees_with_rescan small, by decide⟩

end Source

end MacroRegions
