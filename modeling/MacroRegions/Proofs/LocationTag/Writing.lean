import MacroRegions.LocationTag
import MacroRegions.Proofs.Text.Numerals
import MacroRegions.Proofs.Text.Words

/-!
Written location tags.

A tag can be written when its line is a word and its path, if it has one, is not empty
and has no blank. Such a tag reads back, and every tag that is read from a word
without blanks is one.
-/

namespace MacroRegions

private theorem isBlank_eq_false_of_isDigit {c : Char} (digit : c.isDigit = true) :
    isBlank c = false := by
  have bounds := Text.toNat_bounds_of_isDigit digit
  unfold isBlank
  simp only [Bool.or_eq_false_iff, Bool.and_eq_false_iff, decide_eq_false_iff_not,
    beq_eq_false_iff_ne]
  omega

namespace LocationTag

structure IsWritable (tag : LocationTag) : Prop where
  line_lt : tag.line < wordLimit
  path : ∀ path, tag.filePath = some path → path ≠ [] ∧ Text.BlankFree path

theorem isWritable_here {line : Nat} (small : line < wordLimit) : (here line).IsWritable :=
  ⟨small, by simp [here]⟩

private theorem splitLastHash?_append
    {path digits : Text}
    (noHash : '#' ∉ digits) :
    splitLastHash? (path ++ '#' :: digits) = some (path, digits) := by
  have passes : ∀ c ∈ digits.reverse, decide (c ≠ '#') = true := by
    intro c member
    have different : c ≠ '#' := fun same => noHash (same ▸ List.mem_reverse.1 member)
    simpa using different
  have reversed :
      (path ++ '#' :: digits).reverse = digits.reverse ++ '#' :: path.reverse := by simp
  rw [splitLastHash?, reversed, List.dropWhile_append_of_pos passes,
    List.takeWhile_append_of_pos passes]
  simp

private theorem splitLastHash?_eq_some
    {text path digits : Text}
    (found : splitLastHash? text = some (path, digits)) :
    text = path ++ '#' :: digits := by
  have split := List.takeWhile_append_dropWhile (p := (· ≠ '#')) (l := text.reverse)
  have headEq := List.head?_dropWhile_not (· ≠ '#') text.reverse
  unfold splitLastHash? at found
  split at found
  · simp at found
  · next c front dropped =>
      obtain ⟨rfl, rfl⟩ : front.reverse = path ∧ _ = digits := by simpa using found
      rw [dropped] at split headEq
      obtain rfl : c = '#' := by simpa using headEq
      have forward := congrArg List.reverse split
      simpa using forward.symm

theorem parse?_here
    {digits : Text}
    {line : Nat}
    (reads : Text.numeral? digits = some line) :
    parse? ('#' :: digits) = some (here line) := by
  simp [parse?, reads]

theorem parse?_inFile
    {path digits : Text}
    {line : Nat}
    (nonempty : path ≠ [])
    (reads : Text.numeral? digits = some line) :
    parse? ('#' :: (path ++ '#' :: digits)) = some ⟨some path, line⟩ := by
  have noHash : '#' ∉ digits := fun member =>
    absurd ((Text.numeral?_eq_some_iff.1 reads).allDigits '#' member) (by decide)
  have notNumeral : Text.numeral? (path ++ '#' :: digits) = none := by
    have notDigit : (path ++ '#' :: digits).all Char.isDigit = false := by
      simp [List.all_append]
    simp [Text.numeral?, notDigit]
  simp [parse?, notNumeral, splitLastHash?_append noHash, nonempty, reads]

/-- A tag with a path that is not empty reads back. -/
theorem parse?_render_of_ne_some_nil
    {tag : LocationTag}
    (small : tag.line < wordLimit)
    (nonempty : tag.filePath ≠ some []) :
    parse? tag.render = some tag := by
  obtain ⟨filePath, line⟩ := tag
  have reads := Text.numeral?_numeral small
  cases filePath with
  | none => exact parse?_here reads
  | some path => exact parse?_inFile (fun isEmpty => nonempty (congrArg some isEmpty)) reads

/-- A tag that can be written reads back. -/
theorem parse?_render {tag : LocationTag} (writable : tag.IsWritable) :
    parse? tag.render = some tag := by
  apply parse?_render_of_ne_some_nil writable.line_lt
  intro pathEq
  exact (writable.path [] pathEq).1 rfl

/-- What a word is that reads as a tag. -/
theorem parse?_eq_some_cases
    {word : Text}
    {tag : LocationTag}
    (reads : parse? word = some tag) :
    (∃ digits line,
        word = '#' :: digits ∧ Text.numeral? digits = some line ∧ tag = here line) ∨
      ∃ path digits line,
        word = '#' :: (path ++ '#' :: digits) ∧
          path ≠ [] ∧ Text.numeral? digits = some line ∧ tag = ⟨some path, line⟩ := by
  unfold parse? at reads
  split at reads
  · next rest =>
      split at reads
      · next line numeralEq =>
          exact Or.inl ⟨rest, line, rfl, numeralEq, (Option.some.inj reads).symm⟩
      · split at reads
        · next path digits found =>
            split at reads
            · simp at reads
            · next nonempty =>
                obtain ⟨line, numeralEq, rfl⟩ := Option.map_eq_some_iff.1 reads
                refine Or.inr ⟨path, digits, line, ?_, by simpa using nonempty, numeralEq, rfl⟩
                rw [splitLastHash?_eq_some found]
        · simp at reads
  · simp at reads

theorem path_infix_of_parse?
    {word path : Text}
    {tag : LocationTag}
    (reads : parse? word = some tag)
    (pathEq : tag.filePath = some path) :
    path <:+: word := by
  rcases parse?_eq_some_cases reads with
    ⟨_, _, _, _, rfl⟩ | ⟨path', digits, _, rfl, _, _, rfl⟩
  · simp [here] at pathEq
  · obtain rfl := Option.some.inj pathEq
    exact ⟨['#'], '#' :: digits, by simp⟩

/-- A tag that is read from a word without blanks can be written. -/
theorem isWritable_of_parse?
    {word : Text}
    {tag : LocationTag}
    (reads : parse? word = some tag)
    (wordFree : Text.BlankFree word) :
    tag.IsWritable := by
  have pathFree : ∀ path, tag.filePath = some path → Text.BlankFree path :=
    fun path pathEq c member => wordFree c ((path_infix_of_parse? reads pathEq).subset member)
  rcases parse?_eq_some_cases reads with
    ⟨_, line, _, numeralEq, rfl⟩ | ⟨path, digits, line, _, nonempty, numeralEq, rfl⟩
  · exact isWritable_here (Text.numeral?_eq_some_iff.1 numeralEq).value_lt
  · refine ⟨(Text.numeral?_eq_some_iff.1 numeralEq).value_lt, ?_⟩
    intro path' pathEq
    obtain rfl := Option.some.inj pathEq
    exact ⟨nonempty, pathFree path rfl⟩

theorem render_eq_cons (tag : LocationTag) : ∃ rest, tag.render = '#' :: rest := by
  unfold render
  split
  · exact ⟨_, rfl⟩
  · exact ⟨_, rfl⟩

/-- A written tag ends with its line. -/
theorem exists_render_eq_append_numeral (tag : LocationTag) :
    ∃ front, tag.render = front ++ Text.numeral tag.line := by
  unfold render
  split
  · exact ⟨['#'], rfl⟩
  · next path _ => exact ⟨'#' :: (path ++ ['#']), by simp⟩

theorem isDigit_of_getLast?_render
    {front : Text}
    {tag : LocationTag}
    {c : Char}
    (lastEq : (front ++ tag.render).getLast? = some c) :
    c.isDigit = true := by
  obtain ⟨before, renderEq⟩ := exists_render_eq_append_numeral tag
  rw [renderEq, ← List.append_assoc, List.getLast?_append,
    List.getLast?_eq_some_getLast (Text.numeral_ne_nil tag.line), Option.some_or] at lastEq
  obtain rfl := Option.some.inj lastEq
  exact Text.isDigit_of_mem_numeral (List.getLast_mem _)

theorem blankFree_render {tag : LocationTag} (writable : tag.IsWritable) :
    Text.BlankFree tag.render := by
  have digitsFree : Text.BlankFree (Text.numeral tag.line) :=
    fun c member => isBlank_eq_false_of_isDigit (Text.isDigit_of_mem_numeral member)
  have hashFree : isBlank '#' = false := by decide
  intro c member
  unfold render at member
  split at member
  · rcases List.mem_cons.1 member with rfl | inDigits
    · exact hashFree
    · exact digitsFree c inDigits
  · next path pathEq =>
      rw [List.cons_append, List.mem_cons, List.mem_append, List.mem_cons] at member
      rcases member with rfl | inPath | rfl | inDigits
      · exact hashFree
      · exact (writable.path path pathEq).2 c inPath
      · exact hashFree
      · exact digitsFree c inDigits

/-- A character of a written tag that is neither a `#` nor a digit stands in
the path. -/
theorem mem_path_of_mem_render
    {tag : LocationTag}
    {c : Char}
    (member : c ∈ tag.render)
    (notHash : c ≠ '#')
    (notDigit : c.isDigit = false) :
    ∃ path, tag.filePath = some path ∧ c ∈ path := by
  have notInDigits : c ∉ Text.numeral tag.line := by
    intro inDigits
    rw [Text.isDigit_of_mem_numeral inDigits] at notDigit
    exact absurd notDigit (by decide)
  unfold render at member
  split at member
  · simp [notHash, notInDigits] at member
  · next path pathEq =>
      refine ⟨path, pathEq, ?_⟩
      simpa [notHash, notInDigits] using member

end LocationTag

end MacroRegions
