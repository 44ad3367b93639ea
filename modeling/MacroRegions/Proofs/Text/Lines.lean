import MacroRegions.Text.Basic

/-!
First lines.

What a text holds up to its first newline, and when a piece of a text is just that
without one carriage return. Line comments and directives end by this rule.
-/

namespace MacroRegions.Text

private theorem withoutReturn_append_return (text : Text) :
    withoutReturn (text ++ ['\r']) = text := by
  have found : beforeSuffix? ['\r'] (text ++ ['\r']) = some text :=
    beforeSuffix?_eq_some_iff.2 rfl
  rw [withoutReturn, found, Option.getD_some]

private theorem withoutReturn_of_getLast?_ne
    {text : Text}
    (noReturn : text.getLast? ≠ some '\r') :
    withoutReturn text = text := by
  cases found : beforeSuffix? ['\r'] text with
  | none => rw [withoutReturn, found, Option.getD_none]
  | some front =>
      obtain rfl := beforeSuffix?_eq_some_iff.1 found
      simp at noReturn

/-- A text ends with a carriage return, which is left out, or it stays. -/
theorem withoutReturn_cases (text : Text) :
    text = withoutReturn text ++ ['\r'] ∨
      text.getLast? ≠ some '\r' ∧ withoutReturn text = text := by
  by_cases last : text.getLast? = some '\r'
  · left
    obtain ⟨front, rfl⟩ := List.getLast?_eq_some_iff.1 last
    rw [withoutReturn_append_return]
  · exact Or.inr ⟨last, withoutReturn_of_getLast?_ne last⟩

theorem withoutReturn_isPrefix (text : Text) : withoutReturn text <+: text := by
  rcases withoutReturn_cases text with equality | ⟨_, equality⟩
  · exact ⟨['\r'], equality.symm⟩
  · exact ⟨[], by rw [List.append_nil, equality]⟩

@[simp]
theorem firstLine_nil : firstLine [] = [] := rfl

@[simp]
theorem firstLine_newline (rest : Text) : firstLine ('\n' :: rest) = [] := rfl

theorem firstLine_cons_of_ne
    {c : Char}
    (different : c ≠ '\n')
    (rest : Text) :
    firstLine (c :: rest) = c :: firstLine rest := by
  simp [firstLine, different]

theorem firstLine_isPrefix (text : Text) : firstLine text <+: text :=
  List.takeWhile_prefix _

theorem newline_notMem_firstLine (text : Text) : '\n' ∉ firstLine text := by
  intro member
  have passes := List.all_eq_true.1 (List.all_takeWhile (p := (· ≠ '\n'))) '\n' member
  simp at passes

theorem firstLine_append_of_notMem
    {front : Text}
    (oneLine : '\n' ∉ front)
    (rest : Text) :
    firstLine (front ++ rest) = front ++ firstLine rest := by
  induction front with
  | nil => rfl
  | cons c front inductionHypothesis =>
      obtain ⟨different, later⟩ := not_or.1 (mt List.mem_cons.2 oneLine)
      rw [List.cons_append, firstLine_cons_of_ne (Ne.symm different),
        inductionHypothesis later, List.cons_append]

theorem firstLine_append_of_mem
    {front : Text}
    (ended : '\n' ∈ front)
    (rest : Text) :
    firstLine (front ++ rest) = firstLine front := by
  induction front with
  | nil => simp at ended
  | cons c front inductionHypothesis =>
      by_cases newline : c = '\n'
      · subst newline
        rfl
      · have later : '\n' ∈ front := by
          simpa [Ne.symm newline] using ended
        rw [List.cons_append, firstLine_cons_of_ne newline, firstLine_cons_of_ne newline,
          inductionHypothesis later]

/-- A piece is what a text holds up to its first newline, without one carriage
return, when it is on one line and the line ends behind it: at once, if the
piece does not itself end with a carriage return, or behind one that follows. -/
theorem withoutReturn_firstLine_append_iff {line rest : Text} :
    withoutReturn (firstLine (line ++ rest)) = line ↔
      '\n' ∉ line ∧
        (firstLine rest = [] ∧ line.getLast? ≠ some '\r' ∨ firstLine rest = ['\r']) := by
  constructor
  · intro held
    have oneLine : '\n' ∉ line := by
      intro member
      rw [← held] at member
      exact newline_notMem_firstLine _ ((withoutReturn_isPrefix _).subset member)
    rw [firstLine_append_of_notMem oneLine] at held
    refine ⟨oneLine, ?_⟩
    rcases withoutReturn_cases (line ++ firstLine rest) with equality | ⟨noReturn, equality⟩
    · rw [held] at equality
      exact Or.inr (List.append_cancel_left equality)
    · rw [held] at equality
      have ended : firstLine rest = [] :=
        List.append_cancel_left (equality.symm.trans (List.append_nil line).symm)
      rw [ended, List.append_nil] at noReturn
      exact Or.inl ⟨ended, noReturn⟩
  · rintro ⟨oneLine, ⟨ended, noReturn⟩ | ended⟩
    · rw [firstLine_append_of_notMem oneLine, ended, List.append_nil,
        withoutReturn_of_getLast?_ne noReturn]
    · rw [firstLine_append_of_notMem oneLine, ended, withoutReturn_append_return]

/-- A piece stays what a text holds up to its first newline when the line ends
behind it as before. -/
theorem withoutReturn_firstLine_append_congr
    {line rest rest' : Text}
    (sameEnd : firstLine rest = [] ∨ firstLine rest = ['\r'] → firstLine rest' = firstLine rest)
    (held : withoutReturn (firstLine (line ++ rest)) = line) :
    withoutReturn (firstLine (line ++ rest')) = line := by
  obtain ⟨oneLine, lineEnd⟩ := withoutReturn_firstLine_append_iff.1 held
  have sameLine : firstLine rest' = firstLine rest := by
    refine sameEnd ?_
    rcases lineEnd with ⟨none, _⟩ | return'
    · exact Or.inl none
    · exact Or.inr return'
  refine withoutReturn_firstLine_append_iff.2 ⟨oneLine, ?_⟩
  rw [sameLine]
  exact lineEnd

end MacroRegions.Text
