import MacroRegions.Proofs.Text.Words

/-!
Phrases with a space between them.

A phrase stands on one line and has no blank at its ends. Phrases put behind one
another with a space are a phrase again, and some of them may be missing.
-/

namespace MacroRegions.Text

/-- A text on one line that neither begins nor ends with a blank. -/
structure IsPhrase (text : Text) : Prop where
  nonempty : text ≠ []
  oneLine : '\n' ∉ text
  starts : StartsVisible text
  ends : EndsVisible text

theorem IsPhrase.of_blankFree
    {text : Text}
    (nonempty : text ≠ [])
    (blankFree : BlankFree text) :
    IsPhrase text :=
  ⟨nonempty, blankFree.newline_notMem, blankFree.startsVisible, blankFree.endsVisible⟩

def spaced : Option Text → Text
  | none => []
  | some part => ' ' :: part

/-- The text ends here or goes on with a space. -/
theorem endsWord_spaced_append (part rest : Option Text) :
    endsWord (spaced part ++ spaced rest) = true := by
  cases part with
  | some text => rfl
  | none =>
      cases rest with
      | some text => rfl
      | none => rfl

theorem newline_notMem_spaced
    {part : Option Text}
    (parts : ∀ text, part = some text → IsPhrase text) :
    '\n' ∉ spaced part := by
  cases part with
  | none => simp [spaced]
  | some text => simp [spaced, (parts text rfl).oneLine]

theorem IsPhrase.append_spaced
    {front : Text}
    {part : Option Text}
    (isPhrase : IsPhrase front)
    (parts : ∀ text, part = some text → IsPhrase text) :
    IsPhrase (front ++ spaced part) := by
  cases part with
  | none => simpa [spaced] using isPhrase
  | some text =>
      have behind := parts text rfl
      refine ⟨by simp [spaced], ?_, isPhrase.starts.append _ isPhrase.nonempty, ?_⟩
      · simp [spaced, isPhrase.oneLine, behind.oneLine]
      · have ends := behind.ends.append (front ++ [' ']) behind.nonempty
        simpa [spaced] using ends

theorem endsVisible_spaced
    {part : Option Text}
    (parts : ∀ text, part = some text → IsPhrase text) :
    EndsVisible (spaced part) := by
  cases part with
  | none => simp [spaced, EndsVisible]
  | some text => exact (parts text rfl).ends.append [' '] (parts text rfl).nonempty

theorem trim_spaced_append
    {part : Option Text}
    {back : Text}
    (parts : ∀ text, part = some text → IsPhrase text)
    (backBlank : AllBlank back) :
    trim (spaced part ++ back) = part.getD [] := by
  cases part with
  | none =>
      have nothing := trim_append_of_allBlank [] backBlank
      rw [spaced, nothing]
      rfl
  | some text =>
      exact
        trim_append_append allBlank_space (parts text rfl).starts (parts text rfl).ends
          backBlank

/-- A space before a text is no part of the text's last word. -/
theorem splitLastWord_spaced (part : Option Text) :
    (splitLastWord (spaced part)).2 = (splitLastWord (part.getD [])).2 := by
  cases part with
  | none => rfl
  | some text =>
      have frontBlank : ∀ c, (' ' :: (splitLastWord text).1).getLast? = some c →
          isBlank c = true := by
        intro c lastEq
        cases frontEq : (splitLastWord text).1 with
        | nil =>
            obtain rfl : ' ' = c := by simpa [frontEq] using lastEq
            decide
        | cons d rest =>
            apply splitLastWord_front text c
            rw [frontEq] at lastEq ⊢
            simpa using lastEq
      have found := splitLastWord_append_word (blankFree_splitLastWord text) frontBlank
      rw [List.cons_append, splitLastWord_append] at found
      rw [spaced, found, Option.getD_some]

private theorem lines_go_of_notMem
    {text : Text}
    (oneLine : '\n' ∉ text)
    (reversed : Text)
    (nonempty : reversed ≠ [] ∨ text ≠ []) :
    lines.go reversed text = [reversed.reverse ++ text] := by
  induction text generalizing reversed with
  | nil =>
      have some : reversed ≠ [] := nonempty.resolve_right (by simp)
      simp [lines.go, some]
  | cons c rest inductionHypothesis =>
      obtain ⟨different, later⟩ := not_or.1 (mt List.mem_cons.2 oneLine)
      rw [lines.go, if_neg (Ne.symm different),
        inductionHypothesis later (c :: reversed) (Or.inl (by simp))]
      simp

theorem IsPhrase.lines_eq {text : Text} (isPhrase : IsPhrase text) : lines text = [text] :=
  lines_go_of_notMem isPhrase.oneLine [] (Or.inr isPhrase.nonempty)

end MacroRegions.Text
