import MacroRegions.Proofs.LocationTag.Writing

/-!
The grammar of location tags.

A token is a location tag when it is a numeral behind a `#`, or a path and a numeral,
each behind a `#`. A path can be any text but the empty one; that it may have `#` and
digits in it does no harm, since a numeral has no `#`.
-/

namespace MacroRegions

namespace LocationTag

inductive IsToken : Text → LocationTag → Prop where
  | here {digits : Text} {line : Nat} (numeral : Text.IsNumeral digits line) :
      IsToken ('#' :: digits) (here line)
  | inFile {path digits : Text} {line : Nat}
      (nonempty : path ≠ [])
      (numeral : Text.IsNumeral digits line) :
      IsToken ('#' :: (path ++ '#' :: digits)) ⟨some path, line⟩

theorem parse?_eq_some_iff {token : Text} {tag : LocationTag} :
    parse? token = some tag ↔ IsToken token tag := by
  constructor
  · intro reads
    rcases parse?_eq_some_cases reads with
      ⟨digits, line, rfl, numeralEq, rfl⟩ | ⟨path, digits, line, rfl, nonempty, numeralEq, rfl⟩
    · exact .here (Text.numeral?_eq_some_iff.1 numeralEq)
    · exact .inFile nonempty (Text.numeral?_eq_some_iff.1 numeralEq)
  · intro isToken
    cases isToken with
    | here numeral => exact parse?_here (Text.numeral?_eq_some_iff.2 numeral)
    | inFile nonempty numeral => exact parse?_inFile nonempty (Text.numeral?_eq_some_iff.2 numeral)

/-- A tag is written as it was read, without the leading zeros of its line. -/
theorem IsToken.render_eq {token : Text} {tag : LocationTag} (isToken : IsToken token tag) :
    tag.render = Text.dropZerosAtEnd token := by
  have notDigit : Char.isDigit '#' = false := by decide
  cases isToken with
  | @here digits line numeral =>
      have trimmed := Text.dropZerosAtEnd_append [] notDigit numeral.allDigits
      rw [List.nil_append, List.nil_append] at trimmed
      rw [trimmed, ← numeral.numeral_eq]
      rfl
  | @inFile path digits line nonempty numeral =>
      have trimmed := Text.dropZerosAtEnd_append ('#' :: path) notDigit numeral.allDigits
      rw [List.cons_append, List.cons_append] at trimmed
      rw [trimmed, ← numeral.numeral_eq]
      rfl

/-- Each tag with a line that is a word and no empty path reads back. Reading accepts
the tokens of the grammar and no others, and what it reads from one is written as the
token without the leading zeros of its last digits. -/
theorem grammar_is_exact :
    (∀ tag : LocationTag,
        tag.filePath ≠ some [] → tag.line < wordLimit → parse? tag.render = some tag) ∧
      (∀ token tag, parse? token = some tag ↔ IsToken token tag) ∧
      ∀ token tag, parse? token = some tag → tag.render = Text.dropZerosAtEnd token := by
  refine ⟨?_, ?_, ?_⟩
  · intro tag nonempty small
    exact parse?_render_of_ne_some_nil small nonempty
  · intro token tag
    exact parse?_eq_some_iff
  · intro token tag reads
    exact (parse?_eq_some_iff.1 reads).render_eq

/-- A tag whose path is digits of no word. -/
def overflowingTag : LocationTag :=
  ⟨some "18446744073709551616".toList, 7⟩

theorem grammar_is_exact_overflowingTag :
    overflowingTag.filePath ≠ some [] ∧
      overflowingTag.line < wordLimit ∧
      parse? overflowingTag.render = some overflowingTag ∧
      parse? "#18446744073709551616#007".toList = some overflowingTag ∧
      overflowingTag.render = Text.dropZerosAtEnd "#18446744073709551616#007".toList := by
  obtain ⟨readsBack, _, written⟩ := grammar_is_exact
  have nonempty : overflowingTag.filePath ≠ some [] := by decide
  have small : overflowingTag.line < wordLimit := by decide
  have reads : parse? "#18446744073709551616#007".toList = some overflowingTag := by
    decide +kernel
  exact
    ⟨nonempty, small, readsBack overflowingTag nonempty small, reads,
      written _ overflowingTag reads⟩

/-- The same digits alone are no line. -/
example : parse? "#18446744073709551616".toList = none := by decide +kernel

end LocationTag

end MacroRegions
