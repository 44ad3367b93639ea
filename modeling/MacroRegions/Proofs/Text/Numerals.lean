import MacroRegions.Text.Numeral

/-!
Numerals and their values.

A numeral is a run of digits whose value is a word. Reading accepts just these, and
writing the value of a numeral gives the numeral back without its leading zeros.
-/

namespace MacroRegions

namespace Text

theorem toNat_bounds_of_isDigit {c : Char} (digit : c.isDigit = true) :
    48 ≤ c.toNat ∧ c.toNat ≤ 57 := by
  simpa [Char.isDigit, UInt32.le_iff_toNat_le] using digit

private theorem digitChar_of_isDigit {c : Char} (digit : c.isDigit = true) :
    Nat.digitChar (c.toNat - '0'.toNat) = c := by
  have bounds := toNat_bounds_of_isDigit digit
  have zeroEq : '0'.toNat = 48 := rfl
  apply Char.toNat_inj.1
  rw [Nat.toNat_digitChar_of_lt_ten (by omega)]
  omega

/-- One or more digits, and the word that they stand for. -/
structure IsNumeral (digits : Text) (value : Nat) : Prop where
  nonempty : digits ≠ []
  allDigits : ∀ c ∈ digits, c.isDigit = true
  value_eq : Nat.ofDigitChars 10 digits 0 = value
  value_lt : value < wordLimit

theorem numeral?_eq_some_iff {digits : Text} {value : Nat} :
    numeral? digits = some value ↔ IsNumeral digits value := by
  by_cases refused : digits.isEmpty || !digits.all Char.isDigit
  · rw [numeral?, if_pos refused]
    simp only [Bool.or_eq_true, List.isEmpty_iff, Bool.not_eq_true', List.all_eq_false] at refused
    apply iff_of_false
    · simp
    · intro isNumeral
      rcases refused with empty | ⟨c, member, notDigit⟩
      · exact isNumeral.nonempty empty
      · exact notDigit (isNumeral.allDigits c member)
  · rw [numeral?, if_neg refused]
    simp only [Bool.or_eq_true, List.isEmpty_iff, Bool.not_eq_true', not_or,
      Bool.not_eq_false, List.all_eq_true] at refused
    simp only [Option.ite_none_right_eq_some, Option.some.injEq]
    constructor
    · intro reads
      exact ⟨refused.1, refused.2, reads.2, reads.2 ▸ reads.1⟩
    · intro isNumeral
      exact ⟨isNumeral.value_eq ▸ isNumeral.value_lt, isNumeral.value_eq⟩

/-- Digits without the zeros before the first other digit. Of zeros alone the
last one stays. -/
def dropLeadingZeros : Text → Text
  | '0' :: c :: rest => dropLeadingZeros (c :: rest)
  | digits => digits

/-- Digits that go on behind a number above zero are written as they are. -/
theorem numeral_ofDigitChars_of_pos
    {digits : Text}
    {front : Nat}
    (allDigits : ∀ c ∈ digits, c.isDigit = true)
    (positive : 0 < front) :
    numeral (Nat.ofDigitChars 10 digits front) = numeral front ++ digits := by
  induction digits generalizing front with
  | nil => simp
  | cons c rest inductionHypothesis =>
      have digit := allDigits c List.mem_cons_self
      have bounds := toNat_bounds_of_isDigit digit
      have zeroEq : '0'.toNat = 48 := rfl
      have small : c.toNat - '0'.toNat < 10 := by omega
      have written : numeral (10 * front + (c.toNat - '0'.toNat)) = numeral front ++ [c] := by
        have appended := Nat.toDigits_append_toDigits (b := 10) (by decide) positive small
        rw [Nat.toDigits_of_lt_base small, digitChar_of_isDigit digit] at appended
        exact appended.symm
      have restDigits : ∀ d ∈ rest, d.isDigit = true := fun d member =>
        allDigits d (List.mem_cons_of_mem _ member)
      rw [Nat.ofDigitChars_cons, inductionHypothesis restDigits (by omega), written,
        List.append_assoc, List.singleton_append]

/-- The value of digits is written as the digits without their leading zeros. -/
theorem numeral_ofDigitChars
    {digits : Text}
    (nonempty : digits ≠ [])
    (allDigits : ∀ c ∈ digits, c.isDigit = true) :
    numeral (Nat.ofDigitChars 10 digits 0) = dropLeadingZeros digits := by
  fun_induction dropLeadingZeros digits with
  | case1 c rest inductionHypothesis =>
      rw [Nat.ofDigitChars_cons]
      apply inductionHypothesis (List.cons_ne_nil c rest)
      exact fun d member => allDigits d (List.mem_cons_of_mem _ member)
  | case2 digits notLeading =>
      cases digits with
      | nil => exact absurd rfl nonempty
      | cons c rest =>
          have digit := allDigits c List.mem_cons_self
          have bounds := toNat_bounds_of_isDigit digit
          have zeroEq : '0'.toNat = 48 := rfl
          have written : numeral (c.toNat - '0'.toNat) = [c] := by
            rw [numeral, Nat.toDigits_of_lt_base (by omega), digitChar_of_isDigit digit]
          rw [Nat.ofDigitChars_cons, Nat.mul_zero, Nat.zero_add]
          cases rest with
          | nil => rw [Nat.ofDigitChars_nil, written]
          | cons d others =>
              have positive : 0 < c.toNat - '0'.toNat := by
                have notZero : c.toNat ≠ 48 := by
                  intro same
                  exact notLeading d others (by rw [show c = '0' from Char.toNat_inj.1 same])
                omega
              rw [numeral_ofDigitChars_of_pos
                (fun e member => allDigits e (List.mem_cons_of_mem _ member)) positive, written,
                List.singleton_append]

theorem IsNumeral.numeral_eq {digits : Text} {value : Nat} (isNumeral : IsNumeral digits value) :
    numeral value = dropLeadingZeros digits := by
  rw [← isNumeral.value_eq, numeral_ofDigitChars isNumeral.nonempty isNumeral.allDigits]

/-- A text whose last run of digits, if it ends with one, is without its leading
zeros. -/
def dropZerosAtEnd (text : Text) : Text :=
  (text.reverse.dropWhile Char.isDigit).reverse ++
    dropLeadingZeros (text.reverse.takeWhile Char.isDigit).reverse

theorem dropZerosAtEnd_append
    {digits : Text}
    {c : Char}
    (front : Text)
    (notDigit : c.isDigit = false)
    (allDigits : ∀ d ∈ digits, d.isDigit = true) :
    dropZerosAtEnd (front ++ c :: digits) = front ++ c :: dropLeadingZeros digits := by
  have passes : ∀ d ∈ digits.reverse, d.isDigit = true := fun d member =>
    allDigits d (List.mem_reverse.1 member)
  have stops : ¬ c.isDigit = true := by
    rw [notDigit]
    exact Bool.false_ne_true
  have reversed : (front ++ c :: digits).reverse = digits.reverse ++ c :: front.reverse := by simp
  rw [dropZerosAtEnd, reversed, List.dropWhile_append_of_pos passes,
    List.takeWhile_append_of_pos passes, List.dropWhile_cons_of_neg stops,
    List.takeWhile_cons_of_neg stops]
  simp

end Text

end MacroRegions
