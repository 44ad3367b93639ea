import MacroRegions.Text.Basic

/-!
Decimal numerals.

Lines, columns and offsets are 64-bit words. A numeral is read only when its
value fits a word; leading zeros are allowed. What is written for a word reads
back.
-/

namespace MacroRegions

/-- One more than the largest word. -/
def wordLimit : Nat := 0x10000000000000000

/-- The word that a sum comes to, counted round past the largest one. -/
def wrapWord (value : Nat) : Nat :=
  value % wordLimit

namespace Text

def numeral (value : Nat) : Text :=
  Nat.toDigits 10 value

/-- The word that a text of ASCII digits stands for. -/
def numeral? (text : Text) : Option Nat :=
  if text.isEmpty || !text.all Char.isDigit then
    none
  else
    let value := Nat.ofDigitChars 10 text 0
    if value < wordLimit then some value else none

theorem numeral_ne_nil (value : Nat) : numeral value ≠ [] := by
  rw [numeral, Nat.toDigits_eq_if (by decide)]
  split <;> simp

theorem isDigit_of_mem_numeral {value : Nat} {c : Char} (member : c ∈ numeral value) :
    c.isDigit = true :=
  Nat.isDigit_of_mem_toDigits (by decide) (by decide) member

theorem numeral?_numeral {value : Nat} (small : value < wordLimit) :
    numeral? (numeral value) = some value := by
  have digits : (numeral value).all Char.isDigit = true :=
    List.all_eq_true.2 fun _ member => isDigit_of_mem_numeral member
  have someDigit : (numeral value).isEmpty = false := by
    simpa using numeral_ne_nil value
  have reads : Nat.ofDigitChars 10 (numeral value) 0 = value :=
    Nat.ofDigitChars_toDigits (by decide) (by decide)
  simp only [numeral?, digits, someDigit, reads, Bool.not_true, Bool.or_false,
    Bool.false_eq_true, if_false, if_pos small]

end Text

end MacroRegions
