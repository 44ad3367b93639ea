import MacroRegions.Text.Basic

/-!
Blank characters and trimming.

A character is blank when it has the Unicode property `White_Space`. The main
statement says that trimming cuts a text into a blank front, the trimmed text
and a blank back.
-/

namespace MacroRegions

/-- Whether a character has the Unicode property `White_Space`. -/
def isBlank (c : Char) : Bool :=
  let code := c.toNat
  (0x09 ≤ code && code ≤ 0x0D) || code == 0x20 || code == 0x85 || code == 0xA0 ||
    code == 0x1680 || (0x2000 ≤ code && code ≤ 0x200A) || code == 0x2028 ||
    code == 0x2029 || code == 0x202F || code == 0x205F || code == 0x3000

namespace Text

def trimStart (text : Text) : Text :=
  text.dropWhile isBlank

def trimEnd (text : Text) : Text :=
  (text.reverse.dropWhile isBlank).reverse

def trim (text : Text) : Text :=
  trimEnd (trimStart text)

def indentSize (text : Text) : Nat :=
  byteSize (text.takeWhile isBlank)

/-- Whether a word that ends before `text` is a whole word: the text is over
or goes on with a blank. -/
def endsWord : Text → Bool
  | [] => true
  | c :: _ => isBlank c

/-- A text cut before its last word: everything up to and including the last
blank, and the word after it. -/
def splitLastWord (text : Text) : Text × Text :=
  let reversed := text.reverse
  ((reversed.dropWhile (!isBlank ·)).reverse, (reversed.takeWhile (!isBlank ·)).reverse)

theorem takeWhile_append_trimStart (text : Text) :
    text.takeWhile isBlank ++ trimStart text = text :=
  List.takeWhile_append_dropWhile

theorem trimEnd_append_takeWhile (text : Text) :
    trimEnd text ++ (text.reverse.takeWhile isBlank).reverse = text := by
  rw [trimEnd, ← List.reverse_append, List.takeWhile_append_dropWhile, List.reverse_reverse]

/-- Trimming takes away a blank front and a blank back, and nothing else. -/
theorem exists_trim_eq (text : Text) :
    ∃ front back,
      text = front ++ trim text ++ back ∧
        front.all isBlank = true ∧ back.all isBlank = true := by
  refine
    ⟨text.takeWhile isBlank, ((trimStart text).reverse.takeWhile isBlank).reverse, ?_, ?_, ?_⟩
  · rw [List.append_assoc, trim, trimEnd_append_takeWhile, takeWhile_append_trimStart]
  · exact List.all_takeWhile
  · rw [List.all_reverse]
    exact List.all_takeWhile

theorem splitLastWord_append (text : Text) :
    (splitLastWord text).1 ++ (splitLastWord text).2 = text := by
  rw [splitLastWord, ← List.reverse_append, List.takeWhile_append_dropWhile,
    List.reverse_reverse]

end Text

end MacroRegions
