import MacroRegions.Text.Numeral
import MacroRegions.Toml.Quoted
import MacroRegions.Toml.Value

/-!
Flags, numbers and dates of TOML.

Each of these is one unquoted word, except that spaces may stand in it, as
between a date and a time. What a word begins with decides which of them it
is. A date is read at once. Of an integer it is only made sure that its
underscores are in place; whether it is one shows when it is asked for.
-/

namespace MacroRegions

namespace Toml

def isDigitOf (base : Nat) (c : Char) : Bool :=
  (hexDigit? c).any (· < base)

def isDigits (text : Text) : Bool :=
  !text.isEmpty && text.all Char.isDigit

def valueOf (base : Nat) (digits : Text) : Nat :=
  digits.foldl (fun value c => value * base + (hexDigit? c).getD 0) 0

/-- A text without the sign it may begin with, and whether that is a minus. -/
def splitSign : Text → Bool × Text
  | '+' :: rest => (false, rest)
  | '-' :: rest => (true, rest)
  | text => (false, text)

/-- Whether a number begins with a zero that has more digits behind it. -/
def hasLeadingZero : Text → Bool
  | '0' :: c :: _ => c.isDigit || c = '_'
  | _ => false

/-- Whether every underscore of a text stands between two digits. What stands
before the text is told by `behindDigit`. -/
def underscoresFit (isDigit : Char → Bool) : (behindDigit : Bool) → Text → Bool
  | _, [] => true
  | behindDigit, '_' :: rest =>
    behindDigit && rest.head?.any isDigit && underscoresFit isDigit false rest
  | _, c :: rest => underscoresFit isDigit (isDigit c) rest

def isSeparated (isDigit : Char → Bool) (word : Text) : Bool :=
  underscoresFit isDigit false word

def withoutUnderscores (word : Text) : Text :=
  word.filter (· ≠ '_')

/-- Whether an integer is in range: it fits 128 bits, with or without a sign. -/
def integerInRange (negative : Bool) (magnitude : Nat) : Bool :=
  if negative then magnitude ≤ 1 <<< 127 else magnitude < 1 <<< 128

/-- Reads the digits of an integer in a base other than ten. There may be none,
but then the integer cannot be read. -/
def readBased? (base : Nat) (word : Text) : Option Value :=
  let digits := withoutUnderscores word
  if digits.all (isDigitOf base) && isSeparated (isDigitOf base) word then
    some (.number (!digits.isEmpty && integerInRange false (valueOf base digits)))
  else
    none

/-- Reads a decimal integer. Behind an underscore there may be anything but
spaces, but then the integer cannot be read. -/
def readDecimal? (word : Text) : Option Value :=
  let (negative, magnitude) := splitSign word
  let rest := magnitude.dropWhile Char.isDigit
  if magnitude.isEmpty || hasLeadingZero magnitude || rest.contains ' ' then
    none
  else if rest.head?.all (· = '_') && isSeparated (isDigitOf 16) word then
    let digits := withoutUnderscores magnitude
    some (.number (isDigits digits && integerInRange negative (valueOf 10 digits)))
  else
    none

/-- Whether the number that `digits` stand for, times a power of ten, rounds to
a finite number of double precision. -/
def floatInRange (digits : Text) (exponentNegative : Bool) (exponent : Nat) : Bool :=
  let digits := digits.dropWhile (· = '0')
  let bound := (1 <<< 54 - 1) <<< 970
  if digits.isEmpty then
    true
  else if exponentNegative then
    digits.length ≤ exponent + 300 ||
      decide (valueOf 10 digits < bound * Nat.pow 10 exponent)
  else if 400 < digits.length + exponent then
    false
  else
    decide (valueOf 10 digits * Nat.pow 10 exponent < bound)

def isExponentMark (c : Char) : Bool :=
  c = 'e' || c = 'E'

def readFloat? (word : Text) : Option Value :=
  let (_, magnitude) := splitSign word
  let plain := withoutUnderscores magnitude
  let mantissa := plain.takeWhile (!isExponentMark ·)
  let whole := mantissa.takeWhile (· ≠ '.')
  let fraction := mantissa.dropWhile (· ≠ '.')
  let exponent := plain.dropWhile (!isExponentMark ·)
  let (negative, exponentDigits) := splitSign (exponent.drop 1)
  if !hasLeadingZero magnitude && isSeparated Char.isDigit word && isDigits whole &&
      (fraction.isEmpty || isDigits (fraction.drop 1)) &&
      (exponent.isEmpty || isDigits exponentDigits) then
    let digits := whole ++ fraction.drop 1
    let places := (fraction.drop 1).length
    let exponent := valueOf 10 exponentDigits
    some (.number
      (if negative then
        floatInRange digits true (exponent + places)
      else if exponent < places then
        floatInRange digits true (places - exponent)
      else
        floatInRange digits false (exponent - places)))
  else
    none

/-! ## Dates and times -/

/-- Takes exactly `count` digits and gives their value and what follows. -/
def takeDigits? (count : Nat) (text : Text) : Option (Nat × Text) :=
  let front := text.take count
  if front.length = count && front.all Char.isDigit then
    some (valueOf 10 front, text.drop count)
  else
    none

def daysOfMonth (year month : Nat) : Nat :=
  if month = 2 then
    if year % 4 = 0 && (year % 100 ≠ 0 || year % 400 = 0) then 29 else 28
  else if month = 4 || month = 6 || month = 9 || month = 11 then
    30
  else
    31

def takeDate? (text : Text) : Option Text := do
  let (year, text) ← takeDigits? 4 text
  let text ← Text.afterPrefix? ['-'] text
  let (month, text) ← takeDigits? 2 text
  let text ← Text.afterPrefix? ['-'] text
  let (day, text) ← takeDigits? 2 text
  if 1 ≤ month && month ≤ 12 && 1 ≤ day && day ≤ daysOfMonth year month then
    some text
  else
    none

/-- Takes a time. The seconds may be left out. -/
def takeTime? (text : Text) : Option Text := do
  let (hour, text) ← takeDigits? 2 text
  let text ← Text.afterPrefix? [':'] text
  let (minute, text) ← takeDigits? 2 text
  if 23 < hour || 59 < minute then
    none
  else
    match text with
    | ':' :: text => do
      let (second, text) ← takeDigits? 2 text
      if 60 < second then
        none
      else
        match text with
        | '.' :: fraction =>
          if (fraction.takeWhile Char.isDigit).isEmpty then
            none
          else
            some (fraction.dropWhile Char.isDigit)
        | _ => some text
    | _ => some text

/-- Whether a text is the difference of a time from universal time. -/
def isTimeOffset (text : Text) : Bool :=
  match text with
  | ['Z'] | ['z'] => true
  | sign :: rest =>
    (sign = '+' || sign = '-') &&
      (do
        let (hours, rest) ← takeDigits? 2 rest
        let rest ← Text.afterPrefix? [':'] rest
        let (minutes, rest) ← takeDigits? 2 rest
        some (hours ≤ 23 && minutes ≤ 59 && rest.isEmpty)).getD false
  | [] => false

def readDate? (word : Text) : Option Value :=
  let isDate :=
    match takeDate? word with
    | some [] => true
    | some (mark :: rest) =>
      (mark = 'T' || mark = 't' || mark = ' ') &&
        match takeTime? rest with
        | some [] => true
        | some offset => isTimeOffset offset
        | none => false
    | none => takeTime? word = some []
  if isDate then some .date else none

/-- Reads a number or a date, by what follows the digits that the word begins
with. -/
def readNumber? (word : Text) : Option Value :=
  let (_, magnitude) := splitSign word
  let rest := magnitude.dropWhile Char.isDigit
  if magnitude = ['i', 'n', 'f'] || magnitude = ['n', 'a', 'n'] then
    some (.number true)
  else if rest.head?.any (fun c => c = '-' || c = ':') then
    readDate? word
  else if rest.any (fun c => c = '.' || isExponentMark c) then
    readFloat? word
  else
    readDecimal? word

def readScalar? (word : Text) : Option Value :=
  match word with
  | ['t', 'r', 'u', 'e'] => some (.flag true)
  | ['f', 'a', 'l', 's', 'e'] => some (.flag false)
  | '0' :: 'x' :: digits => readBased? 16 digits
  | '0' :: 'o' :: digits => readBased? 8 digits
  | '0' :: 'b' :: digits => readBased? 2 digits
  | _ => readNumber? word

/-- The characters other than spaces and tabs that end an unquoted value. -/
def delimiters : List Char := ['\r', '\n', '=', ',', '#', '[', ']', '\x7b', '\x7d']

def isWordChar (c : Char) : Bool :=
  !isSpace c && !delimiters.contains c

/-- Whether an unquoted value may go on with a character behind spaces. -/
def isWordStart (c : Char) : Bool :=
  isWordChar c && c ≠ '.' && c ≠ '"' && c ≠ '\''

def splitWord : Text → Text × Text
  | [] => ([], [])
  | c :: rest =>
    if isWordChar c || (isSpace c && (rest.dropWhile isSpace).head?.any isWordStart) then
      let (word, after) := splitWord rest
      (c :: word, after)
    else
      ([], c :: rest)

end Toml

end MacroRegions
