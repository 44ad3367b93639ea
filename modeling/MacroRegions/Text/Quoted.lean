import MacroRegions.Text.Basic
import MacroRegions.Text.Visible

/-!
Quoted texts.

A quoted text stands between double quotes. What could be mistaken or not be
seen is escaped.
-/

namespace MacroRegions

namespace Text

/-- How one character is written between double quotes. -/
def quoteChar (c : Char) : Text :=
  match c with
  | '\x00' => ['\\', '0']
  | '\t' => ['\\', 't']
  | '\r' => ['\\', 'r']
  | '\n' => ['\\', 'n']
  | '"' => ['\\', '"']
  | '\\' => ['\\', '\\']
  | c =>
    if isHidden c then
      '\\' :: 'u' :: '\x7b' :: Nat.toDigits 16 c.toNat ++ ['\x7d']
    else
      [c]

def quote (text : Text) : Text :=
  '"' :: text.flatMap quoteChar ++ ['"']

end Text

end MacroRegions
