import MacroRegions.Text.Basic

/-!
Quoted texts of TOML.

Texts stand between double quotes, with escapes, or between apostrophes, as
they are. Three delimiters in a row begin and end a text of several lines;
one or two more of them before the end belong to the text.
-/

namespace MacroRegions

namespace Toml

/-- Whether a character may stand in a comment or a quoted text as it is:
anything but controls other than the tab. -/
def isPlain (c : Char) : Bool :=
  c = '\t' || (0x20 ≤ c.toNat && c.toNat ≠ 0x7F)

def isSpace (c : Char) : Bool :=
  c = ' ' || c = '\t'

def escaped? (c : Char) : Option Char :=
  match c with
  | 'b' => some '\x08'
  | 't' => some '\t'
  | 'n' => some '\n'
  | 'f' => some '\x0c'
  | 'r' => some '\r'
  | 'e' => some '\x1b'
  | '"' => some '"'
  | '\\' => some '\\'
  | _ => none

/-- Number of hexadecimal digits that a letter behind a backslash asks for. -/
def escapeWidth? (c : Char) : Option Nat :=
  match c with
  | 'x' => some 2
  | 'u' => some 4
  | 'U' => some 8
  | _ => none

def hexDigit? (c : Char) : Option Nat :=
  if c.isDigit then
    some (c.toNat - '0'.toNat)
  else if 'a' ≤ c && c ≤ 'f' then
    some (c.toNat - 'a'.toNat + 10)
  else if 'A' ≤ c && c ≤ 'F' then
    some (c.toNat - 'A'.toNat + 10)
  else
    none

def scalar? (code : Nat) : Option Char :=
  if code < 0xD800 || (0xDFFF < code && code < 0x110000) then
    some (Char.ofNat code)
  else
    none

/-- Where reading stands between double quotes: in the text itself, behind a backslash,
within a numeric escape of which `missing` digits are to come, or in what a backslash at
the end of a line leaves out, on that line or behind it. -/
inductive QuoteState where
  | plain
  | escape
  | digits (missing code : Nat)
  | lineEnd
  | gap
deriving DecidableEq, Repr, Inhabited

/-- Reads the escape that goes on with `c`: the state behind it, and the
character that is complete by now. -/
def stepEscape? (state : QuoteState) (c : Char) : Option (QuoteState × Option Char) :=
  match state with
  | .escape =>
    match escaped? c with
    | some meant => some (.plain, some meant)
    | none => (escapeWidth? c).map fun width => (.digits width 0, none)
  | .digits missing code => do
    let code := code * 16 + (← hexDigit? c)
    if missing = 1 then
      some (.plain, some (← scalar? code))
    else
      some (.digits (missing - 1) code, none)
  | _ => none

def readBasic? (state : QuoteState) : Text → Option (Text × Text)
  | [] => none
  | c :: rest =>
    if state = .plain then
      if c = '"' then
        some ([], rest)
      else if c = '\\' then
        readBasic? .escape rest
      else if isPlain c then
        (readBasic? .plain rest).map fun (text, after) => (c :: text, after)
      else
        none
    else
      match stepEscape? state c with
      | some (next, meant) =>
        (readBasic? next rest).map fun (text, after) => (meant.toList ++ text, after)
      | none => none

/-- Reads a text of several lines behind its opening double quotes, and what
follows it. -/
def readBasicLines? (state : QuoteState) : Text → Option (Text × Text)
  | [] => none
  | '\r' :: '\n' :: rest =>
    match state with
    | .plain =>
      (readBasicLines? .plain rest).map fun (text, after) => ('\r' :: '\n' :: text, after)
    | .digits _ _ => none
    | _ => readBasicLines? .gap rest
  | '\n' :: rest =>
    match state with
    | .plain => (readBasicLines? .plain rest).map fun (text, after) => ('\n' :: text, after)
    | .digits _ _ => none
    | _ => readBasicLines? .gap rest
  | c :: rest =>
    match state with
    | .plain => plain c rest
    | .gap => if isSpace c then readBasicLines? .gap rest else plain c rest
    | .lineEnd => if isSpace c then readBasicLines? .lineEnd rest else none
    | .escape =>
      if isSpace c then
        readBasicLines? .lineEnd rest
      else
        escape .escape c rest
    | .digits missing code => escape (.digits missing code) c rest
where
  plain (c : Char) (rest : Text) : Option (Text × Text) :=
    match c, rest with
    | '"', '"' :: '"' :: '"' :: '"' :: after => some (['"', '"'], after)
    | '"', '"' :: '"' :: '"' :: after => some (['"'], after)
    | '"', '"' :: '"' :: after => some ([], after)
    | '\\', rest => readBasicLines? .escape rest
    | c, rest =>
      if isPlain c then
        (readBasicLines? .plain rest).map fun (text, after) => (c :: text, after)
      else
        none
  escape (state : QuoteState) (c : Char) (rest : Text) : Option (Text × Text) :=
    match stepEscape? state c with
    | some (next, meant) =>
      (readBasicLines? next rest).map fun (text, after) => (meant.toList ++ text, after)
    | none => none

def readLiteral? : Text → Option (Text × Text)
  | [] => none
  | c :: rest =>
    if c = '\'' then
      some ([], rest)
    else if isPlain c then
      (readLiteral? rest).map fun (text, after) => (c :: text, after)
    else
      none

def readLiteralLines? : Text → Option (Text × Text)
  | [] => none
  | '\'' :: '\'' :: '\'' :: '\'' :: '\'' :: after => some (['\'', '\''], after)
  | '\'' :: '\'' :: '\'' :: '\'' :: after => some (['\''], after)
  | '\'' :: '\'' :: '\'' :: after => some ([], after)
  | '\r' :: '\n' :: rest =>
    (readLiteralLines? rest).map fun (text, after) => ('\r' :: '\n' :: text, after)
  | c :: rest =>
    if isPlain c || c = '\n' then
      (readLiteralLines? rest).map fun (text, after) => (c :: text, after)
    else
      none

/-- What follows a newline at the beginning of a text of several lines, or the
text itself if there is none. -/
def afterFirstNewline : Text → Text
  | '\n' :: rest => rest
  | '\r' :: '\n' :: rest => rest
  | text => text

end Toml

end MacroRegions
