import MacroRegions.Toml.Scalar

/-!
Documents of TOML.

A document is a table. Its lines are empty, or define a key, or are a header
below which keys are defined in another table.
-/

namespace MacroRegions

namespace Toml

def skipSpaces (text : Text) : Text :=
  text.dropWhile isSpace

def skipComment : Text → Text
  | '#' :: rest => rest.dropWhile isPlain
  | text => text

/-- What follows the end of a line, with spaces and a comment before it. -/
def afterLine? (text : Text) : Option Text :=
  match skipComment (skipSpaces text) with
  | [] => some []
  | '\n' :: rest => some rest
  | '\r' :: '\n' :: rest => some rest
  | _ => none

def skipGap (inComment : Bool) : Text → Text
  | [] => []
  | '\n' :: rest => skipGap false rest
  | '\r' :: '\n' :: rest => skipGap false rest
  | c :: rest =>
    if inComment then
      if isPlain c then skipGap true rest else c :: rest
    else if isSpace c then
      skipGap false rest
    else if c = '#' then
      skipGap true rest
    else
      c :: rest

def isKeyChar (c : Char) : Bool :=
  c.isAlphanum || c = '_' || c = '-'

def readKeyPart? (text : Text) : Option (Text × Text) :=
  match text with
  | '"' :: rest => readBasic? .plain rest
  | '\'' :: rest => readLiteral? rest
  | _ =>
    let key := text.takeWhile isKeyChar
    if key.isEmpty then none else some (key, text.dropWhile isKeyChar)

/-- Reads a dotted key of at most `most` parts, and what follows it and the
spaces behind it. -/
def readParts? : (most : Nat) → Text → Option (List Text × Text)
  | 0, _ => none
  | most + 1, text => do
    let (part, rest) ← readKeyPart? (skipSpaces text)
    match skipSpaces rest with
    | '.' :: more => do
      let (parts, after) ← readParts? most more
      some (part :: parts, after)
    | after => some ([part], after)

/-- The deepest nesting of lists and tables between braces, and of the tables
of one dotted key with its value. -/
def maxDepth : Nat := 80

def readKey? (text : Text) : Option (List Text × Text) :=
  readParts? maxDepth text

mutual

/-- Reads a value that may nest `depth` levels deep, and what follows it. -/
def readValue? : (fuel depth : Nat) → Text → Option (Value × Text)
  | 0, _, _ => none
  | fuel + 1, depth, text =>
    match text with
    | '"' :: '"' :: '"' :: rest =>
      (readBasicLines? .plain (afterFirstNewline rest)).map fun (text, after) =>
        (.text text, after)
    | '"' :: rest =>
      (readBasic? .plain rest).map fun (text, after) => (.text text, after)
    | '\'' :: '\'' :: '\'' :: rest =>
      (readLiteralLines? (afterFirstNewline rest)).map fun (text, after) =>
        (.text text, after)
    | '\'' :: rest =>
      (readLiteral? rest).map fun (text, after) => (.text text, after)
    | '[' :: rest =>
      match depth with
      | 0 => none
      | depth + 1 =>
        (readItems? fuel depth (skipGap false rest)).map fun (items, after) =>
          (.array items, after)
    | '\x7b' :: rest =>
      match depth with
      | 0 => none
      | depth + 1 =>
        (readEntries? fuel depth [] (skipGap false rest)).map fun (entries, after) =>
          (.table .inline entries, after)
    | _ =>
      let (word, after) := splitWord text
      (readScalar? word).map (·, after)

def readItems? : (fuel depth : Nat) → Text → Option (List Value × Text)
  | 0, _, _ => none
  | fuel + 1, depth, text =>
    match text with
    | ']' :: after => some ([], after)
    | _ => do
      let (item, rest) ← readValue? fuel depth text
      match skipGap false rest with
      | ',' :: more => do
        let (items, after) ← readItems? fuel depth (skipGap false more)
        some (item :: items, after)
      | ']' :: after => some ([item], after)
      | _ => none

/-- Reads the keys of a table between braces up to its end, and what follows
it. The keys before are in `entries`. -/
def readEntries? : (fuel depth : Nat) → Entries → Text → Option (Entries × Text)
  | 0, _, _, _ => none
  | fuel + 1, depth, entries, text =>
    match text with
    | '\x7d' :: after => some (entries, after)
    | _ => do
      let (path, rest) ← readKey? text
      let rest ← Text.afterPrefix? ['='] (skipGap false rest)
      let (value, rest) ← readValue? fuel depth (skipGap false rest)
      let (_, entries) ← Entries.define? path value .header entries
      match skipGap false rest with
      | ',' :: more => readEntries? fuel depth entries (skipGap false more)
      | '\x7d' :: after => some (entries, after)
      | _ => none

end

/-- A document up to some line: the table of all keys, and the path of the
latest header. -/
structure Progress where
  root : Entries
  header : List Text
deriving Inhabited

def afterHeader? (brackets text : Text) : Option Text :=
  (Text.afterPrefix? brackets text).bind afterLine?

def readLine? (progress : Progress) (text : Text) : Option (Progress × Text) :=
  match text with
  | '[' :: '[' :: rest => do
    let (path, rest) ← readKey? rest
    let rest ← afterHeader? [']', ']'] rest
    some (⟨← Entries.openNextTable? path progress.root, path⟩, rest)
  | '[' :: rest => do
    let (path, rest) ← readKey? rest
    let rest ← afterHeader? [']'] rest
    some (⟨← Entries.openTable? path progress.root, path⟩, rest)
  | _ => do
    let (path, rest) ← readKey? text
    let rest ← Text.afterPrefix? ['='] rest
    let (value, rest) ← readValue? (2 * rest.length + 2) maxDepth (skipSpaces rest)
    let rest ← afterLine? rest
    some (
      { progress with
        root := ← Entries.defineBelow? progress.header path value progress.root },
      rest)

def readLines? : (fuel : Nat) → Progress → Text → Option Entries
  | 0, _, _ => none
  | fuel + 1, progress, text =>
    match skipGap false text with
    | [] => some progress.root
    | line => do
      let (progress, rest) ← readLine? progress line
      readLines? fuel progress rest

/-- Reads a document. A byte order mark may stand before it. -/
def read? (text : Text) : Option Entries :=
  let text := match text with
    | '\ufeff' :: rest => rest
    | text => text
  readLines? (text.length + 1) ⟨[], []⟩ text

end Toml

end MacroRegions
