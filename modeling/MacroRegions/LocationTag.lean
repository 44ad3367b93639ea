import MacroRegions.Text.Numeral

/-!
Location tags: `#<line>` and `#<file>#<line>`.

A tag records the line on which its marker was when the tag was written, so
that drift shows after edits. A tag without a file speaks of the file that it
stands in.
-/

namespace MacroRegions

/-- A line, and the file that it is in unless that is the tag's own file. -/
structure LocationTag where
  filePath : Option Text
  line : Nat
deriving DecidableEq, Repr, Inhabited

namespace LocationTag

def here (line : Nat) : LocationTag := ⟨none, line⟩

def render (tag : LocationTag) : Text :=
  match tag.filePath with
  | none => '#' :: Text.numeral tag.line
  | some path => '#' :: path ++ '#' :: Text.numeral tag.line

/-- A text cut at its last `#`, which is left out. -/
def splitLastHash? (text : Text) : Option (Text × Text) :=
  match text.reverse.dropWhile (· ≠ '#') with
  | [] => none
  | _ :: front => some (front.reverse, (text.reverse.takeWhile (· ≠ '#')).reverse)

/-- Reads one token. Digits alone are a line of this file; otherwise the last
`#` parts a path, which must not be empty, from the line. -/
def parse? : Text → Option LocationTag
  | '#' :: rest =>
    match Text.numeral? rest with
    | some line => some (here line)
    | none =>
      match splitLastHash? rest with
      | some (path, digits) =>
        if path.isEmpty then
          none
        else
          (Text.numeral? digits).map (⟨some path, ·⟩)
      | none => none
  | _ => none

/-- A path with every backslash turned into a slash. -/
def normalizePath (path : Text) : Text :=
  path.map fun c => if c = '\\' then '/' else c

/-- Whether `path` is `current` itself or the end of it behind a separator. -/
def namesFile (path current : Text) : Bool :=
  let path := normalizePath path
  let current := normalizePath current
  current = path || ('/' :: path).isSuffixOf current

/-- Whether the tag describes a marker that is now on `line` of
`currentFile`. -/
def agreesWith (tag : LocationTag) (line : Nat) (currentFile : Option Text) : Bool :=
  tag.line = line &&
    match tag.filePath, currentFile with
    | none, _ => true
    | some path, some current => namesFile path current
    | some _, none => false

end LocationTag

end MacroRegions
