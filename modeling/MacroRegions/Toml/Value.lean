import MacroRegions.Text.Basic

/-!
Values and tables of TOML.

A table may be written in several places, but no place may define again what
another has defined. How a table came to be decides from where it can be
extended.
-/

namespace MacroRegions

namespace Toml

/-- How a table came to be: by a header of its own, on the way to the table of a header,
on the way to a dotted key, or between braces, where it cannot be extended. -/
inductive Origin where
  | header
  | implicit
  | dotted
  | inline
deriving DecidableEq, Repr, Inhabited

/-- A value. Of dates nothing is kept, and a number is read only where it is asked for:
it cannot be if it has no digits, or misplaced ones, or is out of range. -/
inductive Value where
  | text (value : Text)
  | flag (value : Bool)
  | number (readable : Bool)
  | date
  | array (items : List Value)
  | table (origin : Origin) (entries : List (Text × Value))
  | tables (items : List (List (Text × Value)))
deriving Repr, Inhabited

namespace Value

mutual

/-- Whether all numbers of a value can be read. -/
def isReadable : Value → Bool
  | .number readable => readable
  | .array items => itemsReadable items
  | .table _ entries => entriesReadable entries
  | .tables items => tablesReadable items
  | .text _ => true
  | .flag _ => true
  | .date => true

def itemsReadable : List Value → Bool
  | [] => true
  | item :: rest => isReadable item && itemsReadable rest

def entriesReadable : List (Text × Value) → Bool
  | [] => true
  | (_, value) :: rest => isReadable value && entriesReadable rest

def tablesReadable : List (List (Text × Value)) → Bool
  | [] => true
  | entries :: rest => entriesReadable entries && tablesReadable rest

end

end Value

/-- The keys of a table with their values, in the order of their definition. -/
abbrev Entries := List (Text × Value)

namespace Entries

def get? (entries : Entries) (key : Text) : Option Value :=
  (List.find? (·.1 = key) entries).map (·.2)

/-- The entries with another value for a key, behind the others if the key is
new. -/
def set (entries : Entries) (key : Text) (value : Value) : Entries :=
  match entries with
  | [] => [(key, value)]
  | (other, old) :: rest =>
    if other = key then (key, value) :: rest else (other, old) :: Entries.set rest key value

/-- Changes the table at the end of a path. Tables that are missing on the way
are made. The way leads through tables between braces never, and for dotted
keys only through tables that have no header. Of several tables of one name
the last is meant. -/
def descend
    (dotted : Bool)
    (change : Origin → Entries → Option (Origin × Entries)) :
    List Text → Origin → Entries → Option (Origin × Entries)
  | [], origin, entries => change origin entries
  | key :: path, origin, entries =>
    match entries.get? key with
    | none => do
      let fresh := if dotted then .dotted else .implicit
      let (newOrigin, newEntries) ← descend dotted change path fresh []
      some (origin, entries.set key (.table newOrigin newEntries))
    | some (.table .inline _) => none
    | some (.table inner innerEntries) =>
      if dotted && inner = .header then
        none
      else do
        let (newOrigin, newEntries) ← descend dotted change path inner innerEntries
        some (origin, entries.set key (.table newOrigin newEntries))
    | some (.tables items) => do
      let last ← items.getLast?
      let (_, newEntries) ← descend dotted change path .header last
      some (origin, entries.set key (.tables (items.dropLast ++ [newEntries])))
    | some _ => none

def splitPath? (path : List Text) : Option (List Text × Text) :=
  path.getLast?.map (path.dropLast, ·)

/-- Defines a dotted key in a table. A further table that it ends in must not
have a header of its own. -/
def define? (path : List Text) (value : Value) (origin : Origin) (entries : Entries) :
    Option (Origin × Entries) := do
  let (tables, key) ← splitPath? path
  descend true
    (fun origin entries =>
      if (!tables.isEmpty && origin = .header) || (entries.get? key).isSome then
        none
      else
        some (origin, entries.set key value))
    tables origin entries

def openTable? (path : List Text) (root : Entries) : Option Entries := do
  let (tables, key) ← splitPath? path
  let (_, entries) ← descend false
    (fun origin entries =>
      match entries.get? key with
      | none => some (origin, entries.set key (.table .header []))
      | some (.table .implicit inner) => some (origin, entries.set key (.table .header inner))
      | some _ => none)
    tables .header root
  some entries

def openNextTable? (path : List Text) (root : Entries) : Option Entries := do
  let (tables, key) ← splitPath? path
  let (_, entries) ← descend false
    (fun origin entries =>
      match entries.get? key with
      | none => some (origin, entries.set key (.tables [[]]))
      | some (.tables items) => some (origin, entries.set key (.tables (items ++ [[]])))
      | some _ => none)
    tables .header root
  some entries

def defineBelow? (header path : List Text) (value : Value) (root : Entries) :
    Option Entries := do
  let (_, entries) ← descend false (define? path value) header .header root
  some entries

end Entries

end Toml

end MacroRegions
