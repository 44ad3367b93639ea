import MacroRegions.Diagnostics
import MacroRegions.Document.Parse
import MacroRegions.Toml.Document
import MacroRegions.Update.Retag

/-!
Configuration: how documents are parsed, updated and reported on.

Three sections have one key each. A section may be left out, and so may its
key; what is not known is passed over. A section may also be given as a list,
whose first item then stands for its key, or as a date, which has no such key.
-/

namespace MacroRegions

structure Config where
  addMissing : Bool
  strictLocationTags : Bool
  severity : Severity
deriving DecidableEq, Repr, Inhabited

namespace Config

/-- What holds where nothing is configured. -/
def standard : Config := ⟨true, false, .info⟩

def updateOptions (config : Option Config) : UpdateOptions :=
  ⟨(config.getD standard).addMissing⟩

def parseOptions (config : Option Config) : ParseOptions :=
  ⟨(config.getD standard).strictLocationTags⟩

def reportSeverity (config : Option Config) : Severity :=
  (config.getD standard).severity

def readFlag? : Toml.Value → Option Bool
  | .flag value => some value
  | _ => none

/-- Reads a severity. It is named by a text, or by the only key of a table that
holds nothing. -/
def readSeverity? : Toml.Value → Option Severity
  | .text name => named? name
  | .table _ [(name, .table _ [])] => named? name
  | .table _ [(name, .array [])] => named? name
  | _ => none
where
  named? (name : Text) : Option Severity :=
    Severity.all.find? fun severity => severity.name.toList = name

/-- Reads the key of a section. Numbers under other keys must be readable all
the same; what follows the first item of a list is not looked at. -/
def readSection? {α : Type} (key : String) (read : Toml.Value → Option α) (fallback : α) :
    Toml.Value → Option α
  | .table _ entries =>
    if entries.all fun (name, value) => name = key.toList || value.isReadable then
      match Toml.Entries.get? entries key.toList with
      | some value => read value
      | none => some fallback
    else
      none
  | .array (value :: _) => read value
  | .array [] => some fallback
  | .tables (entries :: _) => read (.table .header entries)
  | .tables [] => some fallback
  | .date => some fallback
  | _ => none

def sections : List String := ["location_tag", "parse", "diagnostics"]

def ofEntries? (entries : Toml.Entries) : Option Config := do
  let part {α : Type} (name key : String) (read : Toml.Value → Option α) (fallback : α) :
      Option α :=
    match entries.get? name.toList with
    | some value => readSection? key read fallback value
    | none => some fallback
  if entries.all fun (name, value) =>
      (sections.map (·.toList)).contains name || value.isReadable then
    some ⟨
      ← part "location_tag" "add_missing" readFlag? standard.addMissing,
      ← part "parse" "strict_location_tags" readFlag? standard.strictLocationTags,
      ← part "diagnostics" "severity" readSeverity? standard.severity⟩
  else
    none

def read (text : Text) : Except Failure Config :=
  match (Toml.read? text).bind ofEntries? with
  | some config => .ok config
  | none => .error .malformedConfig

/-- Where a configuration is looked for, the place that counts most first. -/
def candidatePaths : List String :=
  ["regmacro.toml", ".regmacro.toml", ".config/regmacro.toml"]

/-- The path of the configuration, if there is a file for one. -/
def resolve? (isFile : String → Bool) : Option String :=
  candidatePaths.find? isFile

/-- Loads the configuration, if there is a file for one. Here `content` gives the
text of a file, unless it cannot be read. -/
def load
    (isFile : String → Bool)
    (content : String → Option Text) :
    Except Failure (Option Config) :=
  match resolve? isFile with
  | none => .ok none
  | some path =>
    match content path with
    | none => .error .unreadableFile
    | some text => (read text).map some

end Config

end MacroRegions
