import MacroRegions.Block
import MacroRegions.Log

/-!
Analysis: which declaration a macro block decorates.

The host knows the declarations of a text and is asked for the one at the
start of each block.
-/

namespace MacroRegions

inductive DeclarationKind where
  | nameSpace
  | classType
  | structType
  | interfaceType
  | enumType
  | recordType
  | delegateType
  | method
  | constructor
  | property
  | field
  | event
  | unknown
deriving DecidableEq, Repr, Inhabited

namespace DeclarationKind

def all : List DeclarationKind :=
  [nameSpace, classType, structType, interfaceType, enumType, recordType, delegateType,
    method, constructor, property, field, event, unknown]

def name : DeclarationKind → String
  | nameSpace => "Namespace"
  | classType => "Class"
  | structType => "Struct"
  | interfaceType => "Interface"
  | enumType => "Enum"
  | recordType => "Record"
  | delegateType => "Delegate"
  | method => "Method"
  | constructor => "Constructor"
  | property => "Property"
  | field => "Field"
  | event => "Event"
  | unknown => "Unknown"

end DeclarationKind

/-- A host that knows declarations, which it refers to by values of `ν`. It tells the
smallest declaration around an offset, or why there is no telling. -/
structure DeclarationHost (ν : Type) where
  declarationAt : Nat → Except Text (Option ν)
  kind : ν → DeclarationKind
  identifier : ν → Option Text
  typeName : ν → Option Text

/-- What is known about the declaration that a block decorates. -/
structure BlockInformation (ν : Type) where
  node : Option ν
  identifier : Option Text
  typeName : Option Text
deriving DecidableEq, Repr, Inhabited

namespace BlockInformation

variable {ν : Type}

def empty : BlockInformation ν := ⟨none, none, none⟩

def isEmpty (information : BlockInformation ν) : Bool :=
  information.node.isNone && information.identifier.isNone && information.typeName.isNone

end BlockInformation

namespace Block

variable {ν : Type}

/-- What a host knows about the declaration that a block decorates. -/
def analyze (host : DeclarationHost ν) (block : Block) : BlockInformation ν :=
  match block.start with
  | none => .empty
  | some start =>
    match host.declarationAt start.position.start.offset with
    | .ok (some node) =>
      if host.kind node = .unknown then
        .empty
      else
        ⟨some node, host.identifier node, host.typeName node⟩
    | .ok none => .empty
    | .error _ => .empty

def analysisEvents (host : DeclarationHost ν) (block : Block) : List LogEvent :=
  match block.start with
  | none => []
  | some start =>
    match host.declarationAt start.position.start.offset with
    | .ok _ => []
    | .error error => [.lookupFailed start.line error]

end Block

namespace BlockForest

variable {ν : Type}

/-- All blocks of a forest, parents before their children, and what a host
knows about each. -/
def analyze (host : DeclarationHost ν) (forest : BlockForest) :
    List (Block × BlockInformation ν) :=
  (Walk.ofForest forest).toList.map fun block => (block, block.analyze host)

def analysisEvents (host : DeclarationHost ν) (forest : BlockForest) : List LogEvent :=
  (Walk.ofForest forest).toList.flatMap (·.analysisEvents host)

end BlockForest

structure Declaration where
  kind : DeclarationKind
  span : Span
  name : Option Text
  type : Option Text
deriving DecidableEq, Repr, Inhabited

namespace Declaration

def encloses (declaration : Declaration) (offset : Nat) : Bool :=
  declaration.span.start ≤ offset && offset < declaration.span.stop

def length (declaration : Declaration) : Nat :=
  declaration.span.stop - declaration.span.start

/-- The index of the shortest declaration around an offset, the first of them
if there are several. -/
def smallestAt? (declarations : List Declaration) (offset : Nat) : Option Nat :=
  let around := declarations.zipIdx.filter fun (declaration, _) => declaration.encloses offset
  around.foldl
    (fun best (declaration, index) =>
      match best with
      | none => some (declaration.length, index)
      | some (length, _) =>
        if declaration.length < length then some (declaration.length, index) else best)
    (none : Option (Nat × Nat))
    |>.map (·.2)

/-- The host of a list of declarations, which it refers to by their indexes. -/
def host (declarations : List Declaration) : DeclarationHost Nat where
  declarationAt offset := .ok (smallestAt? declarations offset)
  kind index := (declarations[index]?.map (·.kind)).getD .unknown
  identifier index := declarations[index]?.bind (·.name)
  typeName index := declarations[index]?.bind (·.type)

/-- A host that knows nothing and says why. -/
def failingHost (reason : Text) : DeclarationHost Nat where
  declarationAt _ := .error reason
  kind _ := .unknown
  identifier _ := none
  typeName _ := none

end Declaration

end MacroRegions
