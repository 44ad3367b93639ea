import MacroRegions.Failure
import MacroRegions.Update.Retag

/-!
Builders: blocks under construction.

A builder holds the markers and the problem of a block and has other builders
as its children. What is done to a child after it was added still counts when
a block is built. Builders are kept in a pool, as a forest: a builder is a
root of it until it is added to another one.

A builder lives as long as it is held or has a living parent. When one dies,
its children are roots again.
-/

namespace MacroRegions

/-- A block under construction. It is known by its id in its pool, and held while
somebody outside the pool refers to it. -/
structure Builder where
  id : Nat
  held : Bool
  block : Block
deriving DecidableEq, Repr, Inhabited

/-- All living builders. -/
structure BuilderPool where
  forest : Forest Builder
  nextId : Nat
deriving DecidableEq, Repr, Inhabited

namespace BuilderPool

def empty : BuilderPool := ⟨.nil, 0⟩

def hasId (id : Nat) (builder : Builder) : Bool :=
  builder.id = id

/-- A builder with the builders below it. -/
def find? (pool : BuilderPool) (id : Nat) : Option (Builder × Forest Builder) :=
  pool.forest.find? (hasId id)

def block? (pool : BuilderPool) (id : Nat) : Option Block :=
  (pool.find? id).map (·.1.block)

def parent? (pool : BuilderPool) (id : Nat) : Option Nat :=
  (pool.forest.parent? (hasId id)).map (·.id)

def children (pool : BuilderPool) (id : Nat) : List Nat :=
  match pool.find? id with
  | some (_, below) => below.trees.map (·.1.id)
  | none => []

/-- The block that a builder has come to, with everything below it. -/
def build (pool : BuilderPool) (id : Nat) : BlockForest :=
  match pool.find? id with
  | some (builder, below) => .single builder.block (below.map (·.block))
  | none => .nil

def create (pool : BuilderPool) : Nat × BuilderPool :=
  (pool.nextId,
    ⟨pool.forest ++ .single ⟨pool.nextId, true, ⟨none, none, none⟩⟩ .nil, pool.nextId + 1⟩)

/-- The builder is held, by one more or by one who was the first. -/
def hold (pool : BuilderPool) (id : Nat) : BuilderPool :=
  { pool with
    forest := pool.forest.modify (hasId id) fun builder => { builder with held := true } }

/-- Takes away the roots that are not held, and those that are roots then. -/
def prune : Forest Builder → Forest Builder
  | .nil => .nil
  | .node builder children siblings =>
    if builder.held then
      .node builder children (prune siblings)
    else
      prune children ++ prune siblings

def release (pool : BuilderPool) (id : Nat) : BuilderPool :=
  let released := pool.forest.modify (hasId id) fun builder => { builder with held := false }
  { pool with forest := prune released }

def modifyBlock (pool : BuilderPool) (id : Nat) (f : Block → Block) : BuilderPool :=
  { pool with
    forest := pool.forest.modify (hasId id) fun builder =>
      { builder with block := f builder.block } }

def setStart (pool : BuilderPool) (id : Nat) (start : Marker) : BuilderPool :=
  pool.modifyBlock id fun block => { block with start := some start }

def setStop (pool : BuilderPool) (id : Nat) (stop : Option Marker) : BuilderPool :=
  pool.modifyBlock id fun block => { block with stop := stop }

def setError (pool : BuilderPool) (id : Nat) (error : Option BlockError) : BuilderPool :=
  pool.modifyBlock id fun block => { block with error := error }

/-- Puts a tree behind the children of a builder. -/
def attach (parent : Nat) (tree forest : Forest Builder) : Forest Builder :=
  forest.replaceTrees (hasId parent) fun builder children => (builder, children ++ tree)

/-- Adds the builder `child` to the children of `parent`, behind the others. A
builder has one parent at most and is not below itself. Nothing happens if one
of the two is not alive. -/
def addChild (pool : BuilderPool) (parent child : Nat) : Except Failure BuilderPool :=
  match pool.parent? child, pool.find? child with
  | some _, _ => .error .builderAlreadyAttached
  | none, none => .ok pool
  | none, some (builder, below) =>
    let tree := Forest.single builder below
    if tree.contains (hasId parent) then
      .error .builderCycle
    else if pool.forest.contains (hasId parent) then
      .ok { pool with forest := attach parent tree (pool.forest.eraseRoot (hasId child)) }
    else
      .ok pool

/-- Brings the location tags of a builder and of all builders below it up to
date. -/
def updateTags (pool : BuilderPool) (id : Nat) (options : UpdateOptions) : BuilderPool :=
  let retag := fun builder : Builder =>
    { builder with block := (builder.block.retagged? options).getD builder.block }
  { pool with
    forest := pool.forest.replaceTrees (hasId id) fun builder below =>
      (retag builder, below.map retag) }

/-- Whether bringing location tags up to date changes any. -/
def updateModifies (pool : BuilderPool) (id : Nat) (options : UpdateOptions) : Bool :=
  (pool.build id).toList.any fun block => (block.retagged? options).isSome

def updateEvents (pool : BuilderPool) (id : Nat) (options : UpdateOptions) : List LogEvent :=
  (pool.build id).toList.flatMap (·.retagEvents options)

end BuilderPool

end MacroRegions
