import Mathlib.Logic.Function.Basic
import Mathlib.Logic.Relation
import MacroRegions.Builder

/-!
Builders as shared nodes.

A node keeps its children alive and remembers its parent without keeping it
alive. Handles keep nodes alive too. What a call does is told by relations, since
a walk along parents or children need not come to an end in an arbitrary heap.
-/

namespace MacroRegions

/-- A builder as it is stored. The parent may be dead. -/
structure BuilderNode where
  block : Block
  children : List Nat
  parent : Option Nat

/-- All builders that there have ever been, and how many handles there are on
each. -/
structure BuilderHeap where
  node : Nat → BuilderNode
  handles : Nat → Nat
  count : Nat

namespace BuilderHeap

variable (heap : BuilderHeap)

def empty : BuilderHeap := ⟨fun _ => ⟨⟨none, none, none⟩, [], none⟩, fun _ => 0, 0⟩

def children (id : Nat) : List Nat :=
  (heap.node id).children

/-- A builder lives while there is a handle on it, or while a living builder has
it as a child. -/
inductive Lives : Nat → Prop where
  | handle {id : Nat} (some : 0 < heap.handles id) : Lives id
  | child {parent id : Nat} (owner : Lives parent) (member : id ∈ heap.children parent) : Lives id

/-- A builder has a parent as long as the parent lives. -/
def IsParent (parent id : Nat) : Prop :=
  (heap.node id).parent = some parent ∧ heap.Lives parent

def modify (id : Nat) (f : BuilderNode → BuilderNode) : BuilderHeap :=
  { heap with node := Function.update heap.node id (f (heap.node id)) }

def modifyBlock (id : Nat) (f : Block → Block) : BuilderHeap :=
  heap.modify id fun node => { node with block := f node.block }

def create : BuilderHeap where
  node := Function.update heap.node heap.count ⟨⟨none, none, none⟩, [], none⟩
  handles := Function.update heap.handles heap.count 1
  count := heap.count + 1

def hold (id : Nat) : BuilderHeap :=
  { heap with handles := Function.update heap.handles id (heap.handles id + 1) }

def drop (id : Nat) : BuilderHeap :=
  { heap with handles := Function.update heap.handles id (heap.handles id - 1) }

def link (parent child : Nat) : BuilderHeap :=
  (heap.modify child fun node => { node with parent := some parent }).modify parent fun node =>
    { node with children := node.children ++ [child] }

/-- The walk from a builder along the builders above it, and whether it meets
`child`. -/
inductive Climbs (child : Nat) : Nat → Bool → Prop where
  | found : Climbs child child true
  | further {current next : Nat} {met : Bool}
      (different : current ≠ child)
      (isParent : heap.IsParent next current)
      (rest : Climbs child next met) :
      Climbs child current met
  | top {current : Nat}
      (different : current ≠ child)
      (alone : ∀ next, ¬ heap.IsParent next current) :
      Climbs child current false

/-- What comes of adding a child: the check for a parent comes first, then the
walk upwards from the new parent. -/
inductive AddsChild (parent child : Nat) : Except Failure BuilderHeap → Prop where
  | attached {other : Nat} (isParent : heap.IsParent other child) :
      AddsChild parent child (.error .builderAlreadyAttached)
  | cycle
      (alone : ∀ other, ¬ heap.IsParent other child)
      (climbs : heap.Climbs child parent true) :
      AddsChild parent child (.error .builderCycle)
  | added
      (alone : ∀ other, ¬ heap.IsParent other child)
      (climbs : heap.Climbs child parent false) :
      AddsChild parent child (.ok (heap.link parent child))

/-- The blocks that builders have come to, with everything below them. -/
inductive Builds : List Nat → BlockForest → Prop where
  | nil : Builds [] .nil
  | cons {id : Nat} {rest : List Nat} {below beside : BlockForest}
      (children : Builds (heap.children id) below)
      (others : Builds rest beside) :
      Builds (id :: rest) (.node (heap.node id).block below beside)

def retag (options : UpdateOptions) (block : Block) : Block :=
  (block.retagged? options).getD block

/-- Brings the location tags of builders and of everything below them up to
date, one after the other. -/
inductive Updates (options : UpdateOptions) : BuilderHeap → List Nat → BuilderHeap → Prop where
  | nil {heap : BuilderHeap} : Updates options heap [] heap
  | cons {heap below beside : BuilderHeap} {id : Nat} {rest : List Nat}
      (children : Updates options (heap.modifyBlock id (retag options)) (heap.children id) below)
      (others : Updates options below rest beside) :
      Updates options heap (id :: rest) beside

end BuilderHeap

/-- The calls that make or change builders. To hold a builder is to take one more handle
on it, be it a copy of one or what its parent or a child gives. `withAddChild` gives a
handle on `parent` away and gets it back, unless the call fails. -/
inductive BuilderCall where
  | create
  | hold (id : Nat)
  | drop (id : Nat)
  | setStart (id : Nat) (start : Marker)
  | setStop (id : Nat) (stop : Option Marker)
  | setError (id : Nat) (error : Option BlockError)
  | addChild (parent child : Nat)
  | withAddChild (parent child : Nat)
  | updateTags (id : Nat) (options : UpdateOptions)

namespace BuilderHeap

/-- A call on builders that live, what it makes of the heap, and whether it
fails. A call that fails leaves all builders as they are. -/
inductive Takes (heap : BuilderHeap) :
    BuilderCall → BuilderHeap → Option Failure → Prop where
  | create : Takes heap .create heap.create none
  | hold {id : Nat} (lives : heap.Lives id) : Takes heap (.hold id) (heap.hold id) none
  | drop {id : Nat} (held : 0 < heap.handles id) : Takes heap (.drop id) (heap.drop id) none
  | setStart {id : Nat} {start : Marker} (lives : heap.Lives id) :
      Takes heap (.setStart id start)
        (heap.modifyBlock id fun block => { block with start := some start }) none
  | setStop {id : Nat} {stop : Option Marker} (lives : heap.Lives id) :
      Takes heap (.setStop id stop)
        (heap.modifyBlock id fun block => { block with stop := stop }) none
  | setError {id : Nat} {error : Option BlockError} (lives : heap.Lives id) :
      Takes heap (.setError id error)
        (heap.modifyBlock id fun block => { block with error := error }) none
  | added {parent child : Nat} {heap' : BuilderHeap}
      (parentLives : heap.Lives parent)
      (childLives : heap.Lives child)
      (adds : heap.AddsChild parent child (.ok heap')) :
      Takes heap (.addChild parent child) heap' none
  | refused {parent child : Nat} {failure : Failure}
      (parentLives : heap.Lives parent)
      (childLives : heap.Lives child)
      (adds : heap.AddsChild parent child (.error failure)) :
      Takes heap (.addChild parent child) heap (some failure)
  | withAdded {parent child : Nat} {heap' : BuilderHeap}
      (parentHeld : 0 < heap.handles parent)
      (childLives : heap.Lives child)
      (adds : heap.AddsChild parent child (.ok heap')) :
      Takes heap (.withAddChild parent child) heap' none
  | withRefused {parent child : Nat} {failure : Failure}
      (parentHeld : 0 < heap.handles parent)
      (childLives : heap.Lives child)
      (adds : heap.AddsChild parent child (.error failure)) :
      Takes heap (.withAddChild parent child) (heap.drop parent) (some failure)
  | updateTags {id : Nat} {options : UpdateOptions} {heap' : BuilderHeap}
      (lives : heap.Lives id)
      (updates : Updates options heap [id] heap') :
      Takes heap (.updateTags id options) heap' none

inductive Runs : BuilderHeap → List BuilderCall → BuilderHeap → List (Option Failure) → Prop where
  | nil {heap : BuilderHeap} : Runs heap [] heap []
  | cons {heap next last : BuilderHeap} {call : BuilderCall} {calls : List BuilderCall}
      {answer : Option Failure} {answers : List (Option Failure)}
      (takes : heap.Takes call next answer)
      (rest : Runs next calls last answers) :
      Runs heap (call :: calls) last (answer :: answers)

end BuilderHeap

end MacroRegions
