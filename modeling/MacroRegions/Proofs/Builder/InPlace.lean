import MacroRegions.Proofs.Builder.Runs
import MacroRegions.Proofs.Update.Tree

/-!
Location tags brought up to date in place.

The tags of a builder and of everything below it can be brought up to date in the
nodes, one marker after the other, or in the tree that has been built from them, which
makes another tree and leaves the first one alone. Both come to the same blocks and
tell the same of whether anything changed.
-/

namespace MacroRegions

namespace BuilderHeap

variable {heap heap' : BuilderHeap} {parent : Option Nat} {id : Nat} {ids : List Nat}
  {forest below : Forest Builder} {builder : Builder} {options : UpdateOptions}
  {calls : List BuilderCall} {answers : List (Option Failure)}

/-- Brings the tags of the markers of one builder up to date: its start first, then
its end, each only if it has another tag than it should have. Tells whether one
had. -/
def retagInPlace (options : UpdateOptions) (heap : BuilderHeap) (id : Nat) :
    BuilderHeap × Bool :=
  match (heap.node id).block.start with
  | none => (heap, false)
  | some start =>
    let newStart := start.retaggedStart? options
    let newStop := (heap.node id).block.stop.bind (start.retaggedStop? options)
    let started :=
      match newStart with
      | some marker => heap.modifyBlock id fun block => { block with start := some marker }
      | none => heap
    let stopped :=
      match newStop with
      | some marker => started.modifyBlock id fun block => { block with stop := some marker }
      | none => started
    (stopped, newStart.isSome || newStop.isSome)

private theorem modifyBlock_congr
    {f g : Block → Block}
    (same : f (heap.node id).block = g (heap.node id).block) :
    heap.modifyBlock id f = heap.modifyBlock id g := by
  simp only [modifyBlock, modify, same]

private theorem modifyBlock_eq_self
    {f : Block → Block}
    (same : f (heap.node id).block = (heap.node id).block) :
    heap.modifyBlock id f = heap := by
  simp only [modifyBlock, modify, same, Function.update_eq_self]

private theorem children_modifyBlock (f : Block → Block) (other : Nat) :
    (heap.modifyBlock id f).children other = heap.children other := by
  rw [← mapBlocks_singleton, children_mapBlocks]

private theorem modifyBlock_modifyBlock (f g : Block → Block) :
    (heap.modifyBlock id f).modifyBlock id g = heap.modifyBlock id fun block => g (f block) := by
  simp [modifyBlock, modify]

private theorem modifyBlock_retag_of_eq_none
    (kept : (heap.node id).block.retagged? options = none) :
    heap.modifyBlock id (retag options) = heap :=
  modifyBlock_eq_self (by rw [retag, kept, Option.getD_none])

private theorem modifyBlock_retag_of_eq_some
    (f : Block → Block)
    (changed :
      (heap.node id).block.retagged? options = some (f (heap.node id).block)) :
    heap.modifyBlock id (retag options) = heap.modifyBlock id f :=
  modifyBlock_congr (by rw [retag, changed, Option.getD_some])

/-- The markers set one by one are those of the block with its tags brought up to
date. -/
theorem retagInPlace_eq (options : UpdateOptions) (heap : BuilderHeap) (id : Nat) :
    heap.retagInPlace options id =
      (heap.modifyBlock id (retag options), ((heap.node id).block.retagged? options).isSome) := by
  cases startEq : (heap.node id).block.start with
  | none =>
      have kept : (heap.node id).block.retagged? options = none := by
        simp only [Block.retagged?, startEq]
      simp only [retagInPlace, startEq, modifyBlock_retag_of_eq_none kept, kept,
        Option.isSome_none]
  | some start =>
      simp only [retagInPlace, startEq]
      cases startCase : start.retaggedStart? options with
      | none =>
          cases stopCase : (heap.node id).block.stop.bind (start.retaggedStop? options) with
          | none =>
              have kept : (heap.node id).block.retagged? options = none := by
                simp only [Block.retagged?, startEq, startCase, stopCase]
              simp only [modifyBlock_retag_of_eq_none kept, kept, Option.isSome_none, Bool.or_self]
          | some newStop =>
              have changed :
                  (heap.node id).block.retagged? options =
                    some { (heap.node id).block with stop := some newStop } := by
                simp [Block.retagged?, startEq, startCase, stopCase]
              rw [modifyBlock_retag_of_eq_some
                (fun block => { block with stop := some newStop }) changed, changed]
              rfl
      | some newStart =>
          cases stopCase : (heap.node id).block.stop.bind (start.retaggedStop? options) with
          | none =>
              have changed :
                  (heap.node id).block.retagged? options =
                    some { (heap.node id).block with start := some newStart } := by
                simp [Block.retagged?, startCase, stopCase, startEq]
              rw [modifyBlock_retag_of_eq_some
                (fun block => { block with start := some newStart }) changed, changed]
              rfl
          | some newStop =>
              have changed :
                  (heap.node id).block.retagged? options =
                    some
                      { (heap.node id).block with
                        start := some newStart
                        stop := some newStop } := by
                simp [Block.retagged?, startCase, stopCase, startEq]
              rw [modifyBlock_retag_of_eq_some
                (fun block => { block with start := some newStart, stop := some newStop })
                changed, changed]
              simp only [modifyBlock_modifyBlock, Option.isSome_some, Bool.or_self]

/-- Brings the location tags of builders and of everything below them up to date in
place, one after the other, and tells whether a marker had another tag than it
should have. The children of a builder are looked up when its own markers are done. -/
inductive UpdatesInPlace (options : UpdateOptions) :
    BuilderHeap → List Nat → BuilderHeap → Bool → Prop where
  | nil {heap : BuilderHeap} : UpdatesInPlace options heap [] heap false
  | cons {heap below beside : BuilderHeap} {id : Nat} {rest : List Nat}
      {belowModified restModified : Bool}
      (children :
        UpdatesInPlace options (heap.retagInPlace options id).1
          ((heap.retagInPlace options id).1.children id) below belowModified)
      (others : UpdatesInPlace options below rest beside restModified) :
      UpdatesInPlace options heap (id :: rest) beside
        ((heap.retagInPlace options id).2 || belowModified || restModified)

/-- What an update makes of the nodes does not depend on how it tells whether
anything changed. -/
theorem updates_iff_exists_updatesInPlace :
    Updates options heap ids heap' ↔
      ∃ modified, UpdatesInPlace options heap ids heap' modified := by
  constructor
  · intro updates
    induction updates with
    | nil => exact ⟨false, .nil⟩
    | @cons heap below beside id rest children others childrenHypothesis othersHypothesis =>
        obtain ⟨belowModified, childrenInPlace⟩ := childrenHypothesis
        obtain ⟨restModified, othersInPlace⟩ := othersHypothesis
        have ownInPlace :
            UpdatesInPlace options (heap.retagInPlace options id).1
              ((heap.retagInPlace options id).1.children id) below belowModified := by
          rw [retagInPlace_eq, children_modifyBlock]
          exact childrenInPlace
        exact ⟨_, .cons ownInPlace othersInPlace⟩
  · intro updates
    obtain ⟨modified, inPlace⟩ := updates
    induction inPlace with
    | nil => exact .nil
    | cons _ _ childrenHypothesis othersHypothesis =>
        rw [retagInPlace_eq, children_modifyBlock] at childrenHypothesis
        exact .cons childrenHypothesis othersHypothesis

theorem UpdatesInPlace.unique
    {first second : BuilderHeap}
    {modified modified' : Bool}
    (inPlace : UpdatesInPlace options heap ids first modified)
    (inPlace' : UpdatesInPlace options heap ids second modified') :
    first = second ∧ modified = modified' := by
  induction inPlace generalizing second modified' with
  | nil =>
      cases inPlace'
      exact ⟨rfl, rfl⟩
  | cons _ _ childrenHypothesis othersHypothesis =>
      cases inPlace' with
      | cons children others =>
          obtain ⟨rfl, rfl⟩ := childrenHypothesis children
          obtain ⟨rfl, rfl⟩ := othersHypothesis others
          exact ⟨rfl, rfl⟩

/-! ## Stored forests -/

/-- A forest is updated by other blocks in its own builders. -/
theorem Stores.eq_mapBlocks
    (stores : heap.Stores parent forest)
    (nodup : forest.ids.Nodup)
    (updates : Updates options heap forest.rootIds heap') :
    heap' = heap.mapBlocks (retag options) forest.ids := by
  have updated := stores.updates nodup options [] (by simp)
  rw [mapBlocks_nil, List.nil_append] at updated
  exact updates.unique updated

private theorem sameNode_mapBlocks
    {f : Block → Block}
    (absent : id ∉ ids) :
    heap.SameNode (heap.mapBlocks f ids) id :=
  ⟨by simp [mapBlocks, absent], Iff.rfl⟩

/-- A forest keeps its place in the nodes while others are updated. -/
theorem Stores.mapBlocks_of_apart
    {f : Block → Block}
    (stores : heap.Stores parent forest)
    (apart : ∀ id ∈ ids, id ∉ forest.ids) :
    (heap.mapBlocks f ids).Stores parent forest :=
  stores.congr fun id member => sameNode_mapBlocks fun isOther => apart id isOther member

/-- A walk over stored builders tells whether the block of any of them was to be
changed. -/
theorem Stores.modified_eq
    {modified : Bool}
    (stores : heap.Stores parent forest)
    (nodup : forest.ids.Nodup)
    (inPlace : UpdatesInPlace options heap forest.rootIds heap' modified) :
    modified = forest.toList.any fun builder => (builder.block.retagged? options).isSome := by
  induction forest generalizing heap heap' parent modified with
  | nil =>
      cases inPlace
      rfl
  | node builder children siblings childrenHypothesis siblingsHypothesis =>
      obtain ⟨stored, within, beside⟩ := stores
      simp only [Forest.ids_node, List.nodup_cons, List.mem_append, not_or,
        List.nodup_append] at nodup
      obtain ⟨⟨notInChildren, notInSiblings⟩, childrenNodup, siblingsNodup, apart⟩ := nodup
      rw [Forest.rootIds_node] at inPlace
      cases inPlace with
      | cons childrenInPlace othersInPlace =>
          rw [retagInPlace_eq, children_modifyBlock, stored.children, ← mapBlocks_singleton]
            at childrenInPlace
          have withinNext :
              (heap.mapBlocks (retag options) [builder.id]).Stores (some builder.id) children :=
            within.mapBlocks_of_apart (by simpa using notInChildren)
          have belowEq :=
            withinNext.eq_mapBlocks childrenNodup
              (updates_iff_exists_updatesInPlace.2 ⟨_, childrenInPlace⟩)
          rw [mapBlocks_append _ (by simpa using notInChildren)] at belowEq
          rw [belowEq] at othersInPlace
          have besideNext :
              (heap.mapBlocks (retag options) ([builder.id] ++ children.ids)).Stores parent
                siblings := by
            refine beside.mapBlocks_of_apart ?_
            intro id member inSiblings
            rcases List.mem_append.1 member with own | inChildren
            · rw [List.mem_singleton.1 own] at inSiblings
              exact notInSiblings inSiblings
            · exact apart id inChildren id inSiblings rfl
          rw [childrenHypothesis withinNext childrenNodup childrenInPlace,
            siblingsHypothesis besideNext siblingsNodup othersInPlace, retagInPlace_eq,
            stored.block]
          simp [Forest.toList, Bool.or_assoc]

/-- What is built from updated nodes is the update of what was built from them. -/
theorem Stores.builds_mapBlocks
    (stores : heap.Stores parent forest)
    (options : UpdateOptions) :
    (heap.mapBlocks (retag options) forest.ids).Builds forest.rootIds
      (BlockForest.update options (forest.map (·.block))).tree := by
  have changed :
      (heap.mapBlocks (retag options) forest.ids).Stores parent
        (forest.map fun builder => { builder with block := retag options builder.block }) := by
    have stored := (changesTo_mapBlocks heap (retag options) forest.ids).stores stores
    rwa [BuilderPool.map_ite_of_forall_mem (fun _ member => member)] at stored
  have rootsEq :
      (forest.map fun builder =>
          ({ builder with block := retag options builder.block } : Builder)).rootIds =
        forest.rootIds := by
    apply BuilderPool.rootIds_map
    intro builder
    rfl
  have built := changed.builds
  rw [rootsEq, Forest.map_map] at built
  rw [BlockForest.tree_update, Forest.map_map]
  exact built

/-- Two heaps differ in the blocks of a builder and of those below it alone: in no
children, no parents, no handles, and in nothing that these decide. -/
structure DiffersBelow (heap heap' : BuilderHeap) (id : Nat) : Prop where
  outside : ∀ other, other ≠ id → ¬ (heap.Lives other ∧ heap.IsAncestor id other) →
    heap'.node other = heap.node other
  children : ∀ other, heap'.children other = heap.children other
  parent : ∀ other, (heap'.node other).parent = (heap.node other).parent
  handles : heap'.handles = heap.handles
  count : heap'.count = heap.count
  lives : ∀ other, heap'.Lives other ↔ heap.Lives other
  isParent : ∀ owner other, heap'.IsParent owner other ↔ heap.IsParent owner other

/-- What lives is told by handles and children. -/
theorem Lives.congr
    (lives : heap.Lives id)
    (handles : heap'.handles = heap.handles)
    (children : ∀ other, heap'.children other = heap.children other) :
    heap'.Lives id := by
  induction lives with
  | handle held =>
      apply Lives.handle
      rwa [handles]
  | child _ isChild ownerLives =>
      apply Lives.child ownerLives
      rwa [children]

theorem lives_mapBlocks_iff {f : Block → Block} :
    (heap.mapBlocks f ids).Lives id ↔ heap.Lives id := by
  constructor
  · intro lives
    exact lives.congr rfl fun other => (children_mapBlocks f ids other).symm
  · intro lives
    exact lives.congr rfl (children_mapBlocks f ids)

theorem parent_mapBlocks (f : Block → Block) (ids : List Nat) (id : Nat) :
    ((heap.mapBlocks f ids).node id).parent = (heap.node id).parent :=
  (changesTo_mapBlocks heap f ids).parents id

private theorem Mirrors.differsBelow
    (mirrors : heap.Mirrors forest)
    (found : forest.find? (BuilderPool.hasId id) = some (builder, below))
    (f : Block → Block) :
    heap.DiffersBelow (heap.mapBlocks f (Forest.single builder below).ids) id where
  outside := by
    intro other different notBelow
    refine (sameNode_mapBlocks ?_).1
    intro inTree
    have lives := mirrors.live ((BuilderPool.ids_sublist_of_find? found).subset inTree)
    rcases (mirrors.mem_ids_iff_isAncestor found lives).1 inTree with own | above
    · exact different own
    · exact notBelow ⟨lives, above⟩
  children := children_mapBlocks f _
  parent := parent_mapBlocks f _
  handles := rfl
  count := rfl
  lives := fun _ => lives_mapBlocks_iff
  isParent := by
    intro owner other
    rw [IsParent, parent_mapBlocks, lives_mapBlocks_iff, IsParent]

/-- Bringing the tags of a builder up to date in place and in what has been built
from it come to the same: to the same blocks, and to the same answer whether any tag
was another one. Only blocks of the builder and of those below it change. A pool that
has answered the calls so far does and tells the same. -/
theorem updatesInPlace_of_runs
    (runs : Runs .empty calls heap answers)
    (lives : heap.Lives id)
    (options : UpdateOptions) :
    let pool := (HandledPool.empty.performAll calls).1.pool
    let update := BlockForest.update options (pool.build id)
    heap.Builds [id] (pool.build id) ∧
      ∃ heap',
        (∀ found modified,
          UpdatesInPlace options heap [id] found modified ↔
            found = heap' ∧ modified = update.modified) ∧
        heap'.Builds [id] update.tree ∧
        heap.DiffersBelow heap' id ∧
        heap'.IsShownBy (pool.updateTags id options) ∧
        (pool.updateTags id options).build id = update.tree ∧
        pool.updateModifies id options = update.modified := by
  intro pool update
  obtain ⟨tracks, _⟩ := runs.tracks tracks_empty
  have mirrors : heap.Mirrors pool.forest := tracks.mirrors
  obtain ⟨builder, below, found, rfl, stored, nodup⟩ := mirrors.exists_tree lives
  have buildEq : pool.build builder.id = (Forest.single builder below).map (·.block) := by
    simp only [BuilderPool.build, BuilderPool.find?, found]
    rfl
  have built : heap.Builds [builder.id] (pool.build builder.id) := by
    rw [buildEq]
    exact stored.builds
  have updates := stored.updates_single nodup options
  obtain ⟨modified, inPlace⟩ := updates_iff_exists_updatesInPlace.1 updates
  have modifiedEq : modified = update.modified := by
    rw [stored.modified_eq nodup inPlace, BlockForest.modified_update_eq_any, buildEq,
      Forest.toList_map, List.any_map]
    rfl
  have updatedMirrors := mirrors.mapTree found (retag options)
  have shown :
      (heap.mapBlocks (retag options) (Forest.single builder below).ids).IsShownBy
        (pool.updateTags builder.id options) :=
    Mirrors.isShownBy updatedMirrors
  have updated :
      (heap.mapBlocks (retag options) (Forest.single builder below).ids).Builds [builder.id]
        update.tree := by
    have updatedRoots := stored.builds_mapBlocks options
    rwa [← buildEq, Forest.rootIds_single] at updatedRoots
  refine ⟨built, _, ?_, updated, mirrors.differsBelow found _, shown, ?_, ?_⟩
  · intro other flag
    constructor
    · intro otherInPlace
      obtain ⟨rfl, rfl⟩ := otherInPlace.unique inPlace
      exact ⟨rfl, modifiedEq⟩
    · intro same
      rw [same.1, same.2, ← modifiedEq]
      exact inPlace
  · exact ((shown.build _ _ (lives_mapBlocks_iff.2 lives)).1 updated).symm
  · rw [BuilderPool.updateModifies, BlockForest.modified_update_eq_any]

/-- A builder without a marker, and below it one with a start that has moved. -/
def movedCalls : List BuilderCall :=
  [.create, .create, .addChild 0 1,
    .setStart 1
      ⟨.macroStart, .lineComment, some ⟨none, 7⟩, none, ⟨⟨2, 1, 5⟩, ⟨2, 12, 16⟩⟩,
        some ⟨14, 16⟩, 16, false⟩]

theorem updatesInPlace_of_movedCalls :
    ∃ heap heap', Runs .empty movedCalls heap [none, none, none, none] ∧
      heap.Lives 0 ∧
      UpdatesInPlace ⟨false⟩ heap [0] heap' true ∧
      heap.DiffersBelow heap' 0 := by
  have permitted : HandledPool.empty.permitsAll movedCalls = true := by decide +kernel
  obtain ⟨heap, runs⟩ := tracks_empty.exists_runs permitted
  have lives : heap.Lives 0 := by
    rw [(runs.tracks tracks_empty).1.mirrors.lives_iff_isSome]
    decide +kernel
  obtain ⟨_, heap', inPlace, _, differs, _⟩ := updatesInPlace_of_runs runs lives ⟨false⟩
  refine ⟨heap, heap', runs, lives, (inPlace heap' true).2 ⟨rfl, ?_⟩, differs⟩
  decide +kernel

end BuilderHeap

end MacroRegions
