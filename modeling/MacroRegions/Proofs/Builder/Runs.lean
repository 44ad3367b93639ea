import MacroRegions.Proofs.Builder.Calls

/-!
Builders after any calls.

A pool keeps trees where nodes keep references, but it answers every call as the nodes
do and shows the same builders. These form a forest whatever has been called. Adding a
child fails just when the child has a parent or stands above its new parent, and then
changes nothing.
-/

namespace MacroRegions

structure HandledPool where
  pool : BuilderPool
  handles : Nat → Nat

namespace HandledPool

def empty : HandledPool := ⟨.empty, fun _ => 0⟩

variable (handled : HandledPool)

/-- One handle less on a builder, which is released with the last one. -/
def drop (id : Nat) : HandledPool where
  pool := if handled.handles id - 1 = 0 then handled.pool.release id else handled.pool
  handles := Function.update handled.handles id (handled.handles id - 1)

def perform : BuilderCall → HandledPool × Option Failure
  | .create =>
    (⟨handled.pool.create.2, Function.update handled.handles handled.pool.create.1 1⟩, none)
  | .hold id =>
    (⟨handled.pool.hold id, Function.update handled.handles id (handled.handles id + 1)⟩, none)
  | .drop id => (handled.drop id, none)
  | .setStart id start => ({ handled with pool := handled.pool.setStart id start }, none)
  | .setStop id stop => ({ handled with pool := handled.pool.setStop id stop }, none)
  | .setError id error => ({ handled with pool := handled.pool.setError id error }, none)
  | .addChild parent child =>
    match handled.pool.addChild parent child with
    | .ok pool => ({ handled with pool := pool }, none)
    | .error failure => (handled, some failure)
  | .withAddChild parent child =>
    match handled.pool.addChild parent child with
    | .ok pool => ({ handled with pool := pool }, none)
    | .error failure => (handled.drop parent, some failure)
  | .updateTags id options => ({ handled with pool := handled.pool.updateTags id options }, none)

def performAll : HandledPool → List BuilderCall → HandledPool × List (Option Failure)
  | handled, [] => (handled, [])
  | handled, call :: calls =>
    let last := performAll (handled.perform call).1 calls
    (last.1, (handled.perform call).2 :: last.2)

/-- A call is made on builders that live, and a handle is given away by who has
one. -/
def permits : BuilderCall → Bool
  | .create => true
  | .hold id => (handled.pool.find? id).isSome
  | .drop id => 0 < handled.handles id
  | .setStart id _ => (handled.pool.find? id).isSome
  | .setStop id _ => (handled.pool.find? id).isSome
  | .setError id _ => (handled.pool.find? id).isSome
  | .addChild parent child =>
    (handled.pool.find? parent).isSome && (handled.pool.find? child).isSome
  | .withAddChild parent child =>
    0 < handled.handles parent && (handled.pool.find? child).isSome
  | .updateTags id _ => (handled.pool.find? id).isSome

def permitsAll : HandledPool → List BuilderCall → Bool
  | _, [] => true
  | handled, call :: calls => handled.permits call && permitsAll (handled.perform call).1 calls

end HandledPool

namespace BuilderHeap

/-- A pool shows the builders of a heap that live, and no others. -/
structure IsShownBy (heap : BuilderHeap) (pool : BuilderPool) : Prop where
  lives : ∀ id, heap.Lives id ↔ (pool.find? id).isSome
  block : ∀ id, heap.Lives id → pool.block? id = some (heap.node id).block
  children : ∀ id, heap.Lives id → pool.children id = heap.children id
  parent : ∀ id owner, heap.Lives id → (pool.parent? id = some owner ↔ heap.IsParent owner id)
  build : ∀ id tree, heap.Lives id → (heap.Builds [id] tree ↔ tree = pool.build id)

/-- What comes of adding a child: the check for a parent, then the one for a
cycle, then the child behind the others. -/
def AddsInOrder (heap : BuilderHeap) (parent child : Nat) : Prop :=
  ∀ result, heap.AddsChild parent child result ↔
    (∃ other, heap.IsParent other child) ∧ result = .error .builderAlreadyAttached ∨
      (∀ other, ¬ heap.IsParent other child) ∧
        (parent = child ∨ heap.IsAncestor child parent) ∧ result = .error .builderCycle ∨
      (∀ other, ¬ heap.IsParent other child) ∧
        ¬ (parent = child ∨ heap.IsAncestor child parent) ∧
        result = .ok (heap.link parent child)

def Permits (heap : BuilderHeap) : BuilderCall → Prop
  | .create => True
  | .hold id => heap.Lives id
  | .drop id => 0 < heap.handles id
  | .setStart id _ => heap.Lives id
  | .setStop id _ => heap.Lives id
  | .setError id _ => heap.Lives id
  | .addChild parent child => heap.Lives parent ∧ heap.Lives child
  | .withAddChild parent child => 0 < heap.handles parent ∧ heap.Lives child
  | .updateTags id _ => heap.Lives id

structure Tracks (heap : BuilderHeap) (handled : HandledPool) : Prop where
  mirrors : heap.Mirrors handled.pool.forest
  countEq : handled.pool.nextId = heap.count
  handlesEq : handled.handles = heap.handles

variable {heap heap' : BuilderHeap} {handled : HandledPool} {pool : BuilderPool}
  {id owner child : Nat} {call : BuilderCall} {calls : List BuilderCall}
  {answer : Option Failure} {answers : List (Option Failure)} {failure : Failure}

theorem Mirrors.lives_iff_isSome (mirrors : heap.Mirrors pool.forest) :
    heap.Lives id ↔ (pool.find? id).isSome := by
  rw [mirrors.lives_iff, ← BuilderPool.exists_find?_iff, Option.isSome_iff_exists]
  rfl

theorem Mirrors.isShownBy (mirrors : heap.Mirrors pool.forest) : heap.IsShownBy pool where
  lives := fun _ => mirrors.lives_iff_isSome
  block := by
    intro id lives
    obtain ⟨builder, below, found, rfl, stored, _⟩ := mirrors.exists_tree lives
    rw [BuilderPool.block?, BuilderPool.find?, found, (stores_single.1 stored).1.block]
    rfl
  children := by
    intro id lives
    obtain ⟨builder, below, found, rfl, stored, _⟩ := mirrors.exists_tree lives
    rw [BuilderPool.children, BuilderPool.find?, found, (stores_single.1 stored).1.children]
    rfl
  parent := fun _ _ lives => mirrors.parent?_eq_some_iff lives
  build := by
    intro id tree lives
    obtain ⟨builder, below, found, rfl, _, _⟩ := mirrors.exists_tree lives
    rw [BuilderPool.build, BuilderPool.find?, found]
    constructor
    · exact fun builds => builds.unique (mirrors.builds found)
    · rintro rfl
      exact mirrors.builds found

private theorem Mirrors.parent?_eq_none
    (mirrors : heap.Mirrors pool.forest)
    (lives : heap.Lives id)
    (alone : ∀ other, ¬ heap.IsParent other id) :
    pool.parent? id = none :=
  Option.eq_none_iff_forall_ne_some.2 fun other isParent =>
    alone other ((mirrors.parent?_eq_some_iff lives).1 isParent)

private theorem Mirrors.isRoot_of_alone
    (mirrors : heap.Mirrors pool.forest)
    (lives : heap.Lives id)
    (alone : ∀ other, ¬ heap.IsParent other id) :
    id ∈ pool.forest.rootIds := by
  refine (BuilderPool.isRoot_or_exists_parent? (mirrors.lives_iff.1 lives)).resolve_right ?_
  rintro ⟨builder, isParent⟩
  exact alone builder.id ((mirrors.parent?_eq_some_iff lives).1 (by rw [isParent]; rfl))

/-- A pool refuses a child as the walk upwards does. -/
theorem Mirrors.addChild_eq_error
    (mirrors : heap.Mirrors pool.forest)
    (ownerLives : heap.Lives owner)
    (childLives : heap.Lives child)
    (adds : heap.AddsChild owner child (.error failure)) :
    pool.addChild owner child = .error failure := by
  obtain ⟨builder, below, found, _⟩ := mirrors.exists_tree childLives
  cases adds with
  | attached isParent =>
      have parentEq : pool.parent? child = some _ :=
        (mirrors.parent?_eq_some_iff childLives).2 isParent
      simp [BuilderPool.addChild, parentEq]
  | cycle alone climbs =>
      have isBelow := (mirrors.mem_ids_iff_isAncestor found ownerLives).2 (climbs.met_iff.1 rfl)
      simp only [BuilderPool.addChild, mirrors.parent?_eq_none childLives alone,
        BuilderPool.find?, found]
      rw [if_pos (BuilderPool.contains_iff.2 isBelow)]

/-- A pool takes a child as the nodes do. -/
theorem Mirrors.addChild_eq_ok
    (mirrors : heap.Mirrors pool.forest)
    (ownerLives : heap.Lives owner)
    (childLives : heap.Lives child)
    (adds : heap.AddsChild owner child (.ok heap')) :
    ∃ forest, pool.addChild owner child = .ok { pool with forest := forest } ∧
      heap'.Mirrors forest ∧
      heap'.count = heap.count ∧
      heap'.handles = heap.handles := by
  obtain ⟨builder, below, found, _⟩ := mirrors.exists_tree childLives
  cases adds with
  | added alone climbs =>
      have notBelow : owner ∉ (Forest.single builder below).ids := by
        rw [mirrors.mem_ids_iff_isAncestor found ownerLives, ← climbs.met_iff]
        exact Bool.false_ne_true
      have member := mirrors.lives_iff.1 ownerLives
      simp only [BuilderPool.addChild, mirrors.parent?_eq_none childLives alone,
        BuilderPool.find?, found]
      rw [if_neg (mt BuilderPool.contains_iff.1 notBelow),
        if_pos (BuilderPool.contains_iff.2 member)]
      exact
        ⟨_, rfl, mirrors.link (mirrors.isRoot_of_alone childLives alone) found member notBelow,
          rfl, rfl⟩

theorem tracks_empty : BuilderHeap.empty.Tracks .empty where
  mirrors := by
    refine ⟨⟨trivial, List.nodup_nil, ?_, ?_, ?_, ?_⟩, ?_⟩ <;>
      simp [HandledPool.empty, BuilderPool.empty, BuilderHeap.empty]
  countEq := rfl
  handlesEq := rfl

theorem Tracks.drop
    (tracks : heap.Tracks handled)
    (id : Nat) :
    (heap.drop id).Tracks (handled.drop id) where
  mirrors := by
    rw [HandledPool.drop, tracks.handlesEq]
    split
    · next last => exact tracks.mirrors.dropLast last
    · next more => exact tracks.mirrors.dropOne more
  countEq := by
    rw [HandledPool.drop]
    split <;> exact tracks.countEq
  handlesEq := by rw [HandledPool.drop, tracks.handlesEq, BuilderHeap.drop]

theorem Tracks.modifyBlock
    (tracks : heap.Tracks handled)
    (id : Nat)
    (change : Block → Block) :
    (heap.modifyBlock id change).Tracks
      { handled with pool := handled.pool.modifyBlock id change } :=
  ⟨tracks.mirrors.modifyBlock id change, tracks.countEq, tracks.handlesEq⟩

theorem Tracks.updateTags
    {options : UpdateOptions}
    (tracks : heap.Tracks handled)
    (lives : heap.Lives id)
    (updates : Updates options heap [id] heap') :
    heap'.Tracks { handled with pool := handled.pool.updateTags id options } := by
  obtain ⟨builder, below, found, rfl, stored, nodup⟩ := tracks.mirrors.exists_tree lives
  obtain rfl := updates.unique (stored.updates_single nodup options)
  exact ⟨tracks.mirrors.mapTree found (retag options), tracks.countEq, tracks.handlesEq⟩

/-- A pool goes along with every call, and answers it in the same way. -/
theorem Takes.tracks
    (takes : heap.Takes call heap' answer)
    (tracks : heap.Tracks handled) :
    heap'.Tracks (handled.perform call).1 ∧ (handled.perform call).2 = answer := by
  have mirrors := tracks.mirrors
  cases takes with
  | create =>
      refine ⟨⟨?_, ?_, ?_⟩, rfl⟩
      · simpa [HandledPool.perform, BuilderPool.create, tracks.countEq] using mirrors.create
      · simp [HandledPool.perform, BuilderPool.create, tracks.countEq, BuilderHeap.create]
      · simp [HandledPool.perform, BuilderPool.create, tracks.countEq, tracks.handlesEq,
          BuilderHeap.create]
  | hold lives =>
      refine ⟨⟨mirrors.hold lives, tracks.countEq, ?_⟩, rfl⟩
      simp [HandledPool.perform, tracks.handlesEq, BuilderHeap.hold]
  | drop => exact ⟨tracks.drop _, rfl⟩
  | setStart => exact ⟨tracks.modifyBlock _ _, rfl⟩
  | setStop => exact ⟨tracks.modifyBlock _ _, rfl⟩
  | setError => exact ⟨tracks.modifyBlock _ _, rfl⟩
  | added ownerLives childLives adds =>
      obtain ⟨forest, addEq, added, countEq, handlesEq⟩ :=
        mirrors.addChild_eq_ok ownerLives childLives adds
      simp only [HandledPool.perform, addEq, and_true]
      exact ⟨added, tracks.countEq.trans countEq.symm, tracks.handlesEq.trans handlesEq.symm⟩
  | refused ownerLives childLives adds =>
      simp only [HandledPool.perform, mirrors.addChild_eq_error ownerLives childLives adds,
        and_true]
      exact tracks
  | withAdded ownerHeld childLives adds =>
      obtain ⟨forest, addEq, added, countEq, handlesEq⟩ :=
        mirrors.addChild_eq_ok (.handle ownerHeld) childLives adds
      simp only [HandledPool.perform, addEq, and_true]
      exact ⟨added, tracks.countEq.trans countEq.symm, tracks.handlesEq.trans handlesEq.symm⟩
  | withRefused ownerHeld childLives adds =>
      simp only [HandledPool.perform,
        mirrors.addChild_eq_error (.handle ownerHeld) childLives adds, and_true]
      exact tracks.drop _
  | updateTags lives updates => exact ⟨tracks.updateTags lives updates, rfl⟩

/-- A call that fails leaves all builders as they are. -/
theorem Takes.node_eq (takes : heap.Takes call heap' (some failure)) : heap'.node = heap.node := by
  cases takes <;> rfl

/-- Only the calls that add a child can fail. A handle that was given away for it is gone,
and nothing else changes. -/
theorem Takes.cases_of_failure (takes : heap.Takes call heap' (some failure)) :
    (∃ parent child, call = .addChild parent child ∧ heap' = heap) ∨
      ∃ parent child, call = .withAddChild parent child ∧ heap' = heap.drop parent := by
  cases takes with
  | refused => exact Or.inl ⟨_, _, rfl, rfl⟩
  | withRefused => exact Or.inr ⟨_, _, rfl, rfl⟩

/-- A call that is permitted comes to an end. -/
theorem Mirrors.exists_takes
    {forest : Forest Builder}
    (mirrors : heap.Mirrors forest)
    (permitted : heap.Permits call) :
    ∃ heap' answer, heap.Takes call heap' answer := by
  have adds : ∀ owner child, heap.Lives owner → ∃ result, heap.AddsChild owner child result := by
    intro owner child ownerLives
    by_cases attached : ∃ other, heap.IsParent other child
    · exact ⟨_, .attached attached.choose_spec⟩
    · obtain ⟨met, climbs⟩ := mirrors.exists_climbs child ownerLives
      cases met with
      | false => exact ⟨_, .added (not_exists.1 attached) climbs⟩
      | true => exact ⟨_, .cycle (not_exists.1 attached) climbs⟩
  cases call with
  | create => exact ⟨_, _, .create⟩
  | hold => exact ⟨_, _, .hold permitted⟩
  | drop => exact ⟨_, _, .drop permitted⟩
  | setStart => exact ⟨_, _, .setStart permitted⟩
  | setStop => exact ⟨_, _, .setStop permitted⟩
  | setError => exact ⟨_, _, .setError permitted⟩
  | addChild owner child =>
      obtain ⟨ownerLives, childLives⟩ := permitted
      obtain ⟨result, adds⟩ := adds owner child ownerLives
      cases result with
      | ok => exact ⟨_, _, .added ownerLives childLives adds⟩
      | error => exact ⟨_, _, .refused ownerLives childLives adds⟩
  | withAddChild owner child =>
      obtain ⟨ownerHeld, childLives⟩ := permitted
      obtain ⟨result, adds⟩ := adds owner child (.handle ownerHeld)
      cases result with
      | ok => exact ⟨_, _, .withAdded ownerHeld childLives adds⟩
      | error => exact ⟨_, _, .withRefused ownerHeld childLives adds⟩
  | updateTags id options =>
      obtain ⟨heap', updates⟩ := mirrors.isForest.updates id options permitted
      exact ⟨_, _, .updateTags permitted updates⟩

/-! ## All calls -/

theorem Runs.tracks
    (runs : Runs heap calls heap' answers)
    (tracks : heap.Tracks handled) :
    heap'.Tracks (handled.performAll calls).1 ∧ (handled.performAll calls).2 = answers := by
  induction runs generalizing handled with
  | nil => exact ⟨tracks, rfl⟩
  | cons takes _ inductionHypothesis =>
      obtain ⟨next, answerEq⟩ := takes.tracks tracks
      obtain ⟨last, answersEq⟩ := inductionHypothesis next
      exact ⟨last, by rw [HandledPool.performAll, answerEq, answersEq]⟩

theorem Tracks.permits_iff (tracks : heap.Tracks handled) :
    handled.permits call = true ↔ heap.Permits call := by
  cases call <;>
    simp [HandledPool.permits, Permits, tracks.mirrors.lives_iff_isSome, tracks.handlesEq]

/-- Calls that a pool permits can be made. -/
theorem Tracks.exists_runs
    (tracks : heap.Tracks handled)
    (permitted : handled.permitsAll calls = true) :
    ∃ heap', Runs heap calls heap' (handled.performAll calls).2 := by
  induction calls generalizing heap handled with
  | nil => exact ⟨heap, .nil⟩
  | cons call calls inductionHypothesis =>
      rw [HandledPool.permitsAll, Bool.and_eq_true] at permitted
      obtain ⟨next, answer, takes⟩ :=
        tracks.mirrors.exists_takes (tracks.permits_iff.1 permitted.1)
      obtain ⟨nextTracks, rfl⟩ := takes.tracks tracks
      obtain ⟨last, runs⟩ := inductionHypothesis nextTracks permitted.2
      exact ⟨last, .cons takes runs⟩

/-- After any calls the builders that live form a forest, as a pool shows it that
has answered the same. Every further call that is permitted comes to an end.
Adding a child fails if the child has a parent, then if it stands above its new
parent or is the same. No other call fails, and one that does leaves the heap as it
is, but for the handle on the parent if that was given away. -/
theorem isForest_of_runs (runs : Runs .empty calls heap answers) :
    heap.IsForest ∧
      (∀ owner child, heap.Lives owner → heap.Lives child → heap.AddsInOrder owner child) ∧
      (∀ call heap' failure,
        heap.Takes call heap' (some failure) →
          heap'.node = heap.node ∧
            ((∃ parent child, call = .addChild parent child ∧ heap' = heap) ∨
              ∃ parent child, call = .withAddChild parent child ∧ heap' = heap.drop parent)) ∧
      (∀ call, heap.Permits call → ∃ heap' answer, heap.Takes call heap' answer) ∧
      heap.IsShownBy (HandledPool.empty.performAll calls).1.pool ∧
      (HandledPool.empty.performAll calls).2 = answers := by
  obtain ⟨tracks, answersEq⟩ := runs.tracks tracks_empty
  have mirrors := tracks.mirrors
  exact
    ⟨mirrors.isForest, fun _ _ ownerLives _ _ => mirrors.addsChild_iff ownerLives,
      fun _ _ _ takes => ⟨takes.node_eq, takes.cases_of_failure⟩,
      fun _ permitted => mirrors.exists_takes permitted, mirrors.isShownBy, answersEq⟩

/-- A builder with a parent, which can be added elsewhere when the parent is dead. -/
def adoptionCalls : List BuilderCall :=
  [.create, .create, .create, .addChild 0 1, .addChild 1 0, .addChild 2 1, .drop 0,
    .addChild 2 1]

theorem isForest_of_adoptionCalls :
    ∃ heap, Runs .empty adoptionCalls heap
        [none, none, none, none, some .builderCycle, some .builderAlreadyAttached, none, none] ∧
      heap.IsForest ∧
      (∀ owner child, heap.Lives owner → heap.Lives child → heap.AddsInOrder owner child) := by
  have permitted : HandledPool.empty.permitsAll adoptionCalls = true := by decide +kernel
  obtain ⟨heap, runs⟩ := tracks_empty.exists_runs permitted
  obtain ⟨isForest, adds, _⟩ := isForest_of_runs runs
  exact ⟨heap, runs, isForest, adds⟩

end BuilderHeap

end MacroRegions
