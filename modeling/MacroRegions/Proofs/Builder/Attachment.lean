import MacroRegions.Proofs.Builder.Determinism
import MacroRegions.Proofs.Builder.Linking

/-!
Adding a builder before or after it has been worked on.

Children are shared handles: what is done to a builder and to those below it can be
seen from above, whether it is done before or after the builder has been added. But
the walk upwards that looks for a cycle is longer afterwards, so nothing of the tree
of the new parent may be added in between. With that the calls answer the same in
either order and come to the same builders.
-/

namespace MacroRegions

namespace BuilderPool

def isWithin (pool : BuilderPool) (root id : Nat) : Bool :=
  match pool.find? root with
  | some (builder, below) => (Forest.single builder below).contains (hasId id)
  | none => false

def sharesTree (pool : BuilderPool) (id other : Nat) : Bool :=
  pool.forest.ids.any fun top => pool.isWithin top id && pool.isWithin top other

end BuilderPool

namespace HandledPool

/-- A call edits the tree of `root` and adds nothing from the tree of `owner`. -/
def edits (handled : HandledPool) (owner root : Nat) : BuilderCall → Bool
  | .setStart id _ => (handled.pool.find? id).isSome && handled.pool.isWithin root id
  | .setStop id _ => (handled.pool.find? id).isSome && handled.pool.isWithin root id
  | .setError id _ => (handled.pool.find? id).isSome && handled.pool.isWithin root id
  | .addChild parent child =>
    (handled.pool.find? parent).isSome && (handled.pool.find? child).isSome &&
      handled.pool.isWithin root parent && child != root && !handled.pool.sharesTree owner child
  | _ => false

def editsAll (owner root : Nat) : HandledPool → List BuilderCall → Bool
  | _, [] => true
  | handled, call :: calls =>
    handled.edits owner root call && editsAll owner root (handled.perform call).1 calls

end HandledPool

namespace BuilderHeap

variable {heap next : BuilderHeap} {handled : HandledPool} {pool : BuilderPool}
  {owner root parent child above id : Nat} {call : BuilderCall} {calls edits : List BuilderCall}
  {answer : Option Failure} {answers : List (Option Failure)}

/-- Two builders belong to one tree. -/
def SharesTree (heap : BuilderHeap) (id other : Nat) : Prop :=
  ∃ top, heap.IsWithin top id ∧ heap.IsWithin top other

/-- A call sets something in a builder of the tree of `root`, or adds a child to one.
The child is not `root` and does not belong to the tree of `owner`. -/
@[mk_iff]
inductive Edits (heap : BuilderHeap) (owner root : Nat) : BuilderCall → Prop where
  | setStart {id : Nat} {start : Marker} (lives : heap.Lives id) (within : heap.IsWithin root id) :
      Edits heap owner root (.setStart id start)
  | setStop {id : Nat} {stop : Option Marker} (lives : heap.Lives id)
      (within : heap.IsWithin root id) :
      Edits heap owner root (.setStop id stop)
  | setError {id : Nat} {error : Option BlockError} (lives : heap.Lives id)
      (within : heap.IsWithin root id) :
      Edits heap owner root (.setError id error)
  | addChild {parent child : Nat}
      (parentLives : heap.Lives parent)
      (childLives : heap.Lives child)
      (within : heap.IsWithin root parent)
      (notRoot : child ≠ root)
      (elsewhere : ¬ heap.SharesTree owner child) :
      Edits heap owner root (.addChild parent child)

def EditsAll (owner root : Nat) : BuilderHeap → List BuilderCall → Prop
  | _, [] => True
  | heap, call :: calls =>
    heap.Edits owner root call ∧
      ∀ next answer, heap.Takes call next answer → EditsAll owner root next calls

structure CanAttach (heap : BuilderHeap) (owner root : Nat) : Prop where
  ownerLives : heap.Lives owner
  rootLives : heap.Lives root
  alone : ∀ other, ¬ heap.IsParent other root
  apart : ¬ heap.IsWithin root owner

theorem IsWithin.lives
    (within : heap.IsWithin root id)
    (lives : heap.Lives id) :
    heap.Lives root := by
  rcases within with same | isAbove
  · rwa [← same]
  · obtain ⟨lower, isParent, _⟩ := Relation.TransGen.head'_iff.1 isAbove
    exact isParent.2

theorem isWithin_modifyBlock_iff {f : Block → Block} :
    (heap.modifyBlock id f).IsWithin above owner ↔ heap.IsWithin above owner := by
  rw [IsWithin, IsWithin, isAncestor_modifyBlock_iff]

private theorem SharesTree.of_isWithin
    (within : heap.IsWithin child owner) :
    heap.SharesTree owner child :=
  ⟨child, within, isWithin_self heap child⟩

/-- A child that does not belong to a tree changes nothing above the builders of the
tree. -/
theorem isWithin_link_iff_of_elsewhere
    (parentLives : heap.Lives parent)
    (childLives : heap.Lives child)
    (alone : ∀ other, ¬ heap.IsParent other child)
    (elsewhere : ¬ heap.SharesTree owner child) :
    (heap.link parent child).IsWithin above owner ↔ heap.IsWithin above owner := by
  rw [isWithin_link_iff parentLives childLives alone, or_iff_left]
  exact fun joined => elsewhere (.of_isWithin joined.1)

theorem CanAttach.modifyBlock
    (attach : heap.CanAttach owner root)
    (id : Nat)
    (f : Block → Block) :
    (heap.modifyBlock id f).CanAttach owner root where
  ownerLives := lives_modifyBlock_iff.2 attach.ownerLives
  rootLives := lives_modifyBlock_iff.2 attach.rootLives
  alone := by
    intro other
    rw [isParent_modifyBlock_iff]
    exact attach.alone other
  apart := by
    rw [isWithin_modifyBlock_iff]
    exact attach.apart

theorem CanAttach.link
    (attach : heap.CanAttach owner root)
    (parentLives : heap.Lives parent)
    (childLives : heap.Lives child)
    (alone : ∀ other, ¬ heap.IsParent other child)
    (notRoot : child ≠ root)
    (elsewhere : ¬ heap.SharesTree owner child) :
    (heap.link parent child).CanAttach owner root where
  ownerLives := (lives_link_iff childLives).2 attach.ownerLives
  rootLives := (lives_link_iff childLives).2 attach.rootLives
  alone := by
    intro other
    rw [isParent_link_of_ne childLives notRoot.symm]
    exact attach.alone other
  apart := by
    rw [isWithin_link_iff_of_elsewhere parentLives childLives alone elsewhere]
    exact attach.apart

/-- A builder that can be added is added. -/
theorem CanAttach.takes
    (attach : heap.CanAttach owner root)
    (tracks : heap.Tracks handled) :
    heap.Takes (.addChild owner root) (heap.link owner root) none := by
  apply Takes.added attach.ownerLives attach.rootLives
  rw [tracks.mirrors.addsChild_iff attach.ownerLives]
  exact Or.inr (Or.inr ⟨attach.alone, attach.apart, rfl⟩)

/-- A builder can be attached that is added when it is tried. -/
theorem canAttach_of_takes
    (takes : heap.Takes (.addChild owner root) next none) :
    heap.CanAttach owner root := by
  cases takes with
  | added ownerLives rootLives adds =>
      cases adds with
      | added alone climbs =>
          refine ⟨ownerLives, rootLives, alone, ?_⟩
          intro within
          exact Bool.false_ne_true (climbs.met_iff.2 within)

/-- Edits leave the builders above `owner` alone, and `root` can still be added. -/
theorem Edits.canAttach
    (edits : heap.Edits owner root call)
    (attach : heap.CanAttach owner root)
    (takes : heap.Takes call next answer) :
    next.CanAttach owner root ∧ ∀ id, next.IsWithin id owner ↔ heap.IsWithin id owner := by
  cases edits with
  | setStart =>
      cases takes
      exact ⟨attach.modifyBlock _ _, fun _ => isWithin_modifyBlock_iff⟩
  | setStop =>
      cases takes
      exact ⟨attach.modifyBlock _ _, fun _ => isWithin_modifyBlock_iff⟩
  | setError =>
      cases takes
      exact ⟨attach.modifyBlock _ _, fun _ => isWithin_modifyBlock_iff⟩
  | addChild parentLives childLives _ notRoot elsewhere =>
      cases takes with
      | refused => exact ⟨attach, fun _ => Iff.rfl⟩
      | added _ _ adds =>
          cases adds with
          | added alone =>
              refine ⟨attach.link parentLives childLives alone notRoot elsewhere, ?_⟩
              intro id
              exact isWithin_link_iff_of_elsewhere parentLives childLives alone elsewhere

/-- The longer walk upwards meets no other builder: nothing above `owner` is added. -/
theorem CanAttach.addsChild_link
    {result : Except Failure BuilderHeap}
    (attach : heap.CanAttach owner root)
    (tracks : heap.Tracks handled)
    (parentLives : heap.Lives parent)
    (within : heap.IsWithin root parent)
    (notRoot : child ≠ root)
    (elsewhere : ¬ heap.SharesTree owner child)
    (adds : heap.AddsChild parent child result) :
    (heap.link owner root).AddsChild parent child (result.map (·.link owner root)) := by
  have linked := ((attach.takes tracks).tracks tracks).1.mirrors
  have parentLives' : (heap.link owner root).Lives parent :=
    (lives_link_iff attach.rootLives).2 parentLives
  have parentIff : ∀ other,
      (heap.link owner root).IsParent other child ↔ heap.IsParent other child :=
    fun other => isParent_link_of_ne attach.rootLives notRoot
  -- what the walk meets beyond `root` stands above `owner`, where `child` is not
  have withinIff :
      (heap.link owner root).IsWithin child parent ↔ heap.IsWithin child parent := by
    rw [isWithin_link_iff attach.ownerLives attach.rootLives attach.alone, or_iff_left]
    exact fun joined => elsewhere (.of_isWithin joined.2)
  rw [linked.addsChild_iff parentLives']
  rcases (tracks.mirrors.addsChild_iff parentLives).1 adds with
    ⟨⟨other, isParent⟩, resultEq⟩ | ⟨alone, isBelow, resultEq⟩ | ⟨alone, notBelow, resultEq⟩
  · rw [resultEq]
    exact Or.inl ⟨⟨other, (parentIff other).2 isParent⟩, rfl⟩
  · rw [resultEq]
    exact
      Or.inr (Or.inl ⟨fun other => mt (parentIff other).1 (alone other), withinIff.2 isBelow, rfl⟩)
  · have owners : parent ≠ owner := fun same => attach.apart (same ▸ within)
    rw [resultEq]
    refine
      Or.inr (Or.inr ⟨fun other => mt (parentIff other).1 (alone other),
        mt withinIff.1 notBelow, ?_⟩)
    rw [Except.map, link_link owners notRoot]

/-- An edit does and answers the same when the tree has been added before it. -/
theorem Edits.takes_link
    (edits : heap.Edits owner root call)
    (attach : heap.CanAttach owner root)
    (tracks : heap.Tracks handled)
    (takes : heap.Takes call next answer) :
    (heap.link owner root).Takes call (next.link owner root) answer := by
  have livesNext : ∀ {id}, heap.Lives id → (heap.link owner root).Lives id :=
    (lives_link_iff attach.rootLives).2
  cases edits with
  | setStart lives =>
      cases takes
      rw [← modifyBlock_link]
      exact .setStart (livesNext lives)
  | setStop lives =>
      cases takes
      rw [← modifyBlock_link]
      exact .setStop (livesNext lives)
  | setError lives =>
      cases takes
      rw [← modifyBlock_link]
      exact .setError (livesNext lives)
  | addChild parentLives childLives within notRoot elsewhere =>
      cases takes with
      | added _ _ adds =>
          have addsNext :=
            attach.addsChild_link tracks parentLives within notRoot elsewhere adds
          exact .added (livesNext parentLives) (livesNext childLives) addsNext
      | refused _ _ adds =>
          have addsNext :=
            attach.addsChild_link tracks parentLives within notRoot elsewhere adds
          exact .refused (livesNext parentLives) (livesNext childLives) addsNext

theorem Edits.permits (edits : heap.Edits owner root call) : heap.Permits call := by
  cases edits with
  | setStart lives => exact lives
  | setStop lives => exact lives
  | setError lives => exact lives
  | addChild parentLives childLives => exact ⟨parentLives, childLives⟩

/-! ## What a pool finds out -/

theorem Mirrors.isWithin_iff
    (mirrors : heap.Mirrors pool.forest)
    (lives : heap.Lives id) :
    pool.isWithin root id = true ↔ heap.IsWithin root id := by
  by_cases rootLives : heap.Lives root
  · obtain ⟨builder, below, found, _⟩ := mirrors.exists_tree rootLives
    simp only [BuilderPool.isWithin, BuilderPool.find?, found]
    rw [BuilderPool.contains_iff, mirrors.mem_ids_iff_isAncestor found lives, IsWithin]
  · have notFound : pool.find? root = none := by
      rw [← Option.not_isSome_iff_eq_none, ← mirrors.lives_iff_isSome]
      exact rootLives
    simp only [BuilderPool.isWithin, notFound, Bool.false_eq_true, false_iff]
    exact fun within => rootLives (within.lives lives)

theorem Mirrors.sharesTree_iff
    (mirrors : heap.Mirrors pool.forest)
    (ownerLives : heap.Lives owner)
    (childLives : heap.Lives child) :
    pool.sharesTree owner child = true ↔ heap.SharesTree owner child := by
  rw [BuilderPool.sharesTree, List.any_eq_true, SharesTree]
  apply exists_congr
  intro top
  rw [Bool.and_eq_true, mirrors.isWithin_iff ownerLives, mirrors.isWithin_iff childLives]
  constructor
  · exact And.right
  · intro within
    exact ⟨mirrors.lives_iff.1 (within.1.lives ownerLives), within⟩

theorem Tracks.edits_iff
    (tracks : heap.Tracks handled)
    (ownerLives : heap.Lives owner) :
    handled.edits owner root call = true ↔ heap.Edits owner root call := by
  have mirrors := tracks.mirrors
  have within : ∀ id, (handled.pool.find? id).isSome ∧ handled.pool.isWithin root id ↔
      heap.Lives id ∧ heap.IsWithin root id := by
    intro id
    rw [← mirrors.lives_iff_isSome]
    exact and_congr_right mirrors.isWithin_iff
  cases call with
  | setStart => simpa [HandledPool.edits, BuilderHeap.edits_iff] using within _
  | setStop => simpa [HandledPool.edits, BuilderHeap.edits_iff] using within _
  | setError => simpa [HandledPool.edits, BuilderHeap.edits_iff] using within _
  | addChild parent child =>
      have shares : heap.Lives child →
          (handled.pool.sharesTree owner child = false ↔ ¬ heap.SharesTree owner child) := by
        intro childLives
        rw [← Bool.not_eq_true, mirrors.sharesTree_iff ownerLives childLives]
      simp only [HandledPool.edits, Bool.and_eq_true, bne_iff_ne, Bool.not_eq_true',
        ← mirrors.lives_iff_isSome]
      constructor
      · intro checks
        obtain ⟨⟨⟨⟨parentLives, childLives⟩, isWithin⟩, notRoot⟩, elsewhere⟩ := checks
        exact
          .addChild parentLives childLives ((mirrors.isWithin_iff parentLives).1 isWithin) notRoot
            ((shares childLives).1 elsewhere)
      · intro edit
        cases edit with
        | addChild parentLives childLives isWithin notRoot elsewhere =>
            exact
              ⟨⟨⟨⟨parentLives, childLives⟩, (mirrors.isWithin_iff parentLives).2 isWithin⟩,
                notRoot⟩, (shares childLives).2 elsewhere⟩
  | create => simp [HandledPool.edits, BuilderHeap.edits_iff]
  | hold => simp [HandledPool.edits, BuilderHeap.edits_iff]
  | drop => simp [HandledPool.edits, BuilderHeap.edits_iff]
  | withAddChild => simp [HandledPool.edits, BuilderHeap.edits_iff]
  | updateTags => simp [HandledPool.edits, BuilderHeap.edits_iff]

/-- Whether a row of calls edits a tree can be found out on a pool. -/
theorem Tracks.editsAll_iff
    (tracks : heap.Tracks handled)
    (attach : heap.CanAttach owner root) :
    handled.editsAll owner root edits = true ↔ EditsAll owner root heap edits := by
  induction edits generalizing heap handled with
  | nil => simp [HandledPool.editsAll, EditsAll]
  | cons call calls inductionHypothesis =>
      rw [HandledPool.editsAll, Bool.and_eq_true, tracks.edits_iff attach.ownerLives, EditsAll]
      apply and_congr_right
      intro edit
      constructor
      · intro rest next answer takes
        exact
          (inductionHypothesis (takes.tracks tracks).1 (edit.canAttach attach takes).1).1 rest
      · intro rest
        obtain ⟨next, answer, takes⟩ := tracks.mirrors.exists_takes edit.permits
        have nextEdits := rest next answer takes
        exact
          (inductionHypothesis (takes.tracks tracks).1 (edit.canAttach attach takes).1).2 nextEdits

/-- Edits come to an end, and to the same when the tree has been added before. -/
theorem EditsAll.exists_runs
    (allEdit : EditsAll owner root heap edits)
    (attach : heap.CanAttach owner root)
    (tracks : heap.Tracks handled) :
    ∃ last answers, Runs heap edits last answers ∧
      Runs (heap.link owner root) edits (last.link owner root) answers ∧
      last.CanAttach owner root ∧
      ∀ id, last.IsWithin id owner ↔ heap.IsWithin id owner := by
  -- `root` stays free to be added, which each edit needs of those before it
  induction edits generalizing heap handled with
  | nil => exact ⟨heap, [], .nil, .nil, attach, fun _ => Iff.rfl⟩
  | cons call calls inductionHypothesis =>
      obtain ⟨edits, rest⟩ := allEdit
      obtain ⟨next, answer, takes⟩ := tracks.mirrors.exists_takes edits.permits
      obtain ⟨attachNext, aboveNext⟩ := edits.canAttach attach takes
      obtain ⟨last, answers, runs, linkedRuns, attachLast, aboveLast⟩ :=
        inductionHypothesis (rest next answer takes) attachNext (takes.tracks tracks).1
      refine ⟨last, answer :: answers, .cons takes runs, ?_, attachLast, ?_⟩
      · exact .cons (edits.takes_link attach tracks takes) linkedRuns
      · intro id
        exact (aboveLast id).trans (aboveNext id)

/-- Adding a builder commutes with editing it. The calls answer the same in either
order, and they come to the same builders. So they build the same from the new parent
and from every builder above it. -/
theorem attaching_commutes_with_editing
    (runs : Runs .empty calls heap answers)
    (attach : heap.CanAttach owner root)
    (allEdit : EditsAll owner root heap edits) :
    let pool := (HandledPool.empty.performAll calls).1
    let editedFirst := pool.performAll (edits ++ [.addChild owner root])
    let attachedFirst := pool.performAll (.addChild owner root :: edits)
    ∃ last results,
      (∀ found given,
        Runs heap (edits ++ [.addChild owner root]) found given ↔
          found = last ∧ given = results ++ [none]) ∧
      (∀ found given,
        Runs heap (.addChild owner root :: edits) found given ↔
          found = last ∧ given = none :: results) ∧
      editedFirst.2 = results ++ [none] ∧
      attachedFirst.2 = none :: results ∧
      last.IsShownBy editedFirst.1.pool ∧
      last.IsShownBy attachedFirst.1.pool ∧
      (∀ id, last.IsWithin id owner ↔ heap.IsWithin id owner) ∧
      ∀ id, heap.IsWithin id owner →
        last.Builds [id] (editedFirst.1.pool.build id) ∧
          attachedFirst.1.pool.build id = editedFirst.1.pool.build id := by
  intro pool editedFirst attachedFirst
  obtain ⟨tracks, _⟩ := runs.tracks tracks_empty
  obtain ⟨edited, results, editRuns, linkedRuns, attachLast, aboveLast⟩ :=
    allEdit.exists_runs attach tracks
  have editedTracks := (editRuns.tracks tracks).1
  have lastTakes := attachLast.takes editedTracks
  have editedFirstRuns :
      Runs heap (edits ++ [.addChild owner root]) (edited.link owner root) (results ++ [none]) :=
    editRuns.append (.cons lastTakes .nil)
  have attachedFirstRuns :
      Runs heap (.addChild owner root :: edits) (edited.link owner root) (none :: results) :=
    .cons (attach.takes tracks) linkedRuns
  obtain ⟨editedFirstTracks, editedFirstAnswers⟩ := editedFirstRuns.tracks tracks
  obtain ⟨attachedFirstTracks, attachedFirstAnswers⟩ := attachedFirstRuns.tracks tracks
  have editedFirstShown := editedFirstTracks.mirrors.isShownBy
  have attachedFirstShown := attachedFirstTracks.mirrors.isShownBy
  have aboveLinked : ∀ id,
      (edited.link owner root).IsWithin id owner ↔ heap.IsWithin id owner := by
    intro id
    rw [← aboveLast id, isWithin_link_iff attachLast.ownerLives attachLast.rootLives
      attachLast.alone, or_iff_left]
    exact fun joined => attachLast.apart joined.1
  refine
    ⟨edited.link owner root, results, fun _ _ => editedFirstRuns.runs_iff,
      fun _ _ => attachedFirstRuns.runs_iff, editedFirstAnswers, attachedFirstAnswers,
      editedFirstShown, attachedFirstShown, aboveLinked, ?_⟩
  intro id within
  have ownerLives : (edited.link owner root).Lives owner :=
    (lives_link_iff attachLast.rootLives).2 attachLast.ownerLives
  have lives := ((aboveLinked id).2 within).lives ownerLives
  have built := (editedFirstShown.build id _ lives).2 rfl
  exact ⟨built, ((attachedFirstShown.build id _ lives).1 built).symm⟩

/-- A builder with a parent, and three that have none. -/
def separateCalls : List BuilderCall :=
  [.create, .create, .create, .create, .create, .addChild 0 1]

/-- Work on the builder 2: another one comes below it, and one more below that. -/
def growingEdits : List BuilderCall :=
  [.setError 2 (some .unterminated), .addChild 2 3, .setError 3 (some .unmatchedEnd),
    .addChild 3 4, .addChild 4 3, .setError 4 (some .outOfOrder)]

theorem attaching_commutes_with_growingEdits :
    ∃ heap last,
      Runs .empty separateCalls heap [none, none, none, none, none, none] ∧
      heap.CanAttach 1 2 ∧
      EditsAll 1 2 heap growingEdits ∧
      Runs heap (growingEdits ++ [.addChild 1 2]) last
        [none, none, none, none, some .builderAlreadyAttached, none, none] ∧
      Runs heap (.addChild 1 2 :: growingEdits) last
        [none, none, none, none, none, some .builderAlreadyAttached, none] ∧
      last.Builds [0]
        (.single ⟨none, none, none⟩
          (.single ⟨none, none, none⟩
            (.single ⟨none, none, some .unterminated⟩
              (.single ⟨none, none, some .unmatchedEnd⟩
                (.single ⟨none, none, some .outOfOrder⟩ .nil))))) := by
  have permitted : HandledPool.empty.permitsAll separateCalls = true := by decide +kernel
  obtain ⟨heap, runs⟩ := tracks_empty.exists_runs permitted
  obtain ⟨tracks, _⟩ := runs.tracks tracks_empty
  have canBeTried : heap.Permits (.addChild 1 2) := by
    rw [← tracks.permits_iff]
    decide +kernel
  obtain ⟨linked, answer, takes⟩ := tracks.mirrors.exists_takes canBeTried
  have added : none = answer := by
    rw [← (takes.tracks tracks).2]
    decide +kernel
  subst added
  have attach := canAttach_of_takes takes
  have allEdit : EditsAll 1 2 heap growingEdits := by
    rw [← tracks.editsAll_iff attach]
    decide +kernel
  obtain ⟨last, results, editedFirst, attachedFirst, editedEq, attachedEq, _, _, _, builds⟩ :=
    attaching_commutes_with_editing runs attach allEdit
  have isAbove : heap.IsWithin 0 1 := by
    rw [← tracks.mirrors.isWithin_iff attach.ownerLives]
    decide +kernel
  refine ⟨heap, last, runs, attach, allEdit, ?_, ?_, ?_⟩
  · rw [editedFirst, ← editedEq]
    exact ⟨rfl, by decide +kernel⟩
  · rw [attachedFirst, ← attachedEq]
    exact ⟨rfl, by decide +kernel⟩
  · exact (builds 0 isAbove).1

end BuilderHeap

end MacroRegions
