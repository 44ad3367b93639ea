import MacroRegions.Document.Nesting
import MacroRegions.Proofs.Builder.Spine

/-!
Pairing markers with builders.

The blocks of a document can be put together in a pool: a builder for each block is
added to the innermost open one, and whoever closes a block lets go of its builder. No
builder is ever refused, and what is built is what pairing finds.
-/

namespace MacroRegions

/-- An entry of the list of what is open, with the builder of its block. -/
structure StagedEntry where
  family : MarkerFamily
  builder : Option Nat
  position : Position

/-- The builders of the blocks that are open, the innermost entry first, and of those
that are finished. The builder `root` holds all others. -/
structure Staging where
  pool : BuilderPool
  root : Nat
  entries : List StagedEntry
  problems : List ParseProblem

namespace Staging

def empty : Staging :=
  ⟨BuilderPool.empty.create.2, BuilderPool.empty.create.1, [], []⟩

variable (strict : Bool) (staging : Staging)

def innermost : Nat :=
  (staging.entries.findSome? (·.builder)).getD staging.root

/-- Reports a problem with a marker's location tag, when such problems are asked
for. The builder of its block gets it unless it has one. -/
def checkTag (id : Nat) (marker : Marker) : Staging :=
  if strict && marker.malformedTag then
    { staging with
      pool :=
        if ((staging.pool.block? id).bind (·.error)).isNone then
          staging.pool.setError id (some .malformedLocationTag)
        else
          staging.pool
      problems := staging.problems ++ [.ofMarker .malformedLocationTag marker] }
  else
    staging

def openBlock (start : Marker) : Except Failure Staging := do
  let parent := staging.innermost
  let created := staging.pool.create
  let checked := checkTag strict { staging with pool := created.2 } created.1 start
  let pool ← (checked.pool.setStart created.1 start).addChild parent created.1
  return { checked with
    pool := pool
    entries := ⟨start.family, some created.1, start.position⟩ :: checked.entries }

def formOf (pool : BuilderPool) (id : Nat) : MarkerForm :=
  ((pool.block? id).bind (·.start)).elim .blockComment (·.form)

def endEntry (error : BlockError) (entry : StagedEntry) : Staging :=
  match entry.builder with
  | none => staging
  | some id =>
    let pool := (staging.pool.setStop id none).setError id (some error)
    { staging with
      pool := pool.release id
      problems := staging.problems ++ [⟨error, formOf pool id, entry.position⟩] }

/-- Ends the blocks of entries, the outermost first. -/
def endAll (error : BlockError) : List StagedEntry → Staging
  | [] => staging
  | entry :: outer => (endAll error outer).endEntry error entry

/-- Closes the block of a builder, after those that were opened within it. -/
def closeBlock (inner : List StagedEntry) (id : Nat) (stop : Marker) : Staging :=
  let checked := checkTag strict (staging.endAll .outOfOrder inner) id stop
  { checked with pool := (checked.pool.setStop id (some stop)).release id }

def close (stop : Marker) : Staging :=
  let inner := staging.entries.takeWhile (·.family ≠ stop.family)
  match staging.entries.dropWhile (·.family ≠ stop.family) with
  | [] => { staging with problems := staging.problems ++ [.ofMarker .unmatchedEnd stop] }
  | entry :: outer =>
    match entry.builder with
    | none => { staging with entries := inner ++ outer }
    | some id =>
      closeBlock strict { staging with entries := inner.filter (·.builder.isNone) ++ outer } inner
        id stop

def step : PairingItem → Except Failure Staging
  | .plainRegion =>
    .ok { staging with entries := ⟨.region, none, default⟩ :: staging.entries }
  | .marker marker =>
    match marker.keyword with
    | .macroStart => staging.openBlock strict marker
    | .macroEnd => .ok (staging.close strict marker)

def finish : BlockForest × List ParseProblem :=
  let ended := { staging with entries := [] }.endAll .unterminated staging.entries
  match ended.pool.build ended.root with
  | .nil => (.nil, ended.problems)
  | .node _ children _ => (children, ended.problems)

end Staging

/-- A block that is open, with the finished builders below its own. -/
structure OpenBuilder where
  id : Nat
  start : Marker
  error : Option BlockError
  below : Forest Builder

namespace OpenBuilder

def builder (opened : OpenBuilder) : Builder :=
  ⟨opened.id, true, ⟨some opened.start, none, opened.error⟩⟩

/-- The builder of an open block before it gets its start. -/
def bare (opened : OpenBuilder) : Builder :=
  ⟨opened.id, true, ⟨none, none, opened.error⟩⟩

/-- The builder of a block that is about to end. -/
def ending (opened : OpenBuilder) (stop : Option Marker) (error : Option BlockError) : Builder :=
  ⟨opened.id, true, ⟨some opened.start, stop, error⟩⟩

def ended (opened : OpenBuilder) (stop : Option Marker) (error : Option BlockError) : Builder :=
  ⟨opened.id, false, ⟨some opened.start, stop, error⟩⟩

end OpenBuilder

def OpenBuilder.create (strict : Bool) (id : Nat) (start : Marker) : OpenBuilder :=
  ⟨id, start, Nesting.errorWith none (Nesting.tagProblem strict start), .nil⟩

/-- What is open: a plain region or a block. -/
inductive OpenStage where
  | plainRegion
  | block (opened : OpenBuilder)

namespace OpenStage

def entry : OpenStage → StagedEntry
  | plainRegion => ⟨.region, none, default⟩
  | block opened => ⟨opened.start.family, some opened.id, opened.start.position⟩

def nested : OpenStage → OpenEntry
  | plainRegion => .plainRegion
  | block opened => .block ⟨opened.start, opened.error, opened.below.map (·.block)⟩

def block? : OpenStage → Option OpenBuilder
  | plainRegion => none
  | block opened => some opened

def isOther (family : MarkerFamily) (stage : OpenStage) : Bool :=
  stage.nested.family ≠ family

@[simp]
theorem family_entry (stage : OpenStage) : stage.entry.family = stage.nested.family := by
  cases stage <;> rfl

@[simp]
theorem isNone_entry (stage : OpenStage) : stage.entry.builder.isNone = stage.block?.isNone := by
  cases stage <;> rfl

@[simp]
theorem isNone_nested (stage : OpenStage) : stage.nested.block?.isNone = stage.block?.isNone := by
  cases stage <;> rfl

end OpenStage

namespace Staging

open BuilderPool

/-- The builders of open blocks, one within the other. -/
def spineOf (stages : List OpenStage) : List (Builder × Forest Builder) :=
  (stages.filterMap OpenStage.block?).map fun opened => (opened.builder, opened.below)

def endedSpine (error : BlockError) (stages : List OpenStage) : List (Builder × Forest Builder) :=
  (stages.filterMap OpenStage.block?).map fun opened =>
    (opened.ended none (some error), opened.below)

/-- The builder that holds all others, with the finished ones below it. -/
def rootTree (root : Nat) (finished : Forest Builder) : Builder × Forest Builder :=
  (⟨root, true, ⟨none, none, none⟩⟩, finished)

def fullSpine (root : Nat) (stages : List OpenStage) (finished : Forest Builder) :
    List (Builder × Forest Builder) :=
  spineOf stages ++ [rootTree root finished]

def nestingOf (stages : List OpenStage) (finished : Forest Builder) : Nesting :=
  ⟨stages.map OpenStage.nested, finished.map (·.block)⟩

/-- The builders of a staging are those of what is open and of what is finished. -/
structure Holds (staging : Staging) (stages : List OpenStage) (finished : Forest Builder) :
    Prop where
  forestEq : staging.pool.forest = chain (fullSpine staging.root stages finished) .nil
  nodup : staging.pool.forest.ids.Nodup
  fresh : ∀ id ∈ staging.pool.forest.ids, id < staging.pool.nextId
  entriesEq : staging.entries = stages.map OpenStage.entry

variable {strict : Bool} {staging : Staging} {stages inner outer : List OpenStage}
  {finished done : Forest Builder} {opened : OpenBuilder} {error : BlockError}

@[simp]
theorem spineOf_append (inner outer : List OpenStage) :
    spineOf (inner ++ outer) = spineOf inner ++ spineOf outer := by
  simp [spineOf, List.filterMap_append]

@[simp]
theorem spineOf_block (opened : OpenBuilder) (outer : List OpenStage) :
    spineOf (.block opened :: outer) = (opened.builder, opened.below) :: spineOf outer := rfl

@[simp]
theorem spineOf_plainRegion (outer : List OpenStage) :
    spineOf (.plainRegion :: outer) = spineOf outer := rfl

private theorem spineOf_filter (inner : List OpenStage) :
    spineOf (inner.filter (·.block?.isNone)) = [] := by
  rw [spineOf, List.map_eq_nil_iff, List.filterMap_eq_nil_iff]
  intro stage member
  exact Option.isNone_iff_eq_none.1 (List.mem_filter.1 member).2

def revise (staging : Staging) (forest : Forest Builder) (problems : List ParseProblem) : Staging :=
  { staging with
    pool := { staging.pool with forest := forest }
    problems := staging.problems ++ problems }

private theorem revise_of_forest_eq
    {forest : Forest Builder}
    (forestEq : staging.pool.forest = forest) :
    staging.revise forest [] = staging := by
  rw [revise, ← forestEq, List.append_nil]

private theorem revise_revise
    (staging : Staging)
    (first second : Forest Builder)
    (problems problems' : List ParseProblem) :
    (staging.revise first problems).revise second problems' =
      staging.revise second (problems ++ problems') := by
  rw [revise, revise, List.append_assoc]
  rfl

/-! ## Checks of location tags -/

private theorem checkTag_eq
    {id : Nat}
    {place : Builder → Forest Builder}
    (strict : Bool)
    (staging : Staging)
    (builder : Builder)
    (isPlace : IsPlace id place)
    (same : builder.id = id)
    (forestEq : staging.pool.forest = place builder)
    (marker : Marker) :
    checkTag strict staging id marker =
      staging.revise
        (place { builder with
          block := { builder.block with
            error := Nesting.errorWith builder.block.error (Nesting.tagProblem strict marker) } })
        (Nesting.tagProblem strict marker) := by
  rw [checkTag, Nesting.tagProblem]
  split
  · rw [isPlace.block?_eq _ builder same forestEq, setError,
      isPlace.modifyBlock_eq _ builder same forestEq]
    cases errorEq : builder.block.error with
    | none => simp [errorEq, revise, Nesting.errorWith, ParseProblem.ofMarker]
    | some error =>
        have kept :
            Nesting.errorWith (some error) [.ofMarker .malformedLocationTag marker] =
              builder.block.error := by
          rw [errorEq, Nesting.errorWith]
          rfl
        rw [Option.bind_some, errorEq, kept, revise, ← forestEq]
        rfl
  · have kept : Nesting.errorWith builder.block.error [] = builder.block.error := by
      cases builder.block.error <;> rfl
    rw [kept]
    exact (revise_of_forest_eq forestEq).symm

private theorem innermost_eq
    (finished : Forest Builder)
    (entriesEq : staging.entries = stages.map OpenStage.entry) :
    ∃ builder below outer,
      fullSpine staging.root stages finished = (builder, below) :: outer ∧
        staging.innermost = builder.id := by
  rw [innermost, entriesEq, fullSpine]
  clear entriesEq
  induction stages with
  | nil => exact ⟨_, _, [], rfl, rfl⟩
  | cons stage outer inductionHypothesis =>
      cases stage with
      | plainRegion => exact inductionHypothesis
      | block opened => exact ⟨_, _, _, rfl, rfl⟩

private theorem Holds.nodup_spineIds (holds : staging.Holds stages finished) :
    (spineIds (fullSpine staging.root stages finished)).Nodup := by
  have nodup := holds.nodup
  rw [holds.forestEq, (ids_chain _ _).nodup_iff, Forest.ids_nil, List.append_nil] at nodup
  exact nodup

def poolBehind (pool : BuilderPool) (builder : Builder) : BuilderPool :=
  ⟨placeBehind pool.forest builder, pool.nextId + 1⟩

/-- A fresh builder gets the start of its block. -/
theorem setStart_checkTag
    (strict : Bool)
    (absent : staging.pool.nextId ∉ staging.pool.forest.ids)
    (start : Marker) :
    checkTag strict { staging with pool := staging.pool.create.2 } staging.pool.create.1 start =
        { staging with
          pool := poolBehind staging.pool (OpenBuilder.create strict staging.pool.nextId start).bare
          problems := staging.problems ++ Nesting.tagProblem strict start } ∧
      (poolBehind staging.pool (OpenBuilder.create strict staging.pool.nextId start).bare).setStart
          staging.pool.create.1 start =
        poolBehind staging.pool (OpenBuilder.create strict staging.pool.nextId start).builder := by
  have isPlace := isPlace_placeBehind absent
  exact
    ⟨checkTag_eq strict _ ⟨staging.pool.nextId, true, ⟨none, none, none⟩⟩ isPlace rfl rfl start,
      isPlace.modifyBlock_eq _ (OpenBuilder.create strict staging.pool.nextId start).bare rfl rfl
        _⟩

/-- A block can be opened. -/
theorem Holds.openBlock
    (strict : Bool)
    (holds : staging.Holds stages finished)
    (start : Marker) :
    ∃ next,
      staging.openBlock strict start = .ok next ∧
        next.Holds (.block (.create strict staging.pool.nextId start) :: stages) finished ∧
        next.root = staging.root ∧
        next.problems = staging.problems ++ Nesting.tagProblem strict start := by
  obtain ⟨builder, below, outer, spineEq, innermostEq⟩ :=
    innermost_eq finished holds.entriesEq
  have absent : staging.pool.nextId ∉ staging.pool.forest.ids := fun member =>
    Nat.lt_irrefl _ (holds.fresh _ member)
  obtain ⟨checkedEq, startedEq⟩ := setStart_checkTag strict absent start
  have addEq :=
    addChild_chain
      (poolBehind staging.pool (OpenBuilder.create strict staging.pool.nextId start).builder)
      (OpenBuilder.create strict staging.pool.nextId start).builder
      (spineEq ▸ holds.nodup_spineIds) (by rwa [← spineEq, ← holds.forestEq])
      (by rw [← spineEq, ← holds.forestEq]; rfl)
  rw [← innermostEq, ← spineEq] at addEq
  have idsPerm :
      (chain
        (fullSpine staging.root (.block (.create strict staging.pool.nextId start) :: stages)
          finished)
        .nil).ids.Perm (staging.pool.nextId :: staging.pool.forest.ids) := by
    rw [holds.forestEq]
    exact (ids_chain _ _).trans ((ids_chain _ _).symm.cons staging.pool.nextId)
  have openEq :
      staging.openBlock strict start =
        .ok {
          pool := {
            forest :=
              chain
                (fullSpine staging.root
                  (.block (.create strict staging.pool.nextId start) :: stages) finished)
                .nil
            nextId := staging.pool.nextId + 1 }
          root := staging.root
          entries :=
            (OpenStage.block (.create strict staging.pool.nextId start)).entry :: staging.entries
          problems := staging.problems ++ Nesting.tagProblem strict start } := by
    simp only [Staging.openBlock, checkedEq, startedEq]
    exact congrArg (· >>= _) addEq
  refine ⟨_, openEq, ⟨rfl, ?_, ?_, ?_⟩, rfl, rfl⟩
  · exact idsPerm.nodup_iff.2 (List.nodup_cons.2 ⟨absent, holds.nodup⟩)
  · intro id member
    rcases List.mem_cons.1 (idsPerm.subset member) with rfl | old
    · exact Nat.lt_succ_self _
    · exact Nat.lt_succ_of_lt (holds.fresh id old)
  · rw [holds.entriesEq]
    rfl

@[simp]
theorem spineIds_endedSpine (error : BlockError) (stages : List OpenStage) :
    spineIds (endedSpine error stages) = spineIds (spineOf stages) := by
  simp only [spineIds, endedSpine, spineOf, List.flatMap_map]
  rfl

variable {front around : List (Builder × Forest Builder)} {root : Nat}

/-- A block is ended in its place, and its builder let go of. -/
theorem endEntry_block
    (nodup :
      (spineIds (front ++ (opened.builder, opened.below) ::
        (around ++ [rootTree root finished]))).Nodup)
    (forestEq :
      staging.pool.forest =
        placeIn front opened.below (around ++ [rootTree root finished]) opened.builder) :
    staging.endEntry error (OpenStage.block opened).entry =
      staging.revise
        (placeIn front opened.below (around ++ [rootTree root finished])
          (opened.ended none (some error)))
        [.ofMarker error opened.start] := by
  have isPlace :
      IsPlace opened.id (placeIn front opened.below (around ++ [rootTree root finished])) :=
    isPlace_placeIn nodup
  have failedEq :
      (staging.pool.setStop opened.id none).setError opened.id (some error) =
        { staging.pool with
          forest :=
            placeIn front opened.below (around ++ [rootTree root finished])
              (opened.ending none (some error)) } := by
    rw [setStop, isPlace.modifyBlock_eq _ opened.builder rfl forestEq, setError]
    exact isPlace.modifyBlock_eq _ opened.builder rfl rfl _
  have releasedEq :=
    release_placeIn isPlace ((staging.pool.setStop opened.id none).setError opened.id (some error))
      (opened.ending none (some error)) rfl rfl
      (congrArg BuilderPool.forest failedEq)
  have formEq :
      formOf ((staging.pool.setStop opened.id none).setError opened.id (some error)) opened.id =
        opened.start.form := by
    rw [formOf, isPlace.block?_eq _ (opened.ending none (some error)) rfl
      (congrArg BuilderPool.forest failedEq)]
    rfl
  simp only [endEntry, OpenStage.entry, formEq, releasedEq]
  rw [failedEq]
  rfl

/-- Blocks are ended in their places. -/
theorem endAll_eq
    (front around : List (Builder × Forest Builder))
    (stages : List OpenStage)
    (nodup :
      (spineIds (front ++ (spineOf stages ++ (around ++ [rootTree root finished])))).Nodup)
    (forestEq :
      staging.pool.forest =
        chain (front ++ (spineOf stages ++ (around ++ [rootTree root finished]))) .nil) :
    staging.endAll error (stages.map OpenStage.entry) =
      staging.revise
        (chain (front ++ (endedSpine error stages ++ (around ++ [rootTree root finished]))) .nil)
        (Nesting.report error (stages.map OpenStage.nested)) := by
  induction stages generalizing front with
  | nil => exact (revise_of_forest_eq forestEq).symm
  | cons stage outer inductionHypothesis =>
      cases stage with
      | plainRegion => exact inductionHypothesis front nodup forestEq
      | block opened =>
          have outerEq :=
            inductionHypothesis (front ++ [(opened.builder, opened.below)])
              (by simpa using nodup) (by simpa using forestEq)
          have endedNodup :
              (spineIds (front ++ (opened.builder, opened.below) ::
                (endedSpine error outer ++ around ++ [rootTree root finished]))).Nodup := by
            simpa [spineIds_append] using nodup
          rw [List.map_cons, endAll, outerEq, endEntry_block endedNodup (by simp [revise, placeIn]),
            revise_revise]
          refine congrArg₂ staging.revise ?_ ?_
          · rw [placeIn, List.append_assoc]
            rfl
          · simp [Nesting.report, OpenStage.nested, OpenEntry.block?]

/-- Puts finished builders behind the others of the innermost open block. -/
def attachTo (done : Forest Builder) : List OpenStage → Forest Builder →
    List OpenStage × Forest Builder
  | [], finished => ([], finished ++ done)
  | .plainRegion :: outer, finished =>
    (.plainRegion :: (attachTo done outer finished).1, (attachTo done outer finished).2)
  | .block opened :: outer, finished =>
    (.block { opened with below := opened.below ++ done } :: outer, finished)

private theorem chain_attachTo
    (root : Nat)
    (outer : List OpenStage)
    (finished done : Forest Builder) :
    chain (fullSpine root (attachTo done outer finished).1 (attachTo done outer finished).2) .nil =
      chain (fullSpine root outer finished) done := by
  induction outer with
  | nil => simp [attachTo, fullSpine, spineOf, rootTree, chain]
  | cons stage outer inductionHypothesis =>
      cases stage with
      | plainRegion => exact inductionHypothesis
      | block opened =>
          simp [attachTo, fullSpine, chain, OpenBuilder.builder]

private theorem map_entry_attachTo (outer : List OpenStage) (finished done : Forest Builder) :
    (attachTo done outer finished).1.map OpenStage.entry = outer.map OpenStage.entry := by
  induction outer with
  | nil => rfl
  | cons stage outer inductionHypothesis =>
      cases stage with
      | plainRegion => exact congrArg (_ :: ·) inductionHypothesis
      | block opened => rfl

private theorem nestingOf_attachTo (outer : List OpenStage) (finished done : Forest Builder) :
    nestingOf (attachTo done outer finished).1 (attachTo done outer finished).2 =
      Nesting.attach (done.map (·.block)) (outer.map OpenStage.nested)
        (finished.map (·.block)) := by
  induction outer with
  | nil => simp [attachTo, nestingOf, Nesting.attach, Forest.map_append]
  | cons stage outer inductionHypothesis =>
      cases stage with
      | plainRegion =>
          rw [List.map_cons, OpenStage.nested, Nesting.attach, ← inductionHypothesis]
          rfl
      | block opened =>
          simp [attachTo, nestingOf, Nesting.attach, OpenStage.nested, Forest.map_append]

/-- Builders that were ended without an end marker come to blocks that were. -/
theorem map_chain_endedSpine
    (error : BlockError)
    (stages : List OpenStage)
    (done : Forest Builder) :
    (chain (endedSpine error stages) done).map (·.block) =
      Nesting.collapse error (done.map (·.block)) (stages.map OpenStage.nested) := by
  induction stages generalizing done with
  | nil => rfl
  | cons stage outer inductionHypothesis =>
      cases stage with
      | plainRegion => exact inductionHypothesis done
      | block opened =>
          refine (inductionHypothesis _).trans ?_
          simp [Nesting.collapse, OpenStage.nested, OpenBlock.finish, Forest.single, Forest.map,
            Forest.map_append, OpenBuilder.ended]

/-! ## Closing -/

/-- A block is closed in its place, and its builder let go of. -/
theorem closeBlock_eq
    (strict : Bool)
    (staging : Staging)
    (nodup :
      (spineIds (spineOf inner ++ (opened.builder, opened.below) ::
        (around ++ [rootTree root finished]))).Nodup)
    (forestEq :
      staging.pool.forest =
        placeIn (spineOf inner) opened.below (around ++ [rootTree root finished]) opened.builder)
    (stop : Marker) :
    staging.closeBlock strict (inner.map OpenStage.entry) opened.id stop =
      staging.revise
        (placeIn (endedSpine .outOfOrder inner) opened.below (around ++ [rootTree root finished])
          (opened.ended (some stop)
            (Nesting.errorWith opened.error (Nesting.tagProblem strict stop))))
        (Nesting.report .outOfOrder (inner.map OpenStage.nested) ++
          Nesting.tagProblem strict stop) := by
  have endedNodup :
      (spineIds (endedSpine .outOfOrder inner ++ (opened.builder, opened.below) ::
        (around ++ [rootTree root finished]))).Nodup := by
    rwa [spineIds_append, spineIds_endedSpine, ← spineIds_append]
  have isPlace :
      IsPlace opened.id
        (placeIn (endedSpine .outOfOrder inner) opened.below
          (around ++ [rootTree root finished])) :=
    isPlace_placeIn endedNodup
  have endedEq :
      staging.endAll .outOfOrder (inner.map OpenStage.entry) =
        staging.revise
          (placeIn (endedSpine .outOfOrder inner) opened.below (around ++ [rootTree root finished])
            opened.builder)
          (Nesting.report .outOfOrder (inner.map OpenStage.nested)) :=
    endAll_eq [] ((opened.builder, opened.below) :: around) inner nodup forestEq
  have checkedEq :
      checkTag strict (staging.endAll .outOfOrder (inner.map OpenStage.entry)) opened.id stop =
        staging.revise
          (placeIn (endedSpine .outOfOrder inner) opened.below (around ++ [rootTree root finished])
            (opened.ending none
              (Nesting.errorWith opened.error (Nesting.tagProblem strict stop))))
          (Nesting.report .outOfOrder (inner.map OpenStage.nested) ++
            Nesting.tagProblem strict stop) := by
    rw [endedEq, checkTag_eq strict _ opened.builder isPlace rfl rfl, revise_revise]
    rfl
  have stoppedEq :=
    isPlace.modifyBlock_eq
      (checkTag strict (staging.endAll .outOfOrder (inner.map OpenStage.entry)) opened.id stop).pool
      (opened.ending none (Nesting.errorWith opened.error (Nesting.tagProblem strict stop))) rfl
      (by rw [checkedEq, revise]) fun block => { block with stop := some stop }
  have releasedEq :=
    release_placeIn isPlace _
      (opened.ending (some stop) (Nesting.errorWith opened.error (Nesting.tagProblem strict stop)))
      rfl rfl (congrArg BuilderPool.forest stoppedEq)
  rw [closeBlock, setStop, releasedEq, stoppedEq, checkedEq]
  rfl

/-- The builder of a closed block, with the builders of those within it. -/
def closedTree (strict : Bool) (stop : Marker) (inner : List OpenStage) (opened : OpenBuilder) :
    Forest Builder :=
  .single
    (opened.ended (some stop) (Nesting.errorWith opened.error (Nesting.tagProblem strict stop)))
    (opened.below ++ chain (endedSpine .outOfOrder inner) .nil)

private theorem placeIn_closed (strict : Bool) (stop : Marker) (inner outer : List OpenStage) :
    placeIn (endedSpine .outOfOrder inner) opened.below (spineOf outer ++ [rootTree root finished])
        (opened.ended (some stop)
          (Nesting.errorWith opened.error (Nesting.tagProblem strict stop))) =
      chain
        (fullSpine root
          (inner.filter (·.block?.isNone) ++
            (attachTo (closedTree strict stop inner opened) outer finished).1)
          (attachTo (closedTree strict stop inner opened) outer finished).2)
        .nil := by
  have plainEq : ∀ stages finished,
      fullSpine root (inner.filter (·.block?.isNone) ++ stages) finished =
        fullSpine root stages finished := by
    intro stages finished
    rw [fullSpine, spineOf_append, spineOf_filter, List.nil_append, ← fullSpine]
  rw [plainEq, chain_attachTo, placeIn, chain_append]
  rfl

def Follows (staging next : Staging) (result : Nesting × List ParseProblem) : Prop :=
  ∃ stages finished,
    next.Holds stages finished ∧
      nestingOf stages finished = result.1 ∧
      next.root = staging.root ∧
      next.problems = staging.problems ++ result.2

/-- A block that is closed is finished with the blocks within it. -/
theorem Holds.closeBlock
    (strict : Bool)
    (holds : staging.Holds (inner ++ .block opened :: outer) finished)
    (stop : Marker) :
    staging.Follows
      (Staging.closeBlock strict
        { staging with
          entries := (inner.filter (·.block?.isNone) ++ outer).map OpenStage.entry }
        (inner.map OpenStage.entry) opened.id stop)
      (nestingOf
          (inner.filter (·.block?.isNone) ++
            (attachTo (closedTree strict stop inner opened) outer finished).1)
          (attachTo (closedTree strict stop inner opened) outer finished).2,
        Nesting.report .outOfOrder (inner.map OpenStage.nested) ++
          Nesting.tagProblem strict stop) := by
  have forestEq := holds.forestEq
  have nodup := holds.nodup_spineIds
  rw [fullSpine, spineOf_append, spineOf_block, List.append_assoc, List.cons_append]
    at forestEq nodup
  have idsPerm :
      (placeIn (endedSpine .outOfOrder inner) opened.below
          (spineOf outer ++ [rootTree staging.root finished])
          (opened.ended (some stop)
            (Nesting.errorWith opened.error (Nesting.tagProblem strict stop)))).ids.Perm
        staging.pool.forest.ids := by
    rw [forestEq]
    refine (ids_chain _ _).trans (List.Perm.trans ?_ (ids_chain _ _).symm)
    rw [spineIds_append, spineIds_endedSpine, spineIds_append]
    exact List.Perm.refl _
  have closedEq :=
    closeBlock_eq strict
      { staging with entries := (inner.filter (·.block?.isNone) ++ outer).map OpenStage.entry }
      nodup forestEq stop
  rw [placeIn_closed strict] at idsPerm closedEq
  rw [closedEq]
  refine ⟨_, _, ⟨rfl, ?_, ?_, ?_⟩, rfl, rfl, rfl⟩
  · exact idsPerm.nodup_iff.2 holds.nodup
  · exact fun id member => holds.fresh id (idsPerm.subset member)
  · simp only [revise, List.map_append, map_entry_attachTo]

private theorem nestingOf_closed
    (stop : Marker)
    (inner outer : List OpenStage)
    (finished : Forest Builder) :
    let done :=
      OpenBlock.finish ⟨opened.start, opened.error, opened.below.map (·.block)⟩ (some stop)
        (Nesting.errorWith opened.error (Nesting.tagProblem strict stop))
        (Nesting.collapse .outOfOrder .nil (inner.map OpenStage.nested))
    let attached :=
      Nesting.attach done (outer.map OpenStage.nested) (finished.map (·.block))
    nestingOf
        (inner.filter (·.block?.isNone) ++
          (attachTo (closedTree strict stop inner opened) outer finished).1)
        (attachTo (closedTree strict stop inner opened) outer finished).2 =
      ⟨(inner.map OpenStage.nested).filter (·.block?.isNone) ++ attached.entries,
        attached.finished⟩ := by
  intro done attached
  have doneEq : (closedTree strict stop inner opened).map (·.block) = done := by
    simp only [closedTree, Forest.single, Forest.map, Forest.map_append, map_chain_endedSpine]
    rfl
  have attachedEq := nestingOf_attachTo outer finished (closedTree strict stop inner opened)
  rw [doneEq] at attachedEq
  have entriesEq := congrArg Nesting.entries attachedEq
  have finishedEq := congrArg Nesting.finished attachedEq
  have plainEq :
      (inner.filter (·.block?.isNone)).map OpenStage.nested =
        (inner.map OpenStage.nested).filter (·.block?.isNone) := by
    simp only [List.filter_map, Function.comp_def, OpenStage.isNone_nested]
  rw [nestingOf, List.map_append, plainEq]
  exact congrArg₂ (fun entries finished => Nesting.mk (_ ++ entries) finished) entriesEq finishedEq

/-- Closing does with builders what it does without. -/
theorem Holds.close
    (holds : staging.Holds stages finished)
    (stop : Marker) :
    staging.Follows (staging.close strict stop)
      ((nestingOf stages finished).close strict stop) := by
  have takeEq :
      (stages.map OpenStage.entry).takeWhile (·.family ≠ stop.family) =
          (stages.takeWhile (·.isOther stop.family)).map OpenStage.entry ∧
        (stages.map OpenStage.nested).takeWhile (·.family ≠ stop.family) =
          (stages.takeWhile (·.isOther stop.family)).map OpenStage.nested := by
    simp only [List.takeWhile_map, Function.comp_def, OpenStage.family_entry]
    exact ⟨rfl, rfl⟩
  have dropEq :
      (stages.map OpenStage.entry).dropWhile (·.family ≠ stop.family) =
          (stages.dropWhile (·.isOther stop.family)).map OpenStage.entry ∧
        (stages.map OpenStage.nested).dropWhile (·.family ≠ stop.family) =
          (stages.dropWhile (·.isOther stop.family)).map OpenStage.nested := by
    simp only [List.dropWhile_map, Function.comp_def, OpenStage.family_entry]
    exact ⟨rfl, rfl⟩
  have split :
      stages.takeWhile (·.isOther stop.family) ++ stages.dropWhile (·.isOther stop.family) =
        stages :=
    List.takeWhile_append_dropWhile
  rw [Staging.close, Nesting.close, holds.entriesEq]
  simp only [nestingOf, takeEq, dropEq]
  generalize stages.takeWhile (·.isOther stop.family) = inner,
    stages.dropWhile (·.isOther stop.family) = rest at split ⊢
  match rest with
  | [] => exact ⟨stages, finished, ⟨holds.forestEq, holds.nodup, holds.fresh, rfl⟩, rfl, rfl, rfl⟩
  | .plainRegion :: outer =>
      subst split
      have spineEq :
          fullSpine staging.root (inner ++ .plainRegion :: outer) finished =
            fullSpine staging.root (inner ++ outer) finished := by
        simp [fullSpine]
      refine ⟨inner ++ outer, finished, ⟨spineEq ▸ holds.forestEq, holds.nodup, holds.fresh, ?_⟩,
        ?_, rfl, ?_⟩
      · exact List.map_append.symm
      · simp [nestingOf, OpenStage.nested]
      · exact (List.append_nil _).symm
  | .block opened :: outer =>
      subst split
      have entriesEq :
          (inner.map OpenStage.entry).filter (·.builder.isNone) ++ outer.map OpenStage.entry =
            (inner.filter (·.block?.isNone) ++ outer).map OpenStage.entry := by
        simp only [List.map_append, List.filter_map, Function.comp_def, OpenStage.isNone_entry]
      have follows := holds.closeBlock strict stop
      rw [nestingOf_closed, ← entriesEq] at follows
      exact follows

/-- Every item is taken, with builders as without. -/
theorem Holds.step
    (strict : Bool)
    (holds : staging.Holds stages finished)
    (item : PairingItem) :
    ∃ next,
      staging.step strict item = .ok next ∧
        staging.Follows next ((nestingOf stages finished).step strict item) := by
  cases item with
  | plainRegion =>
      refine ⟨_, rfl, .plainRegion :: stages, finished,
        ⟨holds.forestEq, holds.nodup, holds.fresh, ?_⟩, rfl, rfl, (List.append_nil _).symm⟩
      rw [holds.entriesEq]
      rfl
  | marker marker =>
      rw [Staging.step, Nesting.step]
      cases marker.keyword with
      | macroStart =>
          obtain ⟨next, openEq, nextHolds, rootEq, problemsEq⟩ :=
            holds.openBlock strict marker
          exact ⟨next, openEq, _, _, nextHolds, rfl, rootEq, problemsEq⟩
      | macroEnd => exact ⟨_, rfl, holds.close marker⟩

/-- All items are taken. -/
theorem Holds.run
    (strict : Bool)
    (holds : staging.Holds stages finished)
    (items : List PairingItem) :
    ∃ last,
      items.foldlM (Staging.step strict) staging = .ok last ∧
        staging.Follows last
          (((nestingOf stages finished).run strict items).1,
            ((nestingOf stages finished).run strict items).2.flatMap (·.2)) := by
  induction items generalizing staging stages finished with
  | nil => exact ⟨staging, rfl, stages, finished, holds, rfl, rfl, (List.append_nil _).symm⟩
  | cons item rest inductionHypothesis =>
      obtain ⟨next, stepEq, stages', finished', nextHolds, nestingEq, rootEq, problemsEq⟩ :=
        holds.step strict item
      obtain ⟨last, runEq, stages'', finished'', lastHolds, nestingEq', rootEq', problemsEq'⟩ :=
        inductionHypothesis nextHolds
      rw [nestingEq] at nestingEq' problemsEq'
      refine ⟨last, ?_, stages'', finished'', lastHolds, nestingEq', rootEq'.trans rootEq, ?_⟩
      · rw [List.foldlM_cons, stepEq]
        exact runEq
      · rw [problemsEq', problemsEq, List.append_assoc]
        rfl

private theorem holds_empty : empty.Holds [] .nil where
  forestEq := rfl
  nodup := List.nodup_singleton 0
  fresh := by
    intro id member
    obtain rfl : id = 0 := List.mem_singleton.1 member
    exact Nat.zero_lt_one
  entriesEq := rfl

/-- What is open at the end is ended, and what was built is what pairing finds. -/
theorem Holds.finish (holds : staging.Holds stages finished) :
    staging.finish =
      ((nestingOf stages finished).finish.1,
        staging.problems ++ (nestingOf stages finished).finish.2) := by
  have endedEq :
      Staging.endAll { staging with entries := [] } .unterminated
          (stages.map OpenStage.entry) =
        Staging.revise { staging with entries := [] }
          (chain (endedSpine .unterminated stages ++ [rootTree staging.root finished]) .nil)
          (Nesting.report .unterminated (stages.map OpenStage.nested)) :=
    endAll_eq [] [] stages holds.nodup_spineIds holds.forestEq
  have forestEq :
      chain (endedSpine .unterminated stages ++ [rootTree staging.root finished]) .nil =
        .single ⟨staging.root, true, ⟨none, none, none⟩⟩
          (finished ++ chain (endedSpine .unterminated stages) .nil) := by
    rw [chain_append]
    rfl
  have builtEq :
      (finished ++ chain (endedSpine .unterminated stages) .nil).map (·.block) =
        (nestingOf stages finished).finish.1 := by
    rw [Forest.map_append, map_chain_endedSpine]
    rfl
  have foundEq :
      Forest.find? (hasId staging.root)
          (chain (endedSpine .unterminated stages ++ [rootTree staging.root finished]) .nil) =
        some
          (⟨staging.root, true, ⟨none, none, none⟩⟩,
            finished ++ chain (endedSpine .unterminated stages) .nil) := by
    rw [forestEq]
    exact if_pos (by simp [hasId])
  rw [Staging.finish, holds.entriesEq]
  simp only [endedEq, revise, BuilderPool.build, BuilderPool.find?, foundEq]
  rw [builtEq]
  rfl

/-- What builders come to is what pairing finds, and no builder is refused. -/
theorem build_eq (strict : Bool) (items : List PairingItem) :
    (items.foldlM (Staging.step strict) empty).map Staging.finish =
      .ok
        ((Nesting.empty.run strict items).1.finish.1,
          (Nesting.empty.run strict items).2.flatMap (·.2) ++
            (Nesting.empty.run strict items).1.finish.2) := by
  obtain ⟨last, runEq, stages, finished, holds, nestingEq, _, problemsEq⟩ :=
    holds_empty.run strict items
  have emptyEq : nestingOf [] .nil = Nesting.empty := rfl
  rw [emptyEq] at nestingEq problemsEq
  rw [runEq, Except.map, holds.finish, nestingEq, problemsEq]
  rfl

end Staging

end MacroRegions
