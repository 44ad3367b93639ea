import MacroRegions.Proofs.Nesting.Steps

/-!
What becomes of every marker.

Listed in pre-order with what is still open, the blocks of a nesting have the start
markers that have been taken, in their order, and an end marker is filled in where it
closes a block. An end marker that closes nothing is reported, and no marker is used
twice.
-/

namespace MacroRegions

def Block.ends (block : Block) : Option Marker × Option Marker :=
  (block.start, block.stop)

/-- The markers of all blocks of a forest, parents before their children. -/
def BlockForest.ends (forest : BlockForest) : List (Option Marker × Option Marker) :=
  forest.toList.map Block.ends

@[simp]
theorem BlockForest.ends_nil : BlockForest.ends .nil = [] := rfl

@[simp]
theorem BlockForest.ends_append (left right : BlockForest) :
    BlockForest.ends (left ++ right) = BlockForest.ends left ++ BlockForest.ends right := by
  simp [BlockForest.ends]

@[simp]
theorem OpenBlock.ends_finish
    (block : OpenBlock)
    (stop : Option Marker)
    (error : Option BlockError)
    (more : BlockForest) :
    BlockForest.ends (block.finish stop error more) =
      (some block.start, stop) ::
        (BlockForest.ends block.children ++ BlockForest.ends more) := by
  simp [BlockForest.ends, OpenBlock.finish, Forest.single, Forest.toList, Block.ends]

/-- The markers of an open block and of those finished within it. -/
def OpenEntry.ends : OpenEntry → List (Option Marker × Option Marker)
  | plainRegion => []
  | block opened => (some opened.start, none) :: BlockForest.ends opened.children

namespace Nesting

def ends (nesting : Nesting) : List (Option Marker × Option Marker) :=
  BlockForest.ends nesting.finished ++ nesting.entries.reverse.flatMap OpenEntry.ends

private theorem ends_attach
    (done : BlockForest)
    (entries : List OpenEntry)
    (finished : BlockForest) :
    (attach done entries finished).ends =
      BlockForest.ends finished ++ entries.reverse.flatMap OpenEntry.ends ++
        BlockForest.ends done := by
  induction entries with
  | nil => simp [attach, ends]
  | cons entry rest inductionHypothesis =>
      cases entry with
      | plainRegion =>
          simp only [ends] at inductionHypothesis
          simp [attach, ends, OpenEntry.ends, inductionHypothesis]
      | block opened => simp [attach, ends, OpenEntry.ends]

/-- Blocks that are ended without an end marker keep their places. -/
theorem ends_collapse
    (error : BlockError)
    (innermost : BlockForest)
    (entries : List OpenEntry) :
    BlockForest.ends (collapse error innermost entries) =
      entries.reverse.flatMap OpenEntry.ends ++ BlockForest.ends innermost := by
  induction entries generalizing innermost with
  | nil => simp [collapse]
  | cons entry rest inductionHypothesis =>
      cases entry with
      | plainRegion => simp [collapse, inductionHypothesis, OpenEntry.ends]
      | block opened => simp [collapse, inductionHypothesis, OpenEntry.ends]

private theorem flatMap_ends_plainRegions (entries : List OpenEntry) :
    (entries.filter (·.block?.isNone)).reverse.flatMap OpenEntry.ends = [] := by
  rw [← List.filter_reverse]
  exact flatMap_plainRegions rfl entries.reverse

@[simp]
theorem ends_finish (nesting : Nesting) :
    BlockForest.ends nesting.finish.1 = nesting.ends := by
  simp [finish, ends, ends_collapse]

@[simp]
theorem ends_openBlock (strict : Bool) (nesting : Nesting) (start : Marker) :
    (nesting.openBlock strict start).1.ends = nesting.ends ++ [(some start, none)] := by
  simp [openBlock, ends, OpenEntry.ends]

/-- What an end marker does to the openers and to the listing: it is reported,
it closes a plain region, or it closes a block. Of the other family nothing is
opened, but blocks may be dropped. -/
inductive Closes (nesting next : Nesting) (stop : Marker) : List ParseProblem → Prop where
  | nothing :
    nesting.openersOf stop.family = [] →
      next = nesting →
        Closes nesting next stop [.ofMarker .unmatchedEnd stop]
  | plainRegion :
    nesting.openersOf stop.family = none :: next.openersOf stop.family →
      (∀ other, other ≠ stop.family →
        (next.openersOf other).Sublist (nesting.openersOf other)) →
      next.ends = nesting.ends →
        Closes nesting next stop []
  | block (start : Marker) (front back : List (Option Marker × Option Marker))
      (problems : List ParseProblem) :
    nesting.openersOf stop.family = some start :: next.openersOf stop.family →
      (∀ other, other ≠ stop.family →
        (next.openersOf other).Sublist (nesting.openersOf other)) →
      nesting.ends = front ++ (some start, none) :: back →
      next.ends = front ++ (some start, some stop) :: back →
      (∀ problem ∈ problems, problem.kind ≠ .unmatchedEnd) →
        Closes nesting next stop problems

theorem openersOf_eq_nil
    {nesting : Nesting}
    {family : MarkerFamily}
    (apart : ∀ entry ∈ nesting.entries, entry.family ≠ family) :
    nesting.openersOf family = [] := by
  rw [openersOf, List.filter_eq_nil_iff]
  intro opener member
  obtain ⟨entry, entryMember, rfl⟩ := List.mem_map.1 member
  simpa using apart entry entryMember

theorem openersOf_eq
    {nesting : Nesting}
    {family : MarkerFamily}
    {inner outer : List OpenEntry}
    {entry : OpenEntry}
    (split : nesting.entries = inner ++ entry :: outer)
    (innerApart : ∀ entry ∈ inner, entry.family ≠ family)
    (entryEq : entry.family = family) :
    nesting.openersOf family =
      entry.opener :: (outer.map OpenEntry.opener).filter (openerFamily · = family) := by
  have innerNone :
      (inner.map OpenEntry.opener).filter (openerFamily · = family) = [] := by
    rw [List.filter_eq_nil_iff]
    intro opener member
    obtain ⟨other, otherMember, rfl⟩ := List.mem_map.1 member
    simpa using innerApart other otherMember
  rw [openersOf, openers, split, List.map_append, List.filter_append, innerNone]
  simp [entryEq]

theorem kind_tagProblem
    {strict : Bool}
    {marker : Marker}
    {problem : ParseProblem}
    (member : problem ∈ tagProblem strict marker) :
    problem.kind = .malformedLocationTag := by
  unfold tagProblem at member
  split at member
  · obtain rfl := List.mem_singleton.1 member
    rfl
  · simp at member

theorem kind_report
    {kind : BlockError}
    {entries : List OpenEntry}
    {problem : ParseProblem}
    (member : problem ∈ report kind entries) :
    problem.kind = kind := by
  obtain ⟨block, _, rfl⟩ := List.mem_map.1 member
  rfl

theorem filter_report (kind error : BlockError) (entries : List OpenEntry) :
    (report error entries).filter (·.kind = kind) =
      if error = kind then report kind entries else [] := by
  by_cases isKind : error = kind
  · subst isKind
    rw [if_pos rfl, List.filter_eq_self]
    intro problem member
    exact decide_eq_true (kind_report member)
  · rw [if_neg isKind, List.filter_eq_nil_iff]
    intro problem member
    simp [kind_report member, isKind]

theorem closes_close (strict : Bool) (nesting : Nesting) (stop : Marker) :
    Closes nesting (nesting.close strict stop).1 stop (nesting.close strict stop).2 := by
  rcases close_cases strict nesting stop with
    ⟨apart, closed⟩ | ⟨inner, outer, split, isRegion, apart, closed⟩ |
      ⟨inner, block, outer, split, sameFamily, apart, closed⟩
  · rw [closed]
    exact .nothing (openersOf_eq_nil apart) rfl
  · rw [closed]
    have own := openersOf_eq split apart isRegion.symm
    refine .plainRegion ?_ ?_ ?_
    · rw [own]
      have innerNone :
          (inner.map OpenEntry.opener).filter (openerFamily · = stop.family) = [] := by
        simpa [List.filter_eq_nil_iff] using apart
      simp [openersOf, openers, OpenEntry.opener, innerNone]
    · intro other _
      simp only [openersOf, openers, split]
      refine List.Sublist.filter _ (List.Sublist.map _ ?_)
      exact List.Sublist.append (List.Sublist.refl _) (List.sublist_cons_self _ _)
    · simp [ends, split, OpenEntry.ends]
  · rw [closed]
    have own := openersOf_eq split apart sameFamily
    have attached := openers_attach (Nesting.closed strict stop inner block) outer nesting.finished
    have innerNone :
        ((inner.filter (·.block?.isNone)).map OpenEntry.opener).filter
          (openerFamily · = stop.family) = [] := by
      simp only [List.filter_eq_nil_iff, List.mem_map, List.mem_filter]
      rintro _ ⟨entry, ⟨entryMember, _⟩, rfl⟩
      simpa using apart entry entryMember
    refine
      .block block.start
        (BlockForest.ends nesting.finished ++ outer.reverse.flatMap OpenEntry.ends)
        (BlockForest.ends block.children ++ inner.reverse.flatMap OpenEntry.ends) _ ?_ ?_ ?_ ?_ ?_
    · rw [own]
      simp only [openersOf, openers, List.map_append, List.filter_append, innerNone,
        List.nil_append]
      rw [openers] at attached
      rw [attached]
      rfl
    · intro other _
      simp only [openersOf, openers, split, List.map_append] at attached ⊢
      rw [attached]
      refine List.Sublist.filter _ (List.Sublist.append ?_ ?_)
      · exact List.Sublist.map _ List.filter_sublist
      · exact List.sublist_cons_self _ _
    · simp [ends, split, OpenEntry.ends]
    · have listing := ends_attach (Nesting.closed strict stop inner block) outer nesting.finished
      rw [ends] at listing
      rw [ends, List.reverse_append, List.flatMap_append, flatMap_ends_plainRegions,
        List.append_nil, listing]
      simp [Nesting.closed, ends_collapse]
    · intro problem member
      rcases List.mem_append.1 member with reported | tagged
      · simp [kind_report reported]
      · simp [kind_tagProblem tagged]

/-! ## Runs -/

/-- An end marker is taken when `opener` is the innermost opener of its family. -/
def Meets
    (strict : Bool)
    (items : List PairingItem)
    (stop : Marker)
    (openers : List (Option Marker)) :
    Prop :=
  ∃ front back,
    items = front ++ .marker stop :: back ∧
      stop.keyword = .macroEnd ∧
      (after strict front).openersOf stop.family = openers

theorem Meets.concat
    {strict : Bool}
    {items : List PairingItem}
    {stop : Marker}
    {openers : List (Option Marker)}
    (meets : Meets strict items stop openers)
    (item : PairingItem) :
    Meets strict (items ++ [item]) stop openers := by
  obtain ⟨front, back, rfl, isEnd, openersEq⟩ := meets
  exact ⟨front, back ++ [item], by simp, isEnd, openersEq⟩

/-- What a further item adds to the end markers that are taken. -/
theorem meets_concat_iff
    {strict : Bool}
    {items : List PairingItem}
    {item : PairingItem}
    {stop : Marker}
    {openers : List (Option Marker)} :
    Meets strict (items ++ [item]) stop openers ↔
      Meets strict items stop openers ∨
        item = .marker stop ∧ stop.keyword = .macroEnd ∧
          (after strict items).openersOf stop.family = openers := by
  constructor
  · rintro ⟨front, back, split, isEnd, openersEq⟩
    rcases List.eq_nil_or_concat back with rfl | ⟨others, last, rfl⟩
    · obtain ⟨rfl, rfl⟩ := List.append_inj' split rfl |>.imp_right List.singleton_inj.1
      exact Or.inr ⟨rfl, isEnd, openersEq⟩
    · have split' : items ++ [item] = (front ++ .marker stop :: others) ++ [last] := by
        simpa using split
      exact Or.inl ⟨front, others, (List.append_inj' split' rfl).1, isEnd, openersEq⟩
  · rintro (meets | ⟨rfl, isEnd, openersEq⟩)
    · exact meets.concat item
    · exact ⟨items, [], rfl, isEnd, openersEq⟩

/-- Where markers are in order, an end marker meets one list of openers. -/
theorem Meets.unique
    {strict : Bool}
    {items : List PairingItem}
    {stop : Marker}
    {openers openers' : List (Option Marker)}
    (inOrder : PairingItem.InOrder items)
    (meets : Meets strict items stop openers)
    (meets' : Meets strict items stop openers') :
    openers = openers' := by
  obtain ⟨front, back, split, _, openersEq⟩ := meets
  obtain ⟨front', back', split', _, openersEq'⟩ := meets'
  obtain rfl := inOrder.front_unique split split'
  exact openersEq.symm.trans openersEq'

/-- What a step does to the listing. A start marker is added at the end; an end
marker is filled in where it closes a block. -/
theorem ends_step_cases (strict : Bool) (nesting : Nesting) (item : PairingItem) :
    (nesting.step strict item).1.ends = nesting.ends ∧
        (∀ start ∈ item.marker?, start.keyword = .macroEnd) ∧
        (∀ stop start outer, item = .marker stop → stop.keyword = .macroEnd →
          nesting.openersOf stop.family ≠ some start :: outer) ∨
      (∃ start, item = .marker start ∧ start.keyword = .macroStart ∧
        (nesting.step strict item).1.ends = nesting.ends ++ [(some start, none)]) ∨
      ∃ stop start outer front back,
        item = .marker stop ∧ stop.keyword = .macroEnd ∧
          nesting.openersOf stop.family = some start :: outer ∧
          nesting.ends = front ++ (some start, none) :: back ∧
          (nesting.step strict item).1.ends = front ++ (some start, some stop) :: back := by
  cases item with
  | plainRegion =>
      left
      refine ⟨by simp [step, ends, OpenEntry.ends], by simp [PairingItem.marker?], ?_⟩
      rintro stop start outer ⟨⟩
  | marker found =>
      cases keywordEq : found.keyword with
      | macroStart =>
          refine Or.inr (Or.inl ⟨found, rfl, keywordEq, ?_⟩)
          simp [step, keywordEq]
      | macroEnd =>
          have stepEq : nesting.step strict (.marker found) = nesting.close strict found := by
            simp only [step, keywordEq]
          rw [stepEq]
          have closes := closes_close strict nesting found
          generalize nesting.close strict found = result at closes
          obtain ⟨next, problems⟩ := result
          simp only at closes ⊢
          cases closes with
          | nothing noOpener same =>
              left
              refine ⟨by rw [same], by simp [PairingItem.marker?, keywordEq], ?_⟩
              rintro stop start outer ⟨⟩ _
              simp [noOpener]
          | plainRegion own _ same =>
              left
              refine ⟨same, by simp [PairingItem.marker?, keywordEq], ?_⟩
              rintro stop start outer ⟨⟩ _
              simp [own]
          | block start front back _ own _ before now _ =>
              right
              right
              exact ⟨found, start, _, front, back, rfl, keywordEq, own, before, now⟩

/-- The blocks have the start markers that were taken, in their order. -/
theorem starts_after (strict : Bool) (items : List PairingItem) :
    (after strict items).ends.map (·.1) =
      ((PairingItem.markers items).filter (·.isStart)).map some := by
  refine
    PairingItem.takingInduction
      (P := fun taken =>
        (after strict taken).ends.map (·.1) =
          ((PairingItem.markers taken).filter (·.isStart)).map some)
      items rfl ?_
  intro taken item back _ startsEq
  rw [after_concat, PairingItem.markers, List.filterMap_append, List.filter_append,
    List.map_append, ← PairingItem.markers, ← startsEq]
  rcases ends_step_cases strict (after strict taken) item with
    ⟨same, isEnd, _⟩ | ⟨start, rfl, isStart, added⟩ |
      ⟨stop, start, outer, before, behind, rfl, isEnd, _, listed, filled⟩
  · rw [same]
    cases item with
    | plainRegion => simp [PairingItem.marker?]
    | marker found => simp [PairingItem.marker?, Marker.isStart, isEnd found rfl]
  · rw [added]
    simp [PairingItem.marker?, Marker.isStart, isStart]
  · rw [filled, listed]
    simp [PairingItem.marker?, Marker.isStart, isEnd]

/-- A block is closed by an end marker exactly if the end meets the block's
start. -/
theorem mem_ends_after_iff
    {strict : Bool}
    {items : List PairingItem}
    {opener : Option Marker}
    {stop : Marker} :
    (opener, some stop) ∈ (after strict items).ends ↔
      ∃ start outer, opener = some start ∧ Meets strict items stop (some start :: outer) := by
  refine
    PairingItem.takingInduction
      (P := fun taken =>
        (opener, some stop) ∈ (after strict taken).ends ↔
          ∃ start outer, opener = some start ∧ Meets strict taken stop (some start :: outer))
      items ?_ ?_
  · simp [Meets, ends, empty]
  · intro taken item back _ memIff
    simp only [after_concat, meets_concat_iff]
    rcases ends_step_cases strict (after strict taken) item with
      ⟨same, _, noBlock⟩ | ⟨start, rfl, isStart, added⟩ |
        ⟨other, start, outer, before, behind, rfl, isEnd, own, listed, filled⟩
    · rw [same, memIff]
      constructor
      · rintro ⟨start, outer, openerEq, meets⟩
        exact ⟨start, outer, openerEq, Or.inl meets⟩
      · rintro ⟨start, outer, openerEq, meets | ⟨itemEq, isEnd, own⟩⟩
        · exact ⟨start, outer, openerEq, meets⟩
        · exact absurd own (noBlock stop start outer itemEq isEnd)
    · rw [added, List.mem_append, memIff]
      constructor
      · rintro (⟨start, outer, openerEq, meets⟩ | added)
        · exact ⟨start, outer, openerEq, Or.inl meets⟩
        · simp at added
      · rintro ⟨start, outer, openerEq, meets | ⟨itemEq, isEnd, _⟩⟩
        · exact Or.inl ⟨start, outer, openerEq, meets⟩
        · obtain rfl := PairingItem.marker.inj itemEq
          simp [isStart] at isEnd
    · have listedIff :
          (opener, some stop) ∈ (after strict taken).ends ↔
            (opener, some stop) ∈ before ∨ (opener, some stop) ∈ behind := by
        simp [listed]
      rw [filled, List.mem_append, List.mem_cons]
      constructor
      · rintro (inFront | isNew | inBack)
        · obtain ⟨start, outer, openerEq, meets⟩ := memIff.1 (listedIff.2 (Or.inl inFront))
          exact ⟨start, outer, openerEq, Or.inl meets⟩
        · obtain ⟨rfl, rfl⟩ : opener = some start ∧ stop = other := by simpa using isNew
          exact ⟨start, outer, rfl, Or.inr ⟨rfl, isEnd, own⟩⟩
        · obtain ⟨start, outer, openerEq, meets⟩ := memIff.1 (listedIff.2 (Or.inr inBack))
          exact ⟨start, outer, openerEq, Or.inl meets⟩
      · rintro ⟨start', outer', rfl, meets | ⟨itemEq, _, own'⟩⟩
        · rcases listedIff.1 (memIff.2 ⟨start', outer', rfl, meets⟩) with inFront | inBack
          · exact Or.inl inFront
          · exact Or.inr (Or.inr inBack)
        · obtain rfl := PairingItem.marker.inj itemEq
          obtain ⟨rfl, _⟩ : start = start' ∧ outer = outer' := by
            simpa using own.symm.trans own'
          exact Or.inr (Or.inl rfl)

/-- An end marker is reported as unmatched exactly if nothing of its family is
open when it is taken. -/
theorem unmatchedEnd_mem_problemsOf_iff
    {strict : Bool}
    {items : List PairingItem}
    {problem : ParseProblem}
    (isUnmatched : problem.kind = .unmatchedEnd) :
    problem ∈ problemsOf strict items ↔
      ∃ stop, problem = .ofMarker .unmatchedEnd stop ∧ Meets strict items stop [] := by
  refine
    PairingItem.takingInduction
      (P := fun taken =>
        problem ∈ problemsOf strict taken ↔
          ∃ stop, problem = .ofMarker .unmatchedEnd stop ∧ Meets strict taken stop [])
      items (by simp [problemsOf, run, Meets]) ?_
  intro taken item back _ memIff
  have stepIff :
      problem ∈ ((after strict taken).step strict item).2 ↔
        ∃ stop, problem = .ofMarker .unmatchedEnd stop ∧ item = .marker stop ∧
          stop.keyword = .macroEnd ∧ (after strict taken).openersOf stop.family = [] := by
    cases item with
    | plainRegion => simp [step]
    | marker found =>
        cases keywordEq : found.keyword with
        | macroStart =>
            simp only [step, keywordEq, openBlock]
            constructor
            · intro tagged
              simp [kind_tagProblem tagged] at isUnmatched
            · rintro ⟨stop, _, itemEq, isEnd, _⟩
              obtain rfl := PairingItem.marker.inj itemEq
              simp [keywordEq] at isEnd
        | macroEnd =>
            have closes := closes_close strict (after strict taken) found
            simp only [step, keywordEq]
            generalize (after strict taken).close strict found = result at closes
            obtain ⟨next, problems⟩ := result
            simp only at closes ⊢
            cases closes with
            | nothing noOpener _ =>
                constructor
                · intro member
                  exact ⟨found, List.mem_singleton.1 member, rfl, keywordEq, noOpener⟩
                · rintro ⟨stop, problemEq, itemEq, _, _⟩
                  obtain rfl := PairingItem.marker.inj itemEq
                  exact List.mem_singleton.2 problemEq
            | plainRegion own _ _ =>
                constructor
                · intro member
                  simp at member
                · rintro ⟨stop, _, itemEq, _, noOpener⟩
                  obtain rfl := PairingItem.marker.inj itemEq
                  simp [own] at noOpener
            | block start _ _ _ own _ _ _ otherKinds =>
                constructor
                · intro member
                  exact absurd isUnmatched (otherKinds problem member)
                · rintro ⟨stop, _, itemEq, _, noOpener⟩
                  obtain rfl := PairingItem.marker.inj itemEq
                  simp [own] at noOpener
  rw [problemsOf_concat, List.mem_append, memIff, stepIff]
  simp only [meets_concat_iff]
  constructor
  · rintro (⟨stop, problemEq, meets⟩ | ⟨stop, problemEq, isItem⟩)
    · exact ⟨stop, problemEq, Or.inl meets⟩
    · exact ⟨stop, problemEq, Or.inr isItem⟩
  · rintro ⟨stop, problemEq, meets | isItem⟩
    · exact Or.inl ⟨stop, problemEq, meets⟩
    · exact Or.inr ⟨stop, problemEq, isItem⟩

theorem Meets.mem
    {strict : Bool}
    {items : List PairingItem}
    {stop : Marker}
    {openers : List (Option Marker)}
    (meets : Meets strict items stop openers) :
    stop ∈ PairingItem.markers items := by
  obtain ⟨front, back, rfl, _⟩ := meets
  simp [PairingItem.markers, PairingItem.marker?]

end Nesting

namespace Document

variable
  {source : Source}
  {trivia : List Trivia}
  {options : ParseOptions}
  {filePath : Text}
  {stop : Marker}

/-- The problems of a document are those found with its items, and then those
with what is still open. -/
theorem problems_ofTrivia
    (filePath : Text)
    (source : Source)
    (trivia : List Trivia)
    (options : ParseOptions) :
    (ofTrivia filePath source trivia options).problems =
      Nesting.problemsOf options.strictLocationTags (pairingItems source trivia) ++
        Nesting.report .unterminated
          (Nesting.after options.strictLocationTags (pairingItems source trivia)).entries :=
  rfl

private theorem ends_ofTrivia
    (filePath : Text)
    (source : Source)
    (trivia : List Trivia)
    (options : ParseOptions) :
    (ofTrivia filePath source trivia options).blocks.map Block.ends =
      (Nesting.after options.strictLocationTags (pairingItems source trivia)).ends := by
  rw [blocks_eq_toList]
  exact
    Nesting.ends_finish (Nesting.after options.strictLocationTags (pairingItems source trivia))

/-- The blocks of a document have the start markers of its text, in their order. -/
theorem starts_ofTrivia
    (filePath : Text)
    (source : Source)
    (trivia : List Trivia)
    (options : ParseOptions) :
    (ofTrivia filePath source trivia options).blocks.map (·.start) =
      ((PairingItem.markers (pairingItems source trivia)).filter (·.isStart)).map some := by
  have ends := congrArg (List.map (·.1)) (ends_ofTrivia filePath source trivia options)
  rw [Nesting.starts_after, List.map_map] at ends
  exact ends

/-- A block is told by its start marker. -/
theorem eq_of_start_eq
    {block other : Block}
    (accepted : Trivia.firstFault? source.text trivia = none)
    (member : block ∈ (ofTrivia filePath source trivia options).blocks)
    (otherMember : other ∈ (ofTrivia filePath source trivia options).blocks)
    (startEq : block.start = other.start) :
    block = other := by
  refine List.inj_on_of_nodup_map ?_ member otherMember startEq
  rw [starts_ofTrivia]
  have different := (inOrder_pairingItems accepted).nodup
  exact (different.filter _).map (fun _ _ => Option.some.inj)

/-- An end marker closes a block exactly if it meets the block's start. -/
theorem exists_stop_iff {opener : Option Marker} :
    (∃ block ∈ (ofTrivia filePath source trivia options).blocks,
        block.start = opener ∧ block.stop = some stop) ↔
      ∃ start outer,
        opener = some start ∧
          Nesting.Meets options.strictLocationTags (pairingItems source trivia) stop
            (some start :: outer) := by
  rw [← Nesting.mem_ends_after_iff, ← ends_ofTrivia filePath, List.mem_map]
  simp [Block.ends]

/-- An end marker is reported as unmatched exactly if it meets nothing. -/
theorem unmatchedEnd_mem_problems_iff
    (accepted : Trivia.firstFault? source.text trivia = none)
    (member : stop ∈ PairingItem.markers (pairingItems source trivia)) :
    .ofMarker .unmatchedEnd stop ∈ (ofTrivia filePath source trivia options).problems ↔
      Nesting.Meets options.strictLocationTags (pairingItems source trivia) stop [] := by
  rw [problems_ofTrivia, List.mem_append, Nesting.unmatchedEnd_mem_problemsOf_iff rfl]
  constructor
  · rintro (⟨other, problemEq, meets⟩ | reported)
    · have positionEq : stop.position = other.position := congrArg (·.position) problemEq
      obtain rfl :=
        (inOrder_pairingItems accepted).eq_of_position_eq member meets.mem positionEq
      exact meets
    · have kindEq := Nesting.kind_report reported
      simp [ParseProblem.ofMarker] at kindEq
  · intro meets
    exact Or.inl ⟨stop, rfl, meets⟩

namespace Input

def usedTrivia (input : Input) : List Trivia :=
  input.trivia.getD (Trivia.extract input.source.text)

def items (input : Input) : List PairingItem :=
  pairingItems input.source input.usedTrivia

/-- An input has a document exactly if its trivia has no fault. -/
theorem parse_eq_ok_iff
    {input : Input}
    {options : ParseOptions}
    {document : Document} :
    input.parse options = .ok document ↔
      Trivia.firstFault? input.source.text input.usedTrivia = none ∧
        ofTrivia input.filePath input.source input.usedTrivia options = document := by
  cases supplied : input.trivia with
  | none =>
      simp [parse, usedTrivia, supplied, Document.parse, Trivia.firstFault?_extract]
  | some trivia =>
      simp only [parse, usedTrivia, supplied, parseWithTrivia, Option.getD_some]
      cases Trivia.firstFault? input.source.text trivia with
      | none => simp
      | some fault => simp

end Input

end Document

end MacroRegions
