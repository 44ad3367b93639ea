import MacroRegions.Proofs.Nesting.Account

/-!
What every block of a document is made of.

A block comes into being when its start is taken, and it is finished by its end, by an
end marker of a block around it, or by the end of the text. A rule that each of these
keeps holds of every block.
-/

namespace MacroRegions

/-- What holds of open blocks and of finished ones, and why pairing keeps it. -/
structure BlockRule (strict : Bool) where
  opened : Marker → Option BlockError → Prop
  done : Block → Prop
  opens : ∀ start, opened start (Nesting.errorWith none (Nesting.tagProblem strict start))
  closes : ∀ start error stop,
    opened start error →
      start.family = stop.family →
        done ⟨some start, some stop, Nesting.errorWith error (Nesting.tagProblem strict stop)⟩
  drops : ∀ start error, opened start error → done ⟨some start, none, some .outOfOrder⟩
  ends : ∀ start error, opened start error → done ⟨some start, none, some .unterminated⟩

namespace BlockRule

variable {strict : Bool} {rule : BlockRule strict}

def InForest (rule : BlockRule strict) (forest : BlockForest) : Prop :=
  ∀ block ∈ forest.toList, rule.done block

def InEntry (rule : BlockRule strict) : OpenEntry → Prop
  | .plainRegion => True
  | .block block => rule.opened block.start block.error ∧ rule.InForest block.children

structure InNesting (rule : BlockRule strict) (nesting : Nesting) : Prop where
  entries : ∀ entry ∈ nesting.entries, rule.InEntry entry
  finished : rule.InForest nesting.finished

private theorem inForest_nil : rule.InForest .nil := by
  simp [InForest, Forest.toList]

theorem InForest.append
    {left right : BlockForest}
    (leftKeeps : rule.InForest left)
    (rightKeeps : rule.InForest right) :
    rule.InForest (left ++ right) := by
  intro block member
  rw [Forest.toList_append, List.mem_append] at member
  exact member.elim (leftKeeps block) (rightKeeps block)

private theorem inForest_finish
    {block : OpenBlock}
    {stop : Option Marker}
    {error : Option BlockError}
    {more : BlockForest}
    (ownKeeps : rule.done ⟨some block.start, stop, error⟩)
    (childrenKeep : rule.InForest block.children)
    (moreKeeps : rule.InForest more) :
    rule.InForest (block.finish stop error more) := by
  intro found member
  rw [OpenBlock.finish, Forest.single, Forest.toList, Forest.toList, List.append_nil,
    List.mem_cons] at member
  rcases member with rfl | within
  · exact ownKeeps
  · exact childrenKeep.append moreKeeps found within

private theorem inForest_collapse
    {error : BlockError}
    {innermost : BlockForest}
    {entries : List OpenEntry}
    (leaves : ∀ start opened, rule.opened start opened → rule.done ⟨some start, none, some error⟩)
    (entriesKeep : ∀ entry ∈ entries, rule.InEntry entry)
    (innermostKeeps : rule.InForest innermost) :
    rule.InForest (Nesting.collapse error innermost entries) := by
  induction entries generalizing innermost with
  | nil => exact innermostKeeps
  | cons entry rest inductionHypothesis =>
      have restKeeps := fun other member => entriesKeep other (List.mem_cons_of_mem _ member)
      cases entry with
      | plainRegion => exact inductionHypothesis restKeeps innermostKeeps
      | block opened =>
          have headKeeps := entriesKeep (.block opened) List.mem_cons_self
          apply inductionHypothesis restKeeps
          exact inForest_finish (leaves _ _ headKeeps.1) headKeeps.2 innermostKeeps

private theorem inNesting_attach
    {done : BlockForest}
    {entries : List OpenEntry}
    {finished : BlockForest}
    (doneKeeps : rule.InForest done)
    (entriesKeep : ∀ entry ∈ entries, rule.InEntry entry)
    (finishedKeeps : rule.InForest finished) :
    rule.InNesting (Nesting.attach done entries finished) := by
  induction entries with
  | nil => exact ⟨by simp [Nesting.attach], finishedKeeps.append doneKeeps⟩
  | cons entry rest inductionHypothesis =>
      have restKeeps := fun other member => entriesKeep other (List.mem_cons_of_mem _ member)
      cases entry with
      | plainRegion =>
          have outer := inductionHypothesis restKeeps
          exact ⟨List.forall_mem_cons.2 ⟨trivial, outer.entries⟩, outer.finished⟩
      | block opened =>
          have headKeeps := entriesKeep (.block opened) List.mem_cons_self
          refine ⟨List.forall_mem_cons.2 ⟨?_, restKeeps⟩, finishedKeeps⟩
          exact ⟨headKeeps.1, headKeeps.2.append doneKeeps⟩

private theorem inNesting_close
    {nesting : Nesting}
    {stop : Marker}
    (keeps : rule.InNesting nesting) :
    rule.InNesting (nesting.close strict stop).1 := by
  obtain ⟨entriesKeep, finishedKeeps⟩ := keeps
  rcases Nesting.close_cases strict nesting stop with
    ⟨_, closed⟩ | ⟨inner, outer, split, _, _, closed⟩ |
      ⟨inner, block, outer, split, sameFamily, _, closed⟩
  · rw [closed]
    exact ⟨entriesKeep, finishedKeeps⟩
  · rw [closed]
    refine ⟨?_, finishedKeeps⟩
    intro entry member
    apply entriesKeep
    rw [split]
    simp only [List.mem_append, List.mem_cons] at member ⊢
    exact member.imp_right Or.inr
  · rw [closed]
    simp only [split, List.mem_append, List.mem_cons] at entriesKeep
    have innerKeeps := fun entry member => entriesKeep entry (Or.inl member)
    have blockKeeps := entriesKeep (.block block) (Or.inr (Or.inl rfl))
    have outerKeeps := fun entry member => entriesKeep entry (Or.inr (Or.inr member))
    have doneKeeps : rule.InForest (Nesting.closed strict stop inner block) := by
      apply inForest_finish (rule.closes _ _ _ blockKeeps.1 sameFamily) blockKeeps.2
      exact inForest_collapse rule.drops innerKeeps inForest_nil
    have attached := inNesting_attach doneKeeps outerKeeps finishedKeeps
    refine ⟨?_, attached.finished⟩
    intro entry member
    rcases List.mem_append.1 member with inInner | inOuter
    · exact innerKeeps entry (List.mem_filter.1 inInner).1
    · exact attached.entries entry inOuter

theorem inNesting_after (rule : BlockRule strict) (items : List PairingItem) :
    rule.InNesting (Nesting.after strict items) := by
  refine
    PairingItem.takingInduction (P := fun taken => rule.InNesting (Nesting.after strict taken))
      items ⟨by simp [Nesting.empty], inForest_nil⟩ ?_
  intro taken item back _ takenKeeps
  rw [Nesting.after_concat]
  cases item with
  | plainRegion =>
      exact ⟨List.forall_mem_cons.2 ⟨trivial, takenKeeps.entries⟩, takenKeeps.finished⟩
  | marker found =>
      cases keywordEq : found.keyword with
      | macroStart =>
          simp only [Nesting.step, keywordEq]
          refine ⟨List.forall_mem_cons.2 ⟨?_, takenKeeps.entries⟩, takenKeeps.finished⟩
          exact ⟨rule.opens found, inForest_nil⟩
      | macroEnd =>
          simp only [Nesting.step, keywordEq]
          exact inNesting_close takenKeeps

/-- Every block of a document keeps the rule. -/
theorem done_of_mem_blocks
    {filePath : Text}
    {source : Source}
    {trivia : List Trivia}
    {options : ParseOptions}
    {block : Block}
    (rule : BlockRule options.strictLocationTags)
    (member : block ∈ (Document.ofTrivia filePath source trivia options).blocks) :
    rule.done block := by
  have keeps := rule.inNesting_after (Document.pairingItems source trivia)
  have treeKeeps := keeps.finished.append (inForest_collapse rule.ends keeps.entries inForest_nil)
  rw [Document.blocks_eq_toList] at member
  exact treeKeeps block member

end BlockRule

namespace Document

variable
  {filePath : Text}
  {source : Source}
  {trivia : List Trivia}
  {options : ParseOptions}

theorem mem_markers_of_mem_blocks
    {block : Block}
    (member : block ∈ (ofTrivia filePath source trivia options).blocks) :
    ∃ start,
      block.start = some start ∧
        start ∈ PairingItem.markers (pairingItems source trivia) ∧ start.isStart = true := by
  have startMember :=
    List.mem_map_of_mem (f := fun block : Block => block.start) member
  rw [starts_ofTrivia] at startMember
  obtain ⟨start, listed, startEq⟩ := List.mem_map.1 startMember
  obtain ⟨inMarkers, isStart⟩ := List.mem_filter.1 listed
  exact ⟨start, startEq.symm, inMarkers, isStart⟩

theorem exists_block_of_isStart
    {start : Marker}
    (member : start ∈ PairingItem.markers (pairingItems source trivia))
    (isStart : start.isStart = true) :
    ∃ block ∈ (ofTrivia filePath source trivia options).blocks, block.start = some start := by
  have listed :
      some start ∈ (ofTrivia filePath source trivia options).blocks.map (·.start) := by
    rw [starts_ofTrivia]
    exact List.mem_map_of_mem (List.mem_filter.2 ⟨member, isStart⟩)
  exact List.mem_map.1 listed

theorem meets_of_stop_eq
    {block : Block}
    {stop : Marker}
    (member : block ∈ (ofTrivia filePath source trivia options).blocks)
    (stopEq : block.stop = some stop) :
    ∃ start outer,
      block.start = some start ∧
        Nesting.Meets options.strictLocationTags (pairingItems source trivia) stop
          (some start :: outer) :=
  exists_stop_iff.1 ⟨block, member, rfl, stopEq⟩

theorem isStart_of_stop_eq
    {block : Block}
    {stop : Marker}
    (member : block ∈ (ofTrivia filePath source trivia options).blocks)
    (stopEq : block.stop = some stop) :
    stop ∈ PairingItem.markers (pairingItems source trivia) ∧ stop.isStart = false := by
  obtain ⟨start, outer, _, meets⟩ := meets_of_stop_eq member stopEq
  refine ⟨meets.mem, ?_⟩
  obtain ⟨_, _, _, isEnd, _⟩ := meets
  simp [Marker.isStart, isEnd]

/-- A block is told by its end marker, if it has one. -/
theorem eq_of_stop_eq
    {block other : Block}
    {stop : Marker}
    (accepted : Trivia.firstFault? source.text trivia = none)
    (member : block ∈ (ofTrivia filePath source trivia options).blocks)
    (otherMember : other ∈ (ofTrivia filePath source trivia options).blocks)
    (stopEq : block.stop = some stop)
    (otherEq : other.stop = some stop) :
    block = other := by
  obtain ⟨start, outer, startEq, meets⟩ := meets_of_stop_eq member stopEq
  obtain ⟨start', outer', startEq', meets'⟩ := meets_of_stop_eq otherMember otherEq
  have openersEq := meets.unique (inOrder_pairingItems accepted) meets'
  refine eq_of_start_eq accepted member otherMember ?_
  rw [startEq, startEq']
  exact (List.cons.inj openersEq).1

private theorem markers_disjoint
    {block other : Block}
    (accepted : Trivia.firstFault? source.text trivia = none)
    (member : block ∈ (ofTrivia filePath source trivia options).blocks)
    (otherMember : other ∈ (ofTrivia filePath source trivia options).blocks)
    (different : block ≠ other) :
    block.markers.Disjoint other.markers := by
  intro found inBlock inOther
  obtain ⟨start, startEq, _, isStart⟩ := mem_markers_of_mem_blocks member
  obtain ⟨start', startEq', _, isStart'⟩ := mem_markers_of_mem_blocks otherMember
  rcases Block.mem_markers_iff.1 inBlock with here | here
  · rcases Block.mem_markers_iff.1 inOther with there | there
    · exact different (eq_of_start_eq accepted member otherMember (here.trans there.symm))
    · have notStart := (isStart_of_stop_eq otherMember there).2
      rw [startEq, Option.some.injEq] at here
      simp [← here, isStart] at notStart
  · rcases Block.mem_markers_iff.1 inOther with there | there
    · have notStart := (isStart_of_stop_eq member here).2
      rw [startEq', Option.some.injEq] at there
      simp [← there, isStart'] at notStart
    · exact different (eq_of_stop_eq accepted member otherMember here there)

theorem nodup_blocks (accepted : Trivia.firstFault? source.text trivia = none) :
    (ofTrivia filePath source trivia options).blocks.Nodup := by
  apply List.Nodup.of_map (·.start)
  rw [starts_ofTrivia]
  exact ((inOrder_pairingItems accepted).nodup.filter _).map fun _ _ => Option.some.inj

/-- No marker belongs to two blocks, or to one block twice. -/
theorem nodup_markers (accepted : Trivia.firstFault? source.text trivia = none) :
    ((ofTrivia filePath source trivia options).blocks.flatMap Block.markers).Nodup := by
  refine List.nodup_flatMap.2 ⟨?_, ?_⟩
  · intro block member
    obtain ⟨start, startEq, _, isStart⟩ := mem_markers_of_mem_blocks member
    cases stopEq : block.stop with
    | none => simp [Block.markers, startEq, stopEq]
    | some stop =>
        have notStart := (isStart_of_stop_eq member stopEq).2
        have apart : start ≠ stop := by
          rintro rfl
          simp [isStart] at notStart
        simp [Block.markers, startEq, stopEq, apart]
  · refine (List.Pairwise.and_mem.1 (nodup_blocks accepted)).imp ?_
    rintro block other ⟨member, otherMember, different⟩
    exact markers_disjoint accepted member otherMember different

theorem mem_markers_of_mem_flatMap
    {found : Marker}
    (member :
      found ∈ (ofTrivia filePath source trivia options).blocks.flatMap Block.markers) :
    found ∈ PairingItem.markers (pairingItems source trivia) := by
  obtain ⟨block, blockMember, inBlock⟩ := List.mem_flatMap.1 member
  rcases Block.mem_markers_iff.1 inBlock with startEq | stopEq
  · obtain ⟨start, startEq', inMarkers, _⟩ := mem_markers_of_mem_blocks blockMember
    obtain rfl : start = found := Option.some.inj (startEq'.symm.trans startEq)
    exact inMarkers
  · exact (isStart_of_stop_eq blockMember stopEq).1

end Document

end MacroRegions
