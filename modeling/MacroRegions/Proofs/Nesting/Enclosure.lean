import MacroRegions.Proofs.Forest.Ancestry
import MacroRegions.Proofs.Nesting.Bracketing
import MacroRegions.Proofs.Nesting.StrictNesting

/-!
The tree of a well bracketed text.

In a nested forest whose blocks all have ends, one block stands below another exactly
if its markers lie between the markers of the other. The document of a well bracketed
text has the pairs of the two single stacks as its blocks, each below the smallest
pair around it.
-/

namespace MacroRegions

namespace Block

/-- The markers of one block lie between those of another one. -/
def Encloses (outer inner : Block) : Prop :=
  ∃ start stop start' stop',
    outer.start = some start ∧
      outer.stop = some stop ∧
      inner.start = some start' ∧
      inner.stop = some stop' ∧
      start.Before start' ∧
      stop'.Before stop

def IsClosed (block : Block) : Prop :=
  ∃ start stop,
    block.start = some start ∧
      block.stop = some stop ∧
      start.Before stop ∧
      start.Extended ∧
      stop.Extended

private theorem IsClosed.not_encloses
    {block other : Block}
    (closed : block.IsClosed)
    (otherClosed : other.IsClosed)
    (encloses : other.Encloses block) :
    ¬block.Encloses other := by
  obtain ⟨start, stop, startEq, stopEq, _, extended, _⟩ := closed
  obtain ⟨start', stop', startEq', stopEq', _, extended', _⟩ := otherClosed
  simp only [Encloses, startEq, stopEq, startEq', stopEq', Option.some.injEq] at encloses ⊢
  obtain ⟨_, _, _, _, rfl, rfl, rfl, rfl, before, _⟩ := encloses
  rintro ⟨_, _, _, _, rfl, rfl, rfl, rfl, before', _⟩
  unfold Marker.Before Marker.Extended at *
  omega

end Block

namespace BlockForest

private theorem mem_markers_of_start
    {forest : BlockForest}
    {block : Block}
    {found : Marker}
    (member : block ∈ forest.toList)
    (startEq : block.start = some found) :
    found ∈ markers forest :=
  List.mem_flatMap.2 ⟨block, member, Block.mem_markers_iff.2 (Or.inl startEq)⟩

private theorem mem_markers_of_stop
    {forest : BlockForest}
    {block : Block}
    {found : Marker}
    (member : block ∈ forest.toList)
    (stopEq : block.stop = some found) :
    found ∈ markers forest :=
  List.mem_flatMap.2 ⟨block, member, Block.mem_markers_iff.2 (Or.inr stopEq)⟩

private theorem encloses_of_isBelow
    {forest : BlockForest}
    {inner outer : Block}
    (nested : IsNested forest)
    (closed : ∀ block ∈ forest.toList, block.IsClosed)
    (below : forest.IsBelow inner outer) :
    outer.Encloses inner := by
  induction forest with
  | nil => exact below.elim
  | node root children siblings childrenHypothesis siblingsHypothesis =>
      obtain ⟨⟨start, startEq, _, within⟩, _, childrenNested, siblingsNested⟩ := nested
      simp only [Forest.toList, List.mem_cons, List.mem_append] at closed
      rcases below with ⟨rfl, member⟩ | below | below
      · obtain ⟨_, stop, _, stopEq, _⟩ := closed outer (Or.inl rfl)
        obtain ⟨start', stop', startEq', stopEq', _⟩ := closed inner (Or.inr (Or.inl member))
        refine ⟨start, stop, start', stop', startEq, stopEq, startEq', stopEq', ?_, ?_⟩
        · exact (within start' (mem_markers_of_start member startEq')).1
        · exact (within stop' (mem_markers_of_stop member stopEq')).2 stop stopEq
      · apply childrenHypothesis childrenNested _ below
        exact fun block member => closed block (Or.inr (Or.inl member))
      · apply siblingsHypothesis siblingsNested _ below
        exact fun block member => closed block (Or.inr (Or.inr member))

/-- Blocks do not enclose what lies behind them or before them. -/
theorem not_encloses_of_apart
    {first second : BlockForest}
    {block other : Block}
    (apart : ∀ earlier ∈ markers first, ∀ later ∈ markers second, earlier.Before later)
    (member : block ∈ first.toList)
    (otherMember : other ∈ second.toList)
    (closed : block.IsClosed)
    (otherClosed : other.IsClosed) :
    ¬block.Encloses other ∧ ¬other.Encloses block := by
  obtain ⟨start, stop, startEq, stopEq, before, extended, stopExtended⟩ := closed
  obtain ⟨start', stop', startEq', stopEq', before', extended', stopExtended'⟩ := otherClosed
  have startsApart :=
    apart _ (mem_markers_of_start member startEq) _ (mem_markers_of_start otherMember startEq')
  have endsApart :=
    apart _ (mem_markers_of_stop member stopEq) _ (mem_markers_of_start otherMember startEq')
  simp only [Block.Encloses, startEq, stopEq, startEq', stopEq', Option.some.injEq]
  unfold Marker.Before Marker.Extended at *
  constructor
  · rintro ⟨_, _, _, _, rfl, rfl, rfl, rfl, _, _⟩
    omega
  · rintro ⟨_, _, _, _, rfl, rfl, rfl, rfl, _, _⟩
    omega

private theorem isBelow_of_encloses
    {forest : BlockForest}
    {inner outer : Block}
    (nested : IsNested forest)
    (closed : ∀ block ∈ forest.toList, block.IsClosed)
    (innerMember : inner ∈ forest.toList)
    (outerMember : outer ∈ forest.toList)
    (encloses : outer.Encloses inner) :
    forest.IsBelow inner outer := by
  induction forest with
  | nil => simp [Forest.toList] at innerMember
  | node root children siblings childrenHypothesis siblingsHypothesis =>
      have innerClosed := closed inner innerMember
      have outerClosed := closed outer outerMember
      have rootBelow : ∀ block ∈ children.toList, root.Encloses block := by
        intro block member
        exact encloses_of_isBelow nested closed (Or.inl ⟨rfl, member⟩)
      obtain ⟨_, apart, childrenNested, siblingsNested⟩ := nested
      have split :
          ∀ block ∈ (Forest.node root children siblings).toList,
            block ∈ (Forest.single root children).toList ∨ block ∈ siblings.toList := by
        intro block member
        simpa [Forest.single, Forest.toList, or_assoc] using member
      have childrenClosed : ∀ block ∈ children.toList, block.IsClosed := by
        intro block member
        exact closed block (by simp [Forest.toList, member])
      have siblingsClosed : ∀ block ∈ siblings.toList, block.IsClosed := by
        intro block member
        exact closed block (by simp [Forest.toList, member])
      rcases split outer outerMember with outerFirst | outerBeside
      · rcases split inner innerMember with innerFirst | innerBeside
        · simp only [Forest.single, Forest.toList, List.append_nil, List.mem_cons]
            at outerFirst innerFirst
          rcases outerFirst with rfl | outerWithin
          · rcases innerFirst with rfl | innerWithin
            · exact absurd encloses (innerClosed.not_encloses outerClosed encloses)
            · exact Or.inl ⟨rfl, innerWithin⟩
          · rcases innerFirst with rfl | innerWithin
            · exact absurd (rootBelow outer outerWithin)
                  (innerClosed.not_encloses outerClosed encloses)
            · exact
                Or.inr (Or.inl
                  (childrenHypothesis childrenNested childrenClosed innerWithin outerWithin))
        · have notAround :=
            not_encloses_of_apart apart outerFirst innerBeside outerClosed innerClosed
          exact absurd encloses notAround.1
      · rcases split inner innerMember with innerFirst | innerBeside
        · have notAround :=
            not_encloses_of_apart apart innerFirst outerBeside innerClosed outerClosed
          exact absurd encloses notAround.2
        · exact
            Or.inr (Or.inr
              (siblingsHypothesis siblingsNested siblingsClosed innerBeside outerBeside))

/-- In a nested forest of closed blocks, to be below is to be enclosed. -/
theorem isBelow_iff_encloses
    {forest : BlockForest}
    {inner outer : Block}
    (nested : IsNested forest)
    (closed : ∀ block ∈ forest.toList, block.IsClosed) :
    forest.IsBelow inner outer ↔
      inner ∈ forest.toList ∧ outer ∈ forest.toList ∧ outer.Encloses inner := by
  constructor
  · intro below
    exact ⟨below.mem.1, below.mem.2, encloses_of_isBelow nested closed below⟩
  · intro encloses
    exact isBelow_of_encloses nested closed encloses.1 encloses.2.1 encloses.2.2

end BlockForest

/-- In lenient parsing, a block that has an end has no error. -/
def BlockRule.lenient : BlockRule false where
  opened _ error := error = none
  done block := block.stop = none ∨ block.error = none
  opens _ := rfl
  closes _ _ _ noError _ := Or.inr (by rw [noError]; rfl)
  drops _ _ _ := Or.inl rfl
  ends _ _ _ := Or.inl rfl

namespace Nesting

/-- Where there are no problems, an end meets what its family alone gives it. -/
theorem exists_meets_iff
    {items : List PairingItem}
    {start stop : Marker}
    (inOrder : PairingItem.InOrder items)
    (noProblems : problemsOf false items = []) :
    (∃ outer, Meets false items stop (some start :: outer)) ↔ start.PairsAlone items stop := by
  have matchesBefore : ∀ front back,
      items = front ++ back → (after false front).Matches front := by
    rintro front back rfl
    apply matches_after
    apply (problemsOf_eq_nil_iff inOrder.of_append_left).2
    intro earlier item isPrefix
    apply (problemsOf_eq_nil_iff inOrder).1 noProblems
    exact isPrefix.trans (List.prefix_append _ _)
  constructor
  · rintro ⟨outer, front, back, split, isEnd, openersEq⟩
    apply (Marker.pairsAlone_iff_of_split inOrder split isEnd).2
    rw [← matchesBefore front _ split, openersEq]
    rfl
  · intro paired
    obtain ⟨back, split⟩ := PairingItem.split_before paired.1
    have innermost := (Marker.pairsAlone_iff_of_split inOrder split paired.2.1).1 paired
    rw [← matchesBefore _ _ split] at innermost
    obtain ⟨outer, openersEq⟩ := List.head?_eq_some_iff.1 innermost
    exact ⟨outer, _, back, split, paired.2.1, openersEq⟩

end Nesting

namespace Document

/-- The blocks of a document are the pairs of the two single stacks, each below
the smallest one around it. -/
structure Mirrors (document : Document) (items : List PairingItem) : Prop where
  nodup : document.blocks.Nodup
  blocks : ∀ block,
    block ∈ document.blocks ↔
      ∃ start stop,
        start.PairsAlone items stop ∧ block = ⟨some start, some stop, none⟩
  parents : ∀ block ∈ document.blocks, ∀ parent,
    document.tree.parent? (· = block) = some parent ↔
      parent ∈ document.blocks ∧
        parent.Encloses block ∧
        ∀ other ∈ document.blocks,
          other.Encloses block → other = parent ∨ other.Encloses parent
  roots : ∀ block ∈ document.blocks,
    document.tree.hasRoot (· = block) = true ↔
      ∀ other ∈ document.blocks, ¬other.Encloses block

private theorem mirrors_of_blocks
    {document : Document}
    {items : List PairingItem}
    (inOrder : PairingItem.InOrder items)
    (nested : document.IsNested)
    (nodup : document.blocks.Nodup)
    (blocks : ∀ block,
      block ∈ document.blocks ↔
        ∃ start stop,
          start.PairsAlone items stop ∧ block = ⟨some start, some stop, none⟩) :
    document.Mirrors items := by
  have closed : ∀ block ∈ document.tree.toList, block.IsClosed := by
    rw [← blocks_eq_toList]
    intro block member
    obtain ⟨start, stop, paired, rfl⟩ := (blocks block).1 member
    refine ⟨start, stop, rfl, rfl, paired.before inOrder, ?_, ?_⟩
    · exact inOrder.extended start (PairingItem.mem_markers_iff.2 paired.start_mem)
    · exact inOrder.extended stop (PairingItem.mem_markers_iff.2 paired.1)
  have belowIff : ∀ inner outer,
      document.tree.IsBelow inner outer ↔
        inner ∈ document.blocks ∧ outer ∈ document.blocks ∧ outer.Encloses inner := by
    intro inner outer
    rw [blocks_eq_toList]
    exact BlockForest.isBelow_iff_encloses nested.tree closed
  have treeNodup : document.tree.toList.Nodup := document.blocks_eq_toList ▸ nodup
  have nearest : ∀ block parent,
      document.tree.parent? (· = block) = some parent →
        parent ∈ document.blocks ∧
          parent.Encloses block ∧
          ∀ other ∈ document.blocks,
            other.Encloses block → other = parent ∨ other.Encloses parent := by
    intro block parent isParent
    obtain ⟨below, isNearest⟩ := Forest.nearest_of_parent?_eq_some treeNodup isParent
    obtain ⟨member, parentMember, encloses⟩ := (belowIff _ _).1 below
    refine ⟨parentMember, encloses, ?_⟩
    intro other otherMember otherEncloses
    rcases isNearest other ((belowIff _ _).2 ⟨member, otherMember, otherEncloses⟩) with
      same | above
    · exact Or.inl same
    · exact Or.inr ((belowIff _ _).1 above).2.2
  have rootOrParent : ∀ block ∈ document.blocks,
      document.tree.hasRoot (· = block) = true ∨
        ∃ parent, document.tree.parent? (· = block) = some parent := by
    intro block member
    rw [blocks_eq_toList] at member
    exact Forest.hasRoot_or_exists_parent? member
  have rootFree : ∀ block ∈ document.blocks,
      document.tree.hasRoot (· = block) = true →
        ∀ other ∈ document.blocks, ¬other.Encloses block := by
    intro block member isRoot other otherMember encloses
    apply Forest.not_isBelow_of_hasRoot treeNodup isRoot
    exact (belowIff _ _).2 ⟨member, otherMember, encloses⟩
  refine ⟨nodup, blocks, ?_, ?_⟩
  · intro block member parent
    refine ⟨nearest block parent, ?_⟩
    rintro ⟨parentMember, encloses, smallest⟩
    rcases rootOrParent block member with isRoot | ⟨found, isParent⟩
    · exact absurd encloses (rootFree block member isRoot parent parentMember)
    · obtain ⟨foundMember, foundEncloses, foundSmallest⟩ := nearest block found isParent
      rcases smallest found foundMember foundEncloses with same | above
      · rw [isParent, same]
      · rcases foundSmallest parent parentMember encloses with same | below
        · rw [isParent, same]
        · rw [blocks_eq_toList] at parentMember foundMember
          exact absurd below
            ((closed parent parentMember).not_encloses (closed found foundMember) above)
  · intro block member
    refine ⟨rootFree block member, ?_⟩
    intro free
    rcases rootOrParent block member with isRoot | ⟨found, isParent⟩
    · exact isRoot
    · have isNearest := nearest block found isParent
      exact absurd isNearest.2.1 (free found isNearest.1)

theorem mem_blocks_iff_of_wellBracketed
    {filePath : Text}
    {source : Source}
    {trivia : List Trivia}
    {block : Block}
    (accepted : Trivia.firstFault? source.text trivia = none)
    (wellBracketed : PairingItem.WellBracketed (pairingItems source trivia)) :
    block ∈ (ofTrivia filePath source trivia .lenient).blocks ↔
      ∃ start stop,
        start.PairsAlone (pairingItems source trivia) stop ∧
          block = ⟨some start, some stop, none⟩ := by
  have inOrder := inOrder_pairingItems accepted
  have noProblems : Nesting.problemsOf false (pairingItems source trivia) = [] := by
    apply (Nesting.problemsOf_eq_nil_iff inOrder).2
    exact ((PairingItem.wellBracketed_iff inOrder).1 wellBracketed).1
  have closedBlock : ∀ start stop,
      start.PairsAlone (pairingItems source trivia) stop →
        (⟨some start, some stop, none⟩ : Block) ∈
          (ofTrivia filePath source trivia .lenient).blocks := by
    intro start stop paired
    obtain ⟨outer, meets⟩ := (Nesting.exists_meets_iff inOrder noProblems).2 paired
    have ended :
        ∃ block ∈ (ofTrivia filePath source trivia .lenient).blocks,
          block.start = some start ∧ block.stop = some stop :=
      exists_stop_iff.2 ⟨start, outer, rfl, meets⟩
    obtain ⟨⟨_, _, error⟩, member, rfl, rfl⟩ := ended
    have noError : BlockRule.lenient.done ⟨some start, some stop, error⟩ :=
      BlockRule.lenient.done_of_mem_blocks member
    obtain rfl : error = none := noError.resolve_left (by simp)
    exact member
  constructor
  · intro member
    obtain ⟨start, startEq, startMember, isStart⟩ := mem_markers_of_mem_blocks member
    obtain ⟨stop, paired⟩ :=
      wellBracketed.starts start (PairingItem.mem_markers_iff.1 startMember)
        (of_decide_eq_true isStart)
    refine ⟨start, stop, paired, ?_⟩
    exact eq_of_start_eq accepted member (closedBlock start stop paired) startEq
  · rintro ⟨start, stop, paired, rfl⟩
    exact closedBlock start stop paired

/-- A text is parsed without problems exactly if it is well bracketed, and its
document is then the tree of its pairs. -/
theorem problems_eq_nil_iff_wellBracketed
    {input : Input}
    {document : Document}
    (parsed : input.parse .lenient = .ok document) :
    (document.problems = [] ↔ PairingItem.WellBracketed input.items) ∧
      (PairingItem.WellBracketed input.items → document.Mirrors input.items) := by
  obtain ⟨accepted, rfl⟩ := Input.parse_eq_ok_iff.1 parsed
  refine ⟨problems_eq_nil_iff accepted, ?_⟩
  intro wellBracketed
  apply mirrors_of_blocks (inOrder_pairingItems accepted)
  · exact isNested_ofTrivia _ _ accepted
  · exact nodup_blocks accepted
  · exact fun block => mem_blocks_iff_of_wellBracketed accepted wellBracketed

/-- A plain region that straddles the end of a comment block and stays open, and
a region within the comment block. -/
def bracketedText : Text :=
  "// Macro A\n#region Macro B\n#endregion\n#region x\n/* EndMacro */\n".toList

def bracketedInput : Input := ⟨[], Source.ofText bracketedText, none⟩

theorem mirrors_bracketedText :
    ∃ document,
      bracketedInput.parse .lenient = .ok document ∧
        document.problems = [] ∧
        document.blocks.length = 2 ∧
        document.Mirrors bracketedInput.items := by
  have clean :
      (Document.parse [] (Source.ofText bracketedText) .lenient).problems = [] ∧
        (Document.parse [] (Source.ofText bracketedText) .lenient).blocks.length = 2 := by
    decide +kernel
  have parsed :
      bracketedInput.parse .lenient =
        .ok (Document.parse [] (Source.ofText bracketedText) .lenient) :=
    rfl
  have mirrored := problems_eq_nil_iff_wellBracketed parsed
  exact ⟨_, rfl, clean.1, clean.2, mirrored.2 (mirrored.1.1 clean.1)⟩

end Document

end MacroRegions
