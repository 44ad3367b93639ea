import MacroRegions.Proofs.Nesting.OneFamily

/-!
Documents without problems.

Both families are paired over one list, from which an end also drops what it
straddles. Nothing is dropped exactly if no pair of the one family crosses a pair of
the other, and then each family is paired as if it were alone. So a document has no
problems exactly if its markers are well bracketed.
-/

namespace MacroRegions

/-- Each family is bracketed by itself, and pairs of different families do not
cross. Plain regions may straddle comments and stay open. -/
structure PairingItem.WellBracketed (items : List PairingItem) : Prop where
  ends : ∀ stop : Marker, .marker stop ∈ items →
    stop.keyword = .macroEnd → stop.family.openAlone (before items stop) ≠ []
  starts : ∀ start : Marker, .marker start ∈ items →
    start.keyword = .macroStart → ∃ stop, start.PairsAlone items stop
  uncrossed : ∀ start stop start' stop' : Marker,
    start.PairsAlone items stop →
      start'.PairsAlone items stop' →
        start.family ≠ start'.family →
          start.Before start' → start'.Before stop → ¬stop.Before stop'

/-- An end has something to close behind `front`, and nothing of the other
family stands open within what it closes. -/
def PairingItem.Fits (front : List PairingItem) (item : PairingItem) : Prop :=
  ∀ stop : Marker, item = .marker stop →
    stop.keyword = .macroEnd →
      stop.family.openAlone front ≠ [] ∧
        ∀ start, (stop.family.openAlone front).head? = some (some start) →
          ∀ inner : Marker, inner.family ≠ stop.family →
            some inner ∈ inner.family.openAlone front → inner.Before start

namespace Nesting

/-- Each family has open what it has open alone. -/
def Matches (nesting : Nesting) (items : List PairingItem) : Prop :=
  ∀ family, nesting.openersOf family = family.openAlone items

theorem report_eq_nil_iff {kind : BlockError} {entries : List OpenEntry} :
    report kind entries = [] ↔ ∀ start, some start ∉ entries.map OpenEntry.opener := by
  simp only [report, List.map_eq_nil_iff, List.reverse_eq_nil_iff, List.filterMap_eq_nil_iff,
    List.mem_map, not_exists, not_and]
  constructor
  · intro noBlock start entry member
    cases entry with
    | plainRegion => simp [OpenEntry.opener]
    | block opened => simpa [OpenEntry.block?] using noBlock _ member
  · intro noStart entry member
    cases entry with
    | plainRegion => rfl
    | block opened => exact absurd rfl (noStart opened.start _ member)

theorem Matches.mem_openers_iff
    {nesting : Nesting}
    {items : List PairingItem}
    {start : Marker}
    (matched : nesting.Matches items) :
    some start ∈ nesting.openers ↔ some start ∈ start.family.openAlone items := by
  rw [← matched, openersOf, List.mem_filter]
  simp [openerFamily]

/-- An end drops nothing exactly if all that is open of the other family was
opened before the block that is closed. -/
theorem report_inner_eq_nil_iff
    {items : List PairingItem}
    {inner outer : List OpenEntry}
    {block : OpenBlock}
    (inOrder : PairingItem.InOrder items)
    (matched : (after false items).Matches items)
    (split : (after false items).entries = inner ++ .block block :: outer)
    (apart : ∀ entry ∈ inner, entry.family ≠ block.start.family) :
    report .outOfOrder inner = [] ↔
      ∀ start : Marker, start.family ≠ block.start.family →
        some start ∈ start.family.openAlone items → start.Before block.start := by
  have openersEq :
      (after false items).openers =
        inner.map OpenEntry.opener ++ some block.start :: outer.map OpenEntry.opener := by
    simp [openers, split, OpenEntry.opener]
  have ordered := pairwise_openers false inOrder
  rw [openersEq, List.pairwise_append, List.pairwise_cons] at ordered
  have member : ∀ start : Marker, some start ∈ (after false items).openers →
      .marker start ∈ items :=
    fun start isOpen => (PairingItem.mem_opened_iff.1 ((openers_sublist _ _).subset isOpen)).1
  simp only [report_eq_nil_iff, ← matched.mem_openers_iff]
  constructor
  · intro noStart start otherFamily isOpen
    rw [openersEq, List.mem_append, List.mem_cons] at isOpen
    rcases isOpen with inInner | itself | inOuter
    · exact absurd inInner (noStart start)
    · obtain rfl := Option.some.inj itself
      exact absurd rfl otherFamily
    · exact ordered.2.1.1 _ inOuter block.start rfl start rfl
  · intro openedBefore start inInner
    have isOpen : some start ∈ (after false items).openers := by
      rw [openersEq]
      exact List.mem_append_left _ inInner
    have blockOpen : some block.start ∈ (after false items).openers := by
      rw [openersEq]
      exact List.mem_append_right _ List.mem_cons_self
    have otherFamily : start.family ≠ block.start.family := by
      obtain ⟨entry, entryMember, openerEq⟩ := List.mem_map.1 inInner
      have entryFamily := apart entry entryMember
      rw [← OpenEntry.openerFamily_opener, openerEq] at entryFamily
      exact entryFamily
    have behind := ordered.2.2 _ inInner _ List.mem_cons_self start rfl block.start rfl
    have before := openedBefore start otherFamily isOpen
    exact inOrder.not_before (member _ isOpen) (member _ blockOpen) before behind

/-- An item is taken without a problem exactly if it fits. -/
theorem step_problems_eq_nil_iff
    {front : List PairingItem}
    {item : PairingItem}
    (inOrder : PairingItem.InOrder front)
    (matched : (after false front).Matches front) :
    ((after false front).step false item).2 = [] ↔ item.Fits front := by
  cases item with
  | plainRegion => simp [step, PairingItem.Fits]
  | marker found =>
      cases keywordEq : found.keyword with
      | macroStart =>
          simp only [step, keywordEq, openBlock, tagProblem, PairingItem.Fits]
          simp [keywordEq]
      | macroEnd =>
          have fitsIff :
              PairingItem.Fits front (.marker found) ↔
                found.family.openAlone front ≠ [] ∧
                  ∀ start, (found.family.openAlone front).head? = some (some start) →
                    ∀ inner : Marker, inner.family ≠ found.family →
                      some inner ∈ inner.family.openAlone front → inner.Before start := by
            constructor
            · exact fun fits => fits found rfl keywordEq
            · rintro fits _ ⟨⟩ _
              exact fits
          rw [fitsIff, ← matched]
          simp only [step, keywordEq]
          rcases close_cases false (after false front) found with
            ⟨apart, closed⟩ | ⟨inner, outer, split, isRegion, apart, closed⟩ |
              ⟨inner, block, outer, split, sameFamily, apart, closed⟩
          · have noOpener : (after false front).openersOf found.family = [] := by
              simpa [openersOf, openers, List.filter_eq_nil_iff] using apart
            simp [closed, noOpener]
          · simp [closed, openersOf_eq split apart isRegion.symm, OpenEntry.opener]
          · rw [closed, openersOf_eq split apart sameFamily]
            rw [← sameFamily] at apart ⊢
            simp [tagProblem, OpenEntry.opener,
              report_inner_eq_nil_iff inOrder matched split apart]

/-- An end that drops nothing leaves the other family as it is. -/
theorem openersOf_close_of_ne
    {nesting : Nesting}
    {stop : Marker}
    {family : MarkerFamily}
    (otherFamily : stop.family ≠ family)
    (noProblem : (nesting.close false stop).2 = []) :
    (nesting.close false stop).1.openersOf family = nesting.openersOf family := by
  rcases close_cases false nesting stop with
    ⟨_, closed⟩ | ⟨inner, outer, split, isRegion, _, closed⟩ |
      ⟨inner, block, outer, split, sameFamily, _, closed⟩
  · rw [closed]
  · have notRegion : MarkerFamily.region ≠ family := isRegion ▸ otherFamily
    simp [closed, openersOf, openers, split, OpenEntry.opener, openerFamily, notRegion]
  · have attached := openers_attach (Nesting.closed false stop inner block) outer nesting.finished
    rw [openers] at attached
    have allPlain : inner.filter (·.block?.isNone) = inner := by
      simp only [closed, List.append_eq_nil_iff] at noProblem
      simpa [report, List.filterMap_eq_nil_iff, List.filter_eq_self] using noProblem.1
    have notOwn : block.start.family ≠ family := sameFamily ▸ otherFamily
    rw [closed, allPlain]
    simp [openersOf, openers, split, attached, OpenEntry.opener, openerFamily, notOwn]

/-- What is taken without a problem is taken as each family takes it alone. -/
theorem Matches.step
    {front : List PairingItem}
    {item : PairingItem}
    (matched : (after false front).Matches front)
    (noProblem : ((after false front).step false item).2 = []) :
    (after false (front ++ [item])).Matches (front ++ [item]) := by
  intro family
  rw [MarkerFamily.openAlone_concat, ← matched, after_concat]
  rcases openersOf_step_cases false (after false front) item family with
    alone | ⟨found, rfl, otherFamily, _⟩
  · exact alone
  · simp only [Nesting.step] at noProblem ⊢
    simp only [MarkerFamily.pairAlone, if_neg otherFamily]
    cases keywordEq : found.keyword with
    | macroStart =>
        simp [openBlock, openersOf, openers, OpenEntry.opener, openerFamily, otherFamily]
    | macroEnd =>
        simp only [keywordEq] at noProblem
        exact openersOf_close_of_ne otherFamily noProblem

theorem matches_after {items : List PairingItem} :
    problemsOf false items = [] → (after false items).Matches items := by
  refine
    PairingItem.takingInduction
      (P := fun taken => problemsOf false taken = [] → (after false taken).Matches taken)
      items ?_ ?_
  · intro _ family
    rfl
  · intro taken item back _ inductionHypothesis noProblems
    rw [problemsOf_concat, List.append_eq_nil_iff] at noProblems
    exact (inductionHypothesis noProblems.1).step noProblems.2

/-- Items are taken without problems exactly if each fits behind those before
it. -/
theorem problemsOf_eq_nil_iff {items : List PairingItem} :
    PairingItem.InOrder items →
      (problemsOf false items = [] ↔
        ∀ front item, front ++ [item] <+: items → item.Fits front) := by
  refine
    PairingItem.takingInduction
      (P := fun taken =>
        PairingItem.InOrder taken →
          (problemsOf false taken = [] ↔
            ∀ front item, front ++ [item] <+: taken → item.Fits front))
      items ?_ ?_
  · simp [problemsOf, run]
  · intro taken item back _ inductionHypothesis inOrder
    have frontOrder := inOrder.of_append_left
    rw [problemsOf_concat, List.append_eq_nil_iff, inductionHypothesis frontOrder]
    constructor
    · intro noProblems front last isPrefix
      rcases List.prefix_concat_iff.1 isPrefix with whole | earlier
      · obtain ⟨rfl, lastEq⟩ := List.append_inj' whole rfl
        obtain rfl := List.singleton_inj.1 lastEq
        have noneBefore := (inductionHypothesis frontOrder).2 noProblems.1
        exact (step_problems_eq_nil_iff frontOrder (matches_after noneBefore)).1 noProblems.2
      · exact noProblems.1 front last earlier
    · intro allFit
      have allFitBefore : ∀ front last, front ++ [last] <+: taken → last.Fits front :=
        fun front last earlier => allFit front last (earlier.trans (List.prefix_append _ _))
      have noneBefore := (inductionHypothesis frontOrder).2 allFitBefore
      refine ⟨allFitBefore, ?_⟩
      apply (step_problems_eq_nil_iff frontOrder (matches_after noneBefore)).2
      exact allFit taken item (List.prefix_refl _)

end Nesting

/-! ## Well bracketed items -/

namespace PairingItem

/-- What has been opened and has no partner yet has its partner later on. -/
theorem WellBracketed.exists_later_stop
    {items front back : List PairingItem}
    {start stop : Marker}
    (wellBracketed : WellBracketed items)
    (inOrder : InOrder items)
    (split : items = front ++ .marker stop :: back)
    (isOpen : some start ∈ start.family.openAlone front)
    (otherFamily : start.family ≠ stop.family) :
    ∃ stop', start.PairsAlone items stop' ∧ stop.Before stop' := by
  subst split
  obtain ⟨member, isStart, noPartner⟩ :=
    (MarkerFamily.mem_openAlone_iff inOrder.of_append_left).1 isOpen
  obtain ⟨stop', paired⟩ :=
    wellBracketed.starts start (List.mem_append_left _ member) isStart
  refine ⟨stop', paired, ?_⟩
  rcases List.mem_append.1 paired.1 with inFront | behind
  · exact absurd ((Marker.pairsAlone_append_iff inOrder inFront).1 paired) (noPartner stop')
  · rcases List.mem_cons.1 behind with itself | inBack
    · obtain rfl := PairingItem.marker.inj itself
      exact absurd paired.2.2.1.symm otherFamily
    · exact inOrder.marker_before inBack

theorem WellBracketed.fits
    {items front : List PairingItem}
    {item : PairingItem}
    (wellBracketed : WellBracketed items)
    (inOrder : InOrder items)
    (isPrefix : front ++ [item] <+: items) :
    item.Fits front := by
  rintro stop rfl isEnd
  obtain ⟨back, joined⟩ := isPrefix
  have split : items = front ++ .marker stop :: back := by simp [← joined]
  have stopMember : .marker stop ∈ items := by simp [split]
  refine ⟨before_eq inOrder split ▸ wellBracketed.ends stop stopMember isEnd, ?_⟩
  intro start innermost inner otherFamily isOpen
  have paired := (Marker.pairsAlone_iff_of_split inOrder split isEnd).2 innermost
  obtain ⟨stop', paired', behind⟩ :=
    wellBracketed.exists_later_stop inOrder split isOpen otherFamily
  have crossFamily : start.family ≠ inner.family := by
    rw [← paired.2.2.1]
    exact otherFamily.symm
  have different : inner ≠ start := by
    rintro rfl
    exact crossFamily rfl
  apply (inOrder.before_or_before paired'.start_mem paired.start_mem different).resolve_right
  intro before
  have within : inner.Before stop := by
    rw [split] at inOrder
    apply inOrder.before_marker
    exact ((MarkerFamily.mem_openAlone_iff inOrder.of_append_left).1 isOpen).1
  exact wellBracketed.uncrossed start stop inner stop' paired paired' crossFamily before within
    behind

/-- Of two pairs that cross, the later one is open when the earlier one ends. -/
theorem mem_openAlone_of_crossing
    {items : List PairingItem}
    {start stop stop' : Marker}
    (inOrder : InOrder items)
    (paired : start.PairsAlone items stop')
    (stopMember : .marker stop ∈ items)
    (within : start.Before stop)
    (behind : stop.Before stop') :
    some start ∈ start.family.openAlone (before items stop) := by
  obtain ⟨back, split⟩ := split_before stopMember
  have splitOrder : InOrder (before items stop ++ .marker stop :: back) := split ▸ inOrder
  apply (MarkerFamily.mem_openAlone_iff splitOrder.of_append_left).2
  refine ⟨(inOrder.mem_before_iff paired.start_mem stopMember).2 within, paired.isStart, ?_⟩
  intro other earlier
  have earlier' : start.PairsAlone items other := by
    rw [split]
    exact (Marker.pairsAlone_append_iff splitOrder earlier.1).2 earlier
  obtain rfl := earlier'.stop_unique inOrder paired
  have before := (inOrder.mem_before_iff paired.1 stopMember).1 earlier.1
  exact inOrder.not_before paired.1 stopMember before behind

/-- Items are well bracketed exactly if each fits and no start is left open. -/
theorem wellBracketed_iff
    {items : List PairingItem}
    (inOrder : InOrder items) :
    WellBracketed items ↔
      (∀ front item, front ++ [item] <+: items → item.Fits front) ∧
        ∀ start : Marker, some start ∉ start.family.openAlone items := by
  constructor
  · intro wellBracketed
    refine ⟨fun front item => wellBracketed.fits inOrder, ?_⟩
    intro start isOpen
    obtain ⟨member, isStart, noPartner⟩ := (MarkerFamily.mem_openAlone_iff inOrder).1 isOpen
    obtain ⟨stop, paired⟩ := wellBracketed.starts start member isStart
    exact noPartner stop paired
  · intro fits
    obtain ⟨allFit, noneOpen⟩ := fits
    have fitsBefore : ∀ stop : Marker, .marker stop ∈ items →
        Fits (before items stop) (.marker stop) := by
      intro stop member
      obtain ⟨back, split⟩ := split_before member
      apply allFit
      exact ⟨back, by rw [List.append_assoc, List.singleton_append, ← split]⟩
    constructor
    · intro stop member isEnd
      exact (fitsBefore stop member stop rfl isEnd).1
    · intro start member isStart
      by_contra noPartner
      apply noneOpen start
      exact (MarkerFamily.mem_openAlone_iff inOrder).2
        ⟨member, isStart, not_exists.1 noPartner⟩
    · intro start stop start' stop' paired paired' otherFamily before within behind
      have isOpen := mem_openAlone_of_crossing inOrder paired' paired.1 within behind
      have innermost := paired.2.2.2
      rw [← paired.2.2.1] at innermost otherFamily
      have opened :=
        (fitsBefore stop paired.1 stop rfl paired.2.1).2 start innermost start'
          otherFamily.symm isOpen
      exact inOrder.not_before paired.start_mem paired'.start_mem before opened

end PairingItem

namespace Document

variable
  {filePath : Text}
  {source : Source}
  {trivia : List Trivia}

/-- A document has no problems exactly if its markers are well bracketed. -/
theorem problems_eq_nil_iff (accepted : Trivia.firstFault? source.text trivia = none) :
    (ofTrivia filePath source trivia .lenient).problems = [] ↔
      PairingItem.WellBracketed (pairingItems source trivia) := by
  have inOrder := inOrder_pairingItems accepted
  rw [problems_ofTrivia, ParseOptions.lenient, List.append_eq_nil_iff,
    PairingItem.wellBracketed_iff inOrder, ← Nesting.problemsOf_eq_nil_iff inOrder,
    Nesting.report_eq_nil_iff]
  apply and_congr_right
  intro noProblems
  apply forall_congr'
  intro start
  rw [← (Nesting.matches_after noProblems).mem_openers_iff]
  rfl

end Document

end MacroRegions
