import MacroRegions.Proofs.Nesting.Blocks

/-!
One family of markers, paired alone.

A single stack pairs the starts and ends of one family. A start is on its stack
from where it is taken up to its partner, so the stack holds the starts that
have no partner yet, the last one first. What is open of a family while both are
paired together differs from that stack only by what an end of the other family
drops.
-/

namespace MacroRegions

namespace MarkerFamily

/-- Takes one item for one family alone. Items of the other family are passed
over. -/
def pairAlone
    (family : MarkerFamily)
    (openers : List (Option Marker)) :
    PairingItem → List (Option Marker)
  | .plainRegion => if family = .region then none :: openers else openers
  | .marker found =>
    if found.family = family then
      match found.keyword with
      | .macroStart => some found :: openers
      | .macroEnd => openers.tail
    else
      openers

/-- The openers that are left open by items when one family is paired alone by
a single stack, the innermost first. -/
def openAlone (family : MarkerFamily) (items : List PairingItem) : List (Option Marker) :=
  items.foldl family.pairAlone []

theorem openAlone_concat
    (family : MarkerFamily)
    (taken : List PairingItem)
    (item : PairingItem) :
    family.openAlone (taken ++ [item]) = family.pairAlone (family.openAlone taken) item := by
  simp [openAlone]

end MarkerFamily

def PairingItem.before (items : List PairingItem) (found : Marker) : List PairingItem :=
  items.takeWhile (· ≠ .marker found)

theorem PairingItem.split_before
    {items : List PairingItem}
    {found : Marker}
    (member : .marker found ∈ items) :
    ∃ back, items = before items found ++ .marker found :: back := by
  have split :=
    List.takeWhile_append_dropWhile (p := fun item : PairingItem => item ≠ .marker found)
      (l := items)
  cases dropped : items.dropWhile (· ≠ .marker found) with
  | nil =>
      rw [dropped, List.append_nil] at split
      rw [← split] at member
      have passes := List.all_eq_true.1 List.all_takeWhile _ member
      simp at passes
  | cons item back =>
      have headEq :=
        List.head?_dropWhile_not (fun item : PairingItem => item ≠ .marker found) items
      rw [dropped] at headEq split
      obtain rfl : item = .marker found := by simpa using headEq
      exact ⟨back, split.symm⟩

theorem PairingItem.before_eq
    {items front back : List PairingItem}
    {found : Marker}
    (inOrder : InOrder items)
    (split : items = front ++ .marker found :: back) :
    before items found = front := by
  have member : .marker found ∈ items := by simp [split]
  obtain ⟨rest, split'⟩ := split_before member
  exact inOrder.front_unique split' split

/-- The single stack of its family gives a start marker this end marker. -/
def Marker.PairsAlone (items : List PairingItem) (start stop : Marker) : Prop :=
  .marker stop ∈ items ∧
    stop.keyword = .macroEnd ∧
    stop.family = start.family ∧
    (start.family.openAlone (PairingItem.before items stop)).head? = some (some start)

instance (items : List PairingItem) (start stop : Marker) :
    Decidable (start.PairsAlone items stop) :=
  inferInstanceAs (Decidable (_ ∧ _))

/-- The openers of a marker's family when the marker is taken. -/
def Nesting.openBefore
    (strict : Bool)
    (items : List PairingItem)
    (found : Marker) :
    List (Option Marker) :=
  (after strict (PairingItem.before items found)).openersOf found.family

/-! ## The order of items -/

namespace PairingItem

namespace InOrder

theorem of_append_left
    {front back : List PairingItem}
    (inOrder : InOrder (front ++ back)) :
    InOrder front := by
  have ordered := inOrder.before
  rw [markers_append, List.pairwise_append] at ordered
  refine ⟨ordered.1, ?_⟩
  intro found member
  apply inOrder.extended
  rw [markers_append]
  exact List.mem_append_left _ member

theorem before_marker
    {front back : List PairingItem}
    {found other : Marker}
    (inOrder : InOrder (front ++ .marker other :: back))
    (member : .marker found ∈ front) :
    found.Before other := by
  have ordered := inOrder.before
  rw [markers_append, List.pairwise_append] at ordered
  apply ordered.2.2 found (mem_markers_iff.2 member)
  exact mem_markers_iff.2 List.mem_cons_self

theorem marker_before
    {front back : List PairingItem}
    {found other : Marker}
    (inOrder : InOrder (front ++ .marker other :: back))
    (member : .marker found ∈ back) :
    other.Before found := by
  have ordered := inOrder.before
  rw [markers_append, List.pairwise_append] at ordered
  exact (List.pairwise_cons.1 ordered.2.1).1 found (mem_markers_iff.2 member)

theorem not_before
    {items : List PairingItem}
    {found other : Marker}
    (inOrder : InOrder items)
    (member : .marker found ∈ items)
    (otherMember : .marker other ∈ items)
    (before : found.Before other) :
    ¬other.Before found := by
  have extended := inOrder.extended found (mem_markers_iff.2 member)
  have otherExtended := inOrder.extended other (mem_markers_iff.2 otherMember)
  unfold Marker.Before Marker.Extended at *
  omega

theorem notMem_front
    {front back : List PairingItem}
    {found : Marker}
    (inOrder : InOrder (front ++ .marker found :: back)) :
    .marker found ∉ front := by
  intro member
  have before := inOrder.before_marker member
  exact inOrder.not_before (by simp) (by simp) before before

/-- A marker comes before another one among items exactly if it lies before it
in the text. -/
theorem mem_before_iff
    {items : List PairingItem}
    {found other : Marker}
    (inOrder : InOrder items)
    (member : .marker found ∈ items)
    (otherMember : .marker other ∈ items) :
    .marker found ∈ PairingItem.before items other ↔ found.Before other := by
  obtain ⟨back, split⟩ := split_before otherMember
  have splitOrder : InOrder (PairingItem.before items other ++ .marker other :: back) :=
    split ▸ inOrder
  constructor
  · exact splitOrder.before_marker
  · intro before
    have notBefore := inOrder.not_before member otherMember before
    rw [split, List.mem_append, List.mem_cons] at member
    rcases member with inFront | itself | inBack
    · exact inFront
    · obtain rfl := PairingItem.marker.inj itself
      exact absurd before notBefore
    · exact absurd (splitOrder.marker_before inBack) notBefore

theorem before_or_before
    {items : List PairingItem}
    {found other : Marker}
    (inOrder : InOrder items)
    (member : .marker found ∈ items)
    (otherMember : .marker other ∈ items)
    (different : found ≠ other) :
    found.Before other ∨ other.Before found := by
  obtain ⟨front, back, rfl⟩ := List.append_of_mem otherMember
  rw [List.mem_append, List.mem_cons] at member
  rcases member with inFront | itself | inBack
  · exact Or.inl (inOrder.before_marker inFront)
  · exact absurd (PairingItem.marker.inj itself) different
  · exact Or.inr (inOrder.marker_before inBack)

end InOrder

private theorem before_append
    {front back : List PairingItem}
    {found : Marker}
    (inOrder : InOrder (front ++ back))
    (member : .marker found ∈ front) :
    before (front ++ back) found = before front found := by
  obtain ⟨middle, split⟩ := split_before member
  have splitAll : front ++ back = before front found ++ .marker found :: (middle ++ back) := by
    rw [← List.cons_append, ← List.append_assoc, ← split]
  exact before_eq inOrder splitAll

def opens : PairingItem → List (Option Marker)
  | plainRegion => [none]
  | marker found =>
    match found.keyword with
    | .macroStart => [some found]
    | .macroEnd => []

/-- Everything that items open, the last one first. -/
def opened (items : List PairingItem) : List (Option Marker) :=
  items.reverse.flatMap opens

private theorem opened_concat (taken : List PairingItem) (item : PairingItem) :
    opened (taken ++ [item]) = item.opens ++ opened taken := by
  simp [opened]

theorem mem_opened_iff {items : List PairingItem} {start : Marker} :
    some start ∈ opened items ↔ .marker start ∈ items ∧ start.keyword = .macroStart := by
  simp only [opened, List.mem_flatMap, List.mem_reverse]
  constructor
  · intro isOpened
    obtain ⟨item, member, inOpens⟩ := isOpened
    cases item with
    | plainRegion => simp [opens] at inOpens
    | marker found =>
        cases keywordEq : found.keyword with
        | macroStart =>
            obtain rfl : start = found := by simpa [opens, keywordEq] using inOpens
            exact ⟨member, keywordEq⟩
        | macroEnd => simp [opens, keywordEq] at inOpens
  · intro isStart
    exact ⟨_, isStart.1, by simp [opens, isStart.2]⟩

/-- The one opener stands behind the other. Plain regions stand anywhere. -/
def OpenedAfter (later earlier : Option Marker) : Prop :=
  ∀ start ∈ later, ∀ start' ∈ earlier, start'.Before start

private theorem pairwise_opened {items : List PairingItem} (inOrder : InOrder items) :
    (opened items).Pairwise OpenedAfter := by
  refine
    takingInduction (P := fun taken => (opened taken).Pairwise OpenedAfter) items
      List.Pairwise.nil ?_
  intro taken item back split takenOrdered
  rw [opened_concat]
  cases item with
  | plainRegion =>
      refine List.pairwise_cons.2 ⟨?_, takenOrdered⟩
      intro opener _ start isStart
      simp at isStart
  | marker found =>
      simp only [opens]
      cases found.keyword with
      | macroEnd => exact takenOrdered
      | macroStart =>
          refine List.pairwise_cons.2 ⟨?_, takenOrdered⟩
          intro opener openerMember start isFound start' isOpener
          obtain rfl : found = start := by simpa using isFound
          obtain rfl : opener = some start' := by simpa using isOpener
          rw [← split] at inOrder
          exact inOrder.before_marker (mem_opened_iff.1 openerMember).1

end PairingItem

namespace MarkerFamily

private theorem openAlone_sublist (family : MarkerFamily) (items : List PairingItem) :
    (family.openAlone items).Sublist (PairingItem.opened items) := by
  refine
    PairingItem.takingInduction
      (P := fun taken => (family.openAlone taken).Sublist (PairingItem.opened taken)) items
      (List.Sublist.refl _) ?_
  intro taken item back _ sublist
  rw [openAlone_concat, PairingItem.opened_concat]
  cases item with
  | plainRegion =>
      simp only [pairAlone, PairingItem.opens]
      split
      · exact sublist.cons_cons none
      · exact sublist.cons none
  | marker found =>
      simp only [pairAlone, PairingItem.opens]
      split
      · cases found.keyword with
        | macroStart => exact sublist.cons_cons (some found)
        | macroEnd => exact (List.tail_sublist _).trans sublist
      · exact sublist.trans (List.sublist_append_right _ _)

private theorem openerFamily_of_mem_openAlone
    {family : MarkerFamily}
    {items : List PairingItem}
    {opener : Option Marker}
    (member : opener ∈ family.openAlone items) :
    openerFamily opener = family := by
  revert member
  refine
    PairingItem.takingInduction
      (P := fun taken => opener ∈ family.openAlone taken → openerFamily opener = family) items
      (by simp [openAlone]) ?_
  intro taken item back _ inTaken member
  rw [openAlone_concat] at member
  cases item with
  | plainRegion =>
      simp only [pairAlone] at member
      split at member
      · rename_i isRegion
        rcases List.mem_cons.1 member with rfl | below
        · exact isRegion.symm
        · exact inTaken below
      · exact inTaken member
  | marker found =>
      simp only [pairAlone] at member
      split at member
      · rename_i own
        cases keywordEq : found.keyword with
        | macroStart =>
            simp only [keywordEq] at member
            rcases List.mem_cons.1 member with rfl | below
            · exact own
            · exact inTaken below
        | macroEnd =>
            simp only [keywordEq] at member
            exact inTaken (List.mem_of_mem_tail member)
      · exact inTaken member

private theorem pairwise_openAlone
    {items : List PairingItem}
    (family : MarkerFamily)
    (inOrder : PairingItem.InOrder items) :
    (family.openAlone items).Pairwise PairingItem.OpenedAfter :=
  (PairingItem.pairwise_opened inOrder).sublist (family.openAlone_sublist items)

end MarkerFamily

namespace Marker.PairsAlone

variable {items : List PairingItem} {start stop : Marker}

private theorem start_opened (paired : start.PairsAlone items stop) :
    some start ∈ PairingItem.opened (PairingItem.before items stop) :=
  (MarkerFamily.openAlone_sublist _ _).subset (List.mem_of_head? paired.2.2.2)

theorem start_mem_before (paired : start.PairsAlone items stop) :
    .marker start ∈ PairingItem.before items stop :=
  (PairingItem.mem_opened_iff.1 paired.start_opened).1

theorem start_mem (paired : start.PairsAlone items stop) : .marker start ∈ items :=
  List.takeWhile_subset _ paired.start_mem_before

theorem isStart (paired : start.PairsAlone items stop) : start.keyword = .macroStart :=
  (PairingItem.mem_opened_iff.1 paired.start_opened).2

theorem before (paired : start.PairsAlone items stop) (inOrder : PairingItem.InOrder items) :
    start.Before stop :=
  (inOrder.mem_before_iff paired.start_mem paired.1).1 paired.start_mem_before

end Marker.PairsAlone

namespace Marker

theorem pairsAlone_iff_of_split
    {items front back : List PairingItem}
    {start stop : Marker}
    (inOrder : PairingItem.InOrder items)
    (split : items = front ++ .marker stop :: back)
    (isEnd : stop.keyword = .macroEnd) :
    start.PairsAlone items stop ↔
      (stop.family.openAlone front).head? = some (some start) := by
  have member : .marker stop ∈ items := by simp [split]
  simp only [PairsAlone, PairingItem.before_eq inOrder split, member, isEnd, true_and]
  constructor
  · intro paired
    exact paired.1 ▸ paired.2
  · intro innermost
    have sameFamily : start.family = stop.family :=
      MarkerFamily.openerFamily_of_mem_openAlone (List.mem_of_head? innermost)
    exact ⟨sameFamily.symm, sameFamily ▸ innermost⟩

theorem pairsAlone_append_iff
    {front back : List PairingItem}
    {start stop : Marker}
    (inOrder : PairingItem.InOrder (front ++ back))
    (member : .marker stop ∈ front) :
    start.PairsAlone (front ++ back) stop ↔ start.PairsAlone front stop := by
  simp only [PairsAlone, PairingItem.before_append inOrder member, List.mem_append, member,
    true_or]

theorem pairsAlone_concat_iff
    {taken : List PairingItem}
    {item : PairingItem}
    {start stop : Marker}
    (inOrder : PairingItem.InOrder (taken ++ [item])) :
    start.PairsAlone (taken ++ [item]) stop ↔
      start.PairsAlone taken stop ∨
        item = .marker stop ∧ stop.keyword = .macroEnd ∧ stop.family = start.family ∧
          (start.family.openAlone taken).head? = some (some start) := by
  by_cases member : .marker stop ∈ taken
  · have isOther : item ≠ .marker stop := by
      rintro rfl
      exact inOrder.notMem_front member
    simp [pairsAlone_append_iff inOrder member, isOther]
  · have notPaired : ¬start.PairsAlone taken stop := fun paired => member paired.1
    by_cases isItem : item = .marker stop
    · subst isItem
      have beforeEq : PairingItem.before (taken ++ [.marker stop]) stop = taken :=
        PairingItem.before_eq inOrder rfl
      simp [PairsAlone, beforeEq, member]
    · have absent : .marker stop ∉ taken ++ [item] := by
        simp [member, Ne.symm isItem]
      simp [PairsAlone, absent, member, isItem]

/-- Only an end of its own family gives a start a partner. -/
theorem pairsAlone_concat_iff_of_not_end
    {taken : List PairingItem}
    {item : PairingItem}
    {start stop : Marker}
    (inOrder : PairingItem.InOrder (taken ++ [item]))
    (notEnd : ∀ stop, item = .marker stop →
      stop.keyword = .macroEnd → stop.family ≠ start.family) :
    start.PairsAlone (taken ++ [item]) stop ↔ start.PairsAlone taken stop := by
  rw [pairsAlone_concat_iff inOrder]
  apply or_iff_left
  intro isEnd
  exact notEnd stop isEnd.1 isEnd.2.1 isEnd.2.2.1

end Marker

namespace MarkerFamily

theorem mem_tail_openAlone_iff
    {items : List PairingItem}
    {family : MarkerFamily}
    {start : Marker}
    (inOrder : PairingItem.InOrder items) :
    some start ∈ (family.openAlone items).tail ↔
      some start ∈ family.openAlone items ∧
        (family.openAlone items).head? ≠ some (some start) := by
  have ordered := family.pairwise_openAlone inOrder
  have members := (family.openAlone_sublist items).subset
  cases openersEq : family.openAlone items with
  | nil => simp
  | cons opener below =>
      rw [openersEq] at ordered members
      simp only [List.tail_cons, List.mem_cons, List.head?_cons, ne_eq, Option.some.injEq]
      constructor
      · intro inBelow
        refine ⟨Or.inr inBelow, ?_⟩
        rintro rfl
        have before := (List.pairwise_cons.1 ordered).1 _ inBelow start rfl start rfl
        have member := (PairingItem.mem_opened_iff.1 (members List.mem_cons_self)).1
        exact inOrder.not_before member member before before
      · intro isBelow
        exact isBelow.1.resolve_left fun isOpener => isBelow.2 isOpener.symm

/-- The single stack of a start's family holds the start exactly until the
start has a partner. -/
theorem mem_openAlone_iff
    {items : List PairingItem}
    {start : Marker}
    (inOrder : PairingItem.InOrder items) :
    some start ∈ start.family.openAlone items ↔
      .marker start ∈ items ∧ start.keyword = .macroStart ∧
        ∀ stop, ¬start.PairsAlone items stop := by
  revert inOrder
  refine
    PairingItem.takingInduction
      (P := fun taken =>
        PairingItem.InOrder taken →
          (some start ∈ start.family.openAlone taken ↔
            .marker start ∈ taken ∧ start.keyword = .macroStart ∧
              ∀ stop, ¬start.PairsAlone taken stop))
      items (by simp [openAlone]) ?_
  intro taken item back _ inductionHypothesis inOrder
  have memIff := inductionHypothesis inOrder.of_append_left
  simp only [openAlone_concat, List.mem_append, List.mem_singleton]
  cases item with
  | plainRegion =>
      have sameOpeners :
          some start ∈ start.family.pairAlone (start.family.openAlone taken) .plainRegion ↔
            some start ∈ start.family.openAlone taken := by
        simp only [pairAlone]
        split <;> simp
      simp [Marker.pairsAlone_concat_iff_of_not_end inOrder, sameOpeners, memIff]
  | marker found =>
      by_cases own : found.family = start.family
      · cases keywordEq : found.keyword with
        | macroStart =>
            have samePartners : ∀ stop,
                start.PairsAlone (taken ++ [.marker found]) stop ↔ start.PairsAlone taken stop := by
              intro stop
              apply Marker.pairsAlone_concat_iff_of_not_end inOrder
              rintro stop ⟨⟩
              simp [keywordEq]
            simp only [samePartners, pairAlone, own, if_true, keywordEq, List.mem_cons, memIff,
              PairingItem.marker.injEq, Option.some.injEq]
            by_cases same : start = found
            · have notPaired : ∀ stop, ¬start.PairsAlone taken stop := by
                intro stop paired
                rw [← same] at inOrder
                exact inOrder.notMem_front paired.start_mem
              rw [← same] at keywordEq
              simp [← same, keywordEq, notPaired]
            · simp [same]
        | macroEnd =>
            have notStart : start.keyword = .macroStart → start ≠ found := by
              rintro isStart rfl
              simp [isStart] at keywordEq
            simp only [Marker.pairsAlone_concat_iff inOrder, pairAlone, own, if_true, keywordEq,
              mem_tail_openAlone_iff inOrder.of_append_left, memIff, PairingItem.marker.injEq]
            constructor
            · rintro ⟨⟨member, isStart, noPartner⟩, notInnermost⟩
              refine ⟨Or.inl member, isStart, ?_⟩
              rintro stop (paired | ⟨_, _, _, innermost⟩)
              · exact noPartner stop paired
              · exact notInnermost innermost
            · rintro ⟨member, isStart, noPartner⟩
              refine ⟨⟨member.resolve_right (notStart isStart), isStart, ?_⟩, ?_⟩
              · exact fun stop paired => noPartner stop (Or.inl paired)
              · exact fun innermost => noPartner found (Or.inr ⟨rfl, keywordEq, own, innermost⟩)
      · have notFound : start ≠ found := by
          rintro rfl
          exact own rfl
        have samePartners : ∀ stop,
            start.PairsAlone (taken ++ [.marker found]) stop ↔ start.PairsAlone taken stop := by
          intro stop
          apply Marker.pairsAlone_concat_iff_of_not_end inOrder
          rintro stop ⟨⟩ _
          exact own
        simp [samePartners, pairAlone, own, memIff, notFound]

end MarkerFamily

namespace Marker.PairsAlone

private theorem notMem_before
    {items : List PairingItem}
    {start stop stop' : Marker}
    (inOrder : PairingItem.InOrder items)
    (paired : start.PairsAlone items stop)
    (paired' : start.PairsAlone items stop') :
    .marker stop ∉ PairingItem.before items stop' := by
  intro earlier
  obtain ⟨back, split⟩ := PairingItem.split_before paired'.1
  have splitOrder :
      PairingItem.InOrder (PairingItem.before items stop' ++ .marker stop' :: back) :=
    split ▸ inOrder
  have splitPaired :
      start.PairsAlone (PairingItem.before items stop' ++ .marker stop' :: back) stop :=
    split ▸ paired
  have isOpen := List.mem_of_head? paired'.2.2.2
  apply ((MarkerFamily.mem_openAlone_iff splitOrder.of_append_left).1 isOpen).2.2 stop
  exact (pairsAlone_append_iff splitOrder earlier).1 splitPaired

/-- A start has one partner at most. -/
theorem stop_unique
    {items : List PairingItem}
    {start stop stop' : Marker}
    (inOrder : PairingItem.InOrder items)
    (paired : start.PairsAlone items stop)
    (paired' : start.PairsAlone items stop') :
    stop = stop' := by
  by_contra different
  rcases inOrder.before_or_before paired.1 paired'.1 different with before | before
  · apply notMem_before inOrder paired paired'
    exact (inOrder.mem_before_iff paired.1 paired'.1).2 before
  · apply notMem_before inOrder paired' paired
    exact (inOrder.mem_before_iff paired'.1 paired.1).2 before

end Marker.PairsAlone

/-! ## Both families together -/

namespace Nesting

private theorem openers_close_sublist (strict : Bool) (nesting : Nesting) (stop : Marker) :
    (nesting.close strict stop).1.openers.Sublist nesting.openers := by
  rcases close_cases strict nesting stop with
    ⟨_, closed⟩ | ⟨inner, outer, split, _, _, closed⟩ | ⟨inner, block, outer, split, _, _, closed⟩
  · rw [closed]
  · rw [closed, openers, openers, split]
    apply List.Sublist.map
    exact List.Sublist.append (List.Sublist.refl _) (List.sublist_cons_self _ _)
  · have attached := openers_attach (Nesting.closed strict stop inner block) outer nesting.finished
    rw [openers] at attached
    rw [closed, openers, openers, split, List.map_append, List.map_append, attached]
    apply List.Sublist.append
    · exact List.Sublist.map _ List.filter_sublist
    · exact List.sublist_cons_self _ _

theorem openers_sublist (strict : Bool) (items : List PairingItem) :
    (after strict items).openers.Sublist (PairingItem.opened items) := by
  refine
    PairingItem.takingInduction
      (P := fun taken => (after strict taken).openers.Sublist (PairingItem.opened taken)) items
      (List.Sublist.refl _) ?_
  intro taken item back _ sublist
  rw [after_concat, PairingItem.opened_concat]
  cases item with
  | plainRegion => exact sublist.cons_cons none
  | marker found =>
      simp only [step, PairingItem.opens]
      cases found.keyword with
      | macroStart => exact sublist.cons_cons (some found)
      | macroEnd => exact (openers_close_sublist strict _ found).trans sublist

theorem pairwise_openers
    {items : List PairingItem}
    (strict : Bool)
    (inOrder : PairingItem.InOrder items) :
    (after strict items).openers.Pairwise PairingItem.OpenedAfter :=
  (PairingItem.pairwise_opened inOrder).sublist (openers_sublist strict items)

/-- A step does to the openers of one family what it does when the family is
paired alone, but an end of the other family may drop some. -/
theorem openersOf_step_cases
    (strict : Bool)
    (nesting : Nesting)
    (item : PairingItem)
    (family : MarkerFamily) :
    (nesting.step strict item).1.openersOf family =
        family.pairAlone (nesting.openersOf family) item ∨
      ∃ found,
        item = .marker found ∧
          found.family ≠ family ∧
          ((nesting.step strict item).1.openersOf family).Sublist
            (nesting.openersOf family) := by
  cases item with
  | plainRegion =>
      left
      cases family <;>
        simp [step, openersOf, openers, MarkerFamily.pairAlone, OpenEntry.opener, openerFamily]
  | marker found =>
      cases keywordEq : found.keyword with
      | macroStart =>
          left
          by_cases own : found.family = family
          · simp [step, keywordEq, openBlock, openersOf, openers, MarkerFamily.pairAlone,
              OpenEntry.opener, openerFamily, own]
          · simp [step, keywordEq, openBlock, openersOf, openers, MarkerFamily.pairAlone,
              OpenEntry.opener, openerFamily, own]
      | macroEnd =>
          have closes := closes_close strict nesting found
          simp only [step, keywordEq, MarkerFamily.pairAlone]
          generalize nesting.close strict found = result at closes
          obtain ⟨next, problems⟩ := result
          simp only at closes ⊢
          by_cases own : found.family = family
          · left
            rw [if_pos own, ← own]
            cases closes with
            | nothing noOpener same => rw [same, noOpener, List.tail_nil]
            | plainRegion opened _ _ => rw [opened, List.tail_cons]
            | block start front back _ opened _ _ _ _ => rw [opened, List.tail_cons]
          · right
            refine ⟨found, rfl, own, ?_⟩
            cases closes with
            | nothing _ same => rw [same]
            | plainRegion _ others _ => exact others family (Ne.symm own)
            | block start front back _ _ others _ _ _ => exact others family (Ne.symm own)

theorem meets_openBefore
    {strict : Bool}
    {items : List PairingItem}
    {stop : Marker}
    (member : .marker stop ∈ items)
    (isEnd : stop.keyword = .macroEnd) :
    Meets strict items stop (openBefore strict items stop) := by
  obtain ⟨back, split⟩ := PairingItem.split_before member
  exact ⟨_, back, split, isEnd, rfl⟩

end Nesting

end MacroRegions
