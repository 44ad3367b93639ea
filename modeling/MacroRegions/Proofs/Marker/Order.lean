import Mathlib.Data.List.Nodup
import MacroRegions.Document.Parse
import MacroRegions.Proofs.Trivia.Shapes

/-!
The order of markers.

Each item that pairing looks at comes from one piece of trivia and lies where that
piece lies. So the markers of a text are in order and apart from each other when its
trivia has no fault, and no marker occurs twice.
-/

namespace MacroRegions

namespace Marker

/-- One marker ends where the other begins or before. -/
def Before (first second : Marker) : Prop :=
  first.position.stop.offset ≤ second.position.start.offset

def Extended (marker : Marker) : Prop :=
  marker.position.start.offset < marker.position.stop.offset

theorem isStart_eq_false_iff {marker : Marker} :
    marker.isStart = false ↔ marker.keyword = .macroEnd := by
  cases keywordEq : marker.keyword <;> simp [isStart, keywordEq]

end Marker

namespace PairingItem

def marker? : PairingItem → Option Marker
  | plainRegion => none
  | marker found => some found

def ofTrivia? (source : Source) (item : Trivia) : Option PairingItem :=
  (Candidate.ofTrivia? source item).bind ofCandidate?

theorem position_of_ofTrivia?_eq_some
    {source : Source}
    {item : Trivia}
    {found : Marker}
    (isMarker : ofTrivia? source item = some (marker found)) :
    found.position = source.positionOf item.span := by
  obtain ⟨candidate, candidateEq, classified⟩ := Option.bind_eq_some_iff.1 isMarker
  have positionEq : candidate.position = source.positionOf item.span := by
    unfold Candidate.ofTrivia? at candidateEq
    obtain ⟨piece, _, rest⟩ := Option.bind_eq_some_iff.1 candidateEq
    obtain ⟨content, _, candidateEq⟩ := Option.bind_eq_some_iff.1 rest
    obtain rfl := Option.some.inj candidateEq
    rfl
  unfold ofCandidate? at classified
  split at classified
  · simp at classified
  · obtain ⟨_, classifiedEq, rfl⟩ : ∃ m, candidate.classify? = some m ∧ m = found := by
      simpa using classified
    unfold Candidate.classify? at classifiedEq
    obtain ⟨keyword, _, markerEq⟩ := Option.bind_eq_some_iff.1 classifiedEq
    obtain rfl := Option.some.inj markerEq
    exact positionEq

end PairingItem

namespace Source

theorem start_offset_positionOf
    {source : Source}
    {item : Trivia}
    (holds : item.Holds source.text) :
    (source.positionOf item.span).start.offset = item.span.start := by
  have inOrder := holds.start_le_stop
  have within := holds.stop_le
  simp only [positionOf, pointAt, source.size_eq]
  omega

theorem stop_offset_positionOf
    {source : Source}
    {item : Trivia}
    (holds : item.Holds source.text) :
    (source.positionOf item.span).stop.offset = item.span.stop := by
  have within := holds.stop_le
  simp only [positionOf, pointAt, source.size_eq]
  omega

end Source

def PairingItem.markers (items : List PairingItem) : List Marker :=
  items.filterMap PairingItem.marker?

theorem PairingItem.mem_markers_iff {items : List PairingItem} {found : Marker} :
    found ∈ markers items ↔ .marker found ∈ items := by
  constructor
  · intro member
    obtain ⟨item, itemMember, itemEq⟩ := List.mem_filterMap.1 member
    cases item with
    | plainRegion => simp [marker?] at itemEq
    | marker other =>
        obtain rfl : other = found := by simpa [marker?] using itemEq
        exact itemMember
  · intro member
    exact List.mem_filterMap.2 ⟨_, member, rfl⟩

theorem PairingItem.markers_append (first second : List PairingItem) :
    markers (first ++ second) = markers first ++ markers second :=
  List.filterMap_append

structure PairingItem.InOrder (items : List PairingItem) : Prop where
  before : (markers items).Pairwise Marker.Before
  extended : ∀ found ∈ markers items, found.Extended

namespace PairingItem.InOrder

/-- Markers in order are at different places. -/
theorem nodup_positions {items : List PairingItem} (inOrder : InOrder items) :
    ((markers items).map (·.position)).Nodup := by
  rw [List.Nodup, List.pairwise_map]
  refine (List.Pairwise.and_mem.1 inOrder.before).imp ?_
  rintro first second ⟨firstMember, _, before⟩ positionEq
  have extended := inOrder.extended first firstMember
  unfold Marker.Before Marker.Extended at *
  rw [positionEq] at before extended
  omega

theorem nodup {items : List PairingItem} (inOrder : InOrder items) : (markers items).Nodup :=
  inOrder.nodup_positions.of_map

/-- Markers in order are told apart by where they are. -/
theorem eq_of_position_eq
    {items : List PairingItem}
    {first second : Marker}
    (inOrder : InOrder items)
    (firstMember : first ∈ markers items)
    (secondMember : second ∈ markers items)
    (positionEq : first.position = second.position) :
    first = second :=
  List.inj_on_of_nodup_map inOrder.nodup_positions firstMember secondMember positionEq

/-- What stands before a marker is told by the marker. -/
theorem front_unique
    {items front back front' back' : List PairingItem}
    {found : Marker}
    (inOrder : InOrder items)
    (split : items = front ++ .marker found :: back)
    (split' : items = front' ++ .marker found :: back') :
    front = front' := by
  have different := inOrder.nodup
  have markersEq : markers items = markers front ++ found :: markers back := by
    simp [split, markers, marker?]
  rw [markersEq, List.nodup_middle, List.nodup_cons, List.mem_append, not_or] at different
  have absent : ∀ part : List PairingItem, found ∉ markers part → .marker found ∉ part := by
    intro part notMarker member
    exact notMarker (List.mem_filterMap.2 ⟨_, member, rfl⟩)
  exact
    ((List.append_cons_inj_of_notMem (absent front different.1.1)
      (absent back different.1.2)).1 (split.symm.trans split')).1

end PairingItem.InOrder

namespace Document

theorem pairingItems_eq_filterMap (source : Source) (trivia : List Trivia) :
    pairingItems source trivia = trivia.filterMap (PairingItem.ofTrivia? source) := by
  rw [pairingItems, candidates, List.filterMap_filterMap]
  rfl

/-- The markers of a text whose trivia has no fault are in order. -/
theorem inOrder_pairingItems
    {source : Source}
    {trivia : List Trivia}
    (accepted : Trivia.firstFault? source.text trivia = none) :
    PairingItem.InOrder (pairingItems source trivia) := by
  obtain ⟨holds, ordered⟩ := Trivia.firstFault?_eq_none_iff.1 accepted
  have origin :
      ∀ item ∈ trivia, ∀ found,
        (PairingItem.ofTrivia? source item).bind PairingItem.marker? = some found →
          found.position.start.offset = item.span.start ∧
            found.position.stop.offset = item.span.stop := by
    intro item member found isMarker
    obtain ⟨pairingItem, itemEq, markerEq⟩ := Option.bind_eq_some_iff.1 isMarker
    cases pairingItem with
    | plainRegion => simp [PairingItem.marker?] at markerEq
    | marker other =>
        obtain rfl : other = found := by simpa [PairingItem.marker?] using markerEq
        rw [PairingItem.position_of_ofTrivia?_eq_some itemEq]
        exact
          ⟨Source.start_offset_positionOf (holds item member),
            Source.stop_offset_positionOf (holds item member)⟩
  rw [pairingItems_eq_filterMap]
  constructor
  · rw [PairingItem.markers, List.filterMap_filterMap, List.pairwise_filterMap]
    refine (List.Pairwise.and_mem.1 ordered).imp ?_
    rintro first second ⟨firstMember, secondMember, before⟩ a aEq b bEq
    have firstAt := origin first firstMember a aEq
    have secondAt := origin second secondMember b bEq
    unfold Trivia.Before at before
    unfold Marker.Before
    omega
  · intro found member
    rw [PairingItem.markers, List.filterMap_filterMap] at member
    obtain ⟨item, itemMember, isMarker⟩ := List.mem_filterMap.1 member
    have at' := origin item itemMember found isMarker
    have nonempty := (holds item itemMember).start_lt_stop
    unfold Marker.Extended
    omega

end Document

end MacroRegions
