import Mathlib.Algebra.GroupWithZero.Nat
import MacroRegions.Diagnostics
import MacroRegions.Proofs.Nesting.OneFamily

/-!
No marker is lost and none is used twice.

Every start marker is the start of one block. An end marker has one of three fates: it
ends one block, it is reported once, or it closes one plain region. Which of them it
is depends on the innermost opener of its family. Plain regions have no blocks, so
those that are closed are counted.
-/

namespace MacroRegions

namespace Nesting

def plainRegions (nesting : Nesting) : Nat :=
  nesting.openers.count none

private theorem count_opener_plainRegions (entries : List OpenEntry) :
    ((entries.filter (·.block?.isNone)).map OpenEntry.opener).count none =
      (entries.map OpenEntry.opener).count none := by
  induction entries with
  | nil => rfl
  | cons entry rest inductionHypothesis =>
      cases entry with
      | plainRegion =>
          rw [List.filter_cons_of_pos rfl]
          simp [OpenEntry.opener, inductionHypothesis]
      | block opened =>
          rw [List.filter_cons_of_neg Bool.false_ne_true]
          simp [OpenEntry.opener, inductionHypothesis]

/-- An end closes one plain region if this is the innermost of its family, and
no other plain region. -/
theorem plainRegions_close (strict : Bool) (nesting : Nesting) (stop : Marker) :
    nesting.plainRegions =
      (nesting.close strict stop).1.plainRegions +
        if (nesting.openersOf stop.family).head? = some none then 1 else 0 := by
  rcases close_cases strict nesting stop with
    ⟨apart, closed⟩ | ⟨inner, outer, split, isRegion, apart, closed⟩ |
      ⟨inner, block, outer, split, sameFamily, apart, closed⟩
  · have noOpener : nesting.openersOf stop.family = [] := by
      simpa [openersOf, openers, List.filter_eq_nil_iff] using apart
    simp [closed, noOpener]
  · rw [closed, openersOf_eq split apart isRegion.symm]
    simp only [plainRegions, openers, split, OpenEntry.opener, List.map_append, List.map_cons,
      List.count_append, List.count_cons_self, List.head?_cons, if_true]
    omega
  · have attached := openers_attach (Nesting.closed strict stop inner block) outer nesting.finished
    rw [openers] at attached
    rw [closed, openersOf_eq split apart sameFamily]
    simp [plainRegions, openers, split, attached, count_opener_plainRegions, OpenEntry.opener]

private theorem plainRegions_step_marker_le (strict : Bool) (nesting : Nesting) (found : Marker) :
    (nesting.step strict (.marker found)).1.plainRegions ≤ nesting.plainRegions := by
  cases keywordEq : found.keyword with
  | macroStart => simp [step, keywordEq, openBlock, plainRegions, openers, OpenEntry.opener]
  | macroEnd =>
      simp only [step, keywordEq]
      rw [plainRegions_close strict nesting found]
      exact Nat.le_add_right _ _

def plainRegionsClosedBy
    (strict : Bool)
    (items : List PairingItem)
    (found : Marker) :
    Nat :=
  let front := PairingItem.before items found
  (after strict front).plainRegions - (after strict (front ++ [.marker found])).plainRegions

private theorem plainRegionsClosedBy_of_end
    {strict : Bool}
    {items : List PairingItem}
    {stop : Marker}
    (isEnd : stop.keyword = .macroEnd) :
    plainRegionsClosedBy strict items stop =
      if (openBefore strict items stop).head? = some none then 1 else 0 := by
  simp only [plainRegionsClosedBy, after_concat, step, isEnd]
  rw [plainRegions_close strict (after strict (PairingItem.before items stop)) stop,
    Nat.add_sub_cancel_left]
  rfl

private theorem plainRegionsClosedBy_of_start
    {strict : Bool}
    {items : List PairingItem}
    {start : Marker}
    (isStart : start.keyword = .macroStart) :
    plainRegionsClosedBy strict items start = 0 := by
  simp [plainRegionsClosedBy, after_concat, step, isStart, openBlock, plainRegions, openers,
    OpenEntry.opener]

/-- Only the end of a region closes a plain region. -/
theorem form_of_plainRegionsClosedBy
    {strict : Bool}
    {items : List PairingItem}
    {stop : Marker}
    (isEnd : stop.keyword = .macroEnd)
    (closes : plainRegionsClosedBy strict items stop ≠ 0) :
    stop.form = .region := by
  rw [plainRegionsClosedBy_of_end isEnd, ne_eq, ite_eq_right_iff] at closes
  have isOpen : none ∈ openBefore strict items stop := by
    apply List.mem_of_head?
    by_contra notInnermost
    exact closes fun innermost => absurd innermost notInnermost
  have isRegion : openerFamily none = stop.family :=
    of_decide_eq_true (List.mem_filter.1 isOpen).2
  cases formEq : stop.form with
  | region => rfl
  | lineComment =>
      simp [openerFamily, Marker.family, formEq, MarkerForm.family] at isRegion
  | blockComment =>
      simp [openerFamily, Marker.family, formEq, MarkerForm.family] at isRegion

/-- A plain region is closed by one marker, or it stays open. -/
theorem count_plainRegion
    {items : List PairingItem}
    (strict : Bool)
    (inOrder : PairingItem.InOrder items) :
    items.count .plainRegion =
      ((PairingItem.markers items).map (plainRegionsClosedBy strict items)).sum +
        (after strict items).plainRegions := by
  refine
    PairingItem.takingInduction
      (P := fun taken =>
        taken.count .plainRegion =
          ((PairingItem.markers taken).map (plainRegionsClosedBy strict items)).sum +
            (after strict taken).plainRegions)
      items rfl ?_
  intro taken item back split countEq
  rw [after_concat, List.count_append, countEq, PairingItem.markers_append, List.map_append,
    List.sum_append]
  cases item with
  | plainRegion =>
      simp [PairingItem.markers, List.filterMap_cons, PairingItem.marker?, step, plainRegions,
        openers, OpenEntry.opener, Nat.add_assoc]
  | marker found =>
      have frontEq := PairingItem.before_eq inOrder split.symm
      have lost := plainRegions_step_marker_le strict (after strict taken) found
      simp only [PairingItem.markers, PairingItem.marker?, List.filterMap_cons,
        List.filterMap_nil, List.map_cons, List.map_nil, List.sum_cons, List.sum_nil,
        plainRegionsClosedBy, frontEq, after_concat, List.count_cons, List.count_nil]
      simp
      omega

private theorem unmatchedEnds_step (strict : Bool) (nesting : Nesting) (item : PairingItem) :
    ((nesting.step strict item).2.filter (·.kind = .unmatchedEnd)).Sublist
      (((PairingItem.markers [item]).filter (!·.isStart)).map (.ofMarker .unmatchedEnd)) := by
  have nothing : ∀ problems : List ParseProblem,
      (∀ problem ∈ problems, problem.kind ≠ .unmatchedEnd) →
        problems.filter (·.kind = .unmatchedEnd) = [] := by
    intro problems otherKinds
    simpa [List.filter_eq_nil_iff] using otherKinds
  cases item with
  | plainRegion => simp [step]
  | marker found =>
      cases keywordEq : found.keyword with
      | macroStart =>
          simp only [step, keywordEq, openBlock]
          rw [nothing]
          · exact List.nil_sublist _
          · intro problem member
            simp [kind_tagProblem member]
      | macroEnd =>
          have closes := closes_close strict nesting found
          simp only [step, keywordEq]
          generalize nesting.close strict found = result at closes
          obtain ⟨next, problems⟩ := result
          simp only at closes ⊢
          cases closes with
          | nothing _ _ =>
              simp [PairingItem.markers, PairingItem.marker?, Marker.isStart, keywordEq,
                ParseProblem.ofMarker]
          | plainRegion _ _ _ => exact List.nil_sublist _
          | block _ _ _ _ _ _ _ _ otherKinds =>
              rw [nothing problems otherKinds]
              exact List.nil_sublist _

/-- What is reported as unmatched are end markers, each of them once. -/
theorem unmatchedEnds_problemsOf (strict : Bool) (items : List PairingItem) :
    ((problemsOf strict items).filter (·.kind = .unmatchedEnd)).Sublist
      (((PairingItem.markers items).filter (!·.isStart)).map (.ofMarker .unmatchedEnd)) := by
  refine
    PairingItem.takingInduction
      (P := fun taken =>
        ((problemsOf strict taken).filter (·.kind = .unmatchedEnd)).Sublist
          (((PairingItem.markers taken).filter (!·.isStart)).map (.ofMarker .unmatchedEnd)))
      items (by simp [problemsOf, run]) ?_
  intro taken item back _ sublist
  rw [problemsOf_concat, List.filter_append, PairingItem.markers_append, List.filter_append,
    List.map_append]
  exact sublist.append (unmatchedEnds_step strict (after strict taken) item)

end Nesting

/-! ## Documents -/

namespace Document

variable
  {filePath : Text}
  {source : Source}
  {trivia : List Trivia}
  {options : ParseOptions}

/-- The markers among the items of a text are its candidates, classified. -/
theorem markers_pairingItems (source : Source) (trivia : List Trivia) :
    PairingItem.markers (pairingItems source trivia) =
      (candidates source trivia).filterMap Candidate.classify? := by
  rw [PairingItem.markers, pairingItems, List.filterMap_filterMap]
  congr 1
  funext candidate
  unfold PairingItem.ofCandidate?
  by_cases isPlain : candidate.kind = .plainRegionStart
  · simp [isPlain, PairingItem.marker?, Candidate.classify?, CandidateKind.keyword?]
  · rw [if_neg isPlain]
    cases candidate.classify? <;> rfl

private theorem unmatchedEnds_ofTrivia :
    ((ofTrivia filePath source trivia options).problems.filter (·.kind = .unmatchedEnd)).Sublist
      (((PairingItem.markers (pairingItems source trivia)).filter (!·.isStart)).map
        (.ofMarker .unmatchedEnd)) := by
  rw [problems_ofTrivia, List.filter_append, Nesting.filter_report, if_neg (by decide),
    List.append_nil]
  exact Nesting.unmatchedEnds_problemsOf _ _

private theorem nodup_unmatchedEnds (accepted : Trivia.firstFault? source.text trivia = none) :
    ((ofTrivia filePath source trivia options).problems.filter
      (·.kind = .unmatchedEnd)).Nodup := by
  apply unmatchedEnds_ofTrivia.nodup
  apply List.Nodup.of_map (·.position)
  rw [List.map_map]
  exact (List.filter_sublist.map _).nodup (inOrder_pairingItems accepted).nodup_positions

private theorem nodup_stops (accepted : Trivia.firstFault? source.text trivia = none) :
    ((ofTrivia filePath source trivia options).blocks.filterMap (·.stop)).Nodup := by
  rw [List.Nodup, List.pairwise_filterMap]
  refine (List.Pairwise.and_mem.1 (nodup_blocks accepted)).imp ?_
  rintro block other ⟨member, otherMember, different⟩ stop stopEq stop' stopEq' rfl
  exact different (eq_of_stop_eq accepted member otherMember stopEq stopEq')

/-- An end marker ends one block, is reported once, or closes one plain region. -/
theorem end_accounted
    {stop : Marker}
    (accepted : Trivia.firstFault? source.text trivia = none)
    (member : stop ∈ PairingItem.markers (pairingItems source trivia))
    (isEnd : stop.keyword = .macroEnd) :
    let document := ofTrivia filePath source trivia options
    (document.blocks.filterMap (·.stop)).count stop +
          document.problems.count (.ofMarker .unmatchedEnd stop) +
        Nesting.plainRegionsClosedBy options.strictLocationTags (pairingItems source trivia)
          stop =
      1 := by
  intro document
  have meets :
      Nesting.Meets options.strictLocationTags (pairingItems source trivia) stop
        (Nesting.openBefore options.strictLocationTags (pairingItems source trivia) stop) :=
    Nesting.meets_openBefore (PairingItem.mem_markers_iff.1 member) isEnd
  have meetsIff : ∀ openers,
      Nesting.Meets options.strictLocationTags (pairingItems source trivia) stop openers ↔
        Nesting.openBefore options.strictLocationTags (pairingItems source trivia) stop =
          openers :=
    fun openers =>
      ⟨meets.unique (inOrder_pairingItems accepted), fun openersEq => openersEq ▸ meets⟩
  have endsBlock :
      stop ∈ document.blocks.filterMap (·.stop) ↔
        ∃ start outer,
          Nesting.openBefore options.strictLocationTags (pairingItems source trivia) stop =
            some start :: outer := by
    constructor
    · intro stopMember
      obtain ⟨block, blockMember, stopEq⟩ := List.mem_filterMap.1 stopMember
      obtain ⟨start, outer, _, meetsBlock⟩ := meets_of_stop_eq blockMember stopEq
      exact ⟨start, outer, (meetsIff _).1 meetsBlock⟩
    · intro innermost
      obtain ⟨start, outer, openersEq⟩ := innermost
      obtain ⟨block, blockMember, _, stopEq⟩ :=
        exists_stop_iff.2 ⟨start, outer, rfl, (meetsIff _).2 openersEq⟩
      exact List.mem_filterMap.2 ⟨block, blockMember, stopEq⟩
  have isReported :
      .ofMarker .unmatchedEnd stop ∈ document.problems.filter (·.kind = .unmatchedEnd) ↔
        Nesting.openBefore options.strictLocationTags (pairingItems source trivia) stop = [] := by
    rw [List.mem_filter, unmatchedEnd_mem_problems_iff accepted member, meetsIff]
    simp [ParseProblem.ofMarker]
  have stopsNodup : (document.blocks.filterMap (·.stop)).Nodup := nodup_stops accepted
  have reportsNodup : (document.problems.filter (·.kind = .unmatchedEnd)).Nodup :=
    nodup_unmatchedEnds accepted
  have countEq :
      document.problems.count (.ofMarker .unmatchedEnd stop) =
        (document.problems.filter (·.kind = .unmatchedEnd)).count (.ofMarker .unmatchedEnd stop) :=
    (List.count_filter (by simp [ParseProblem.ofMarker])).symm
  rw [countEq, stopsNodup.count, reportsNodup.count, Nesting.plainRegionsClosedBy_of_end isEnd]
  cases openersEq :
      Nesting.openBefore options.strictLocationTags (pairingItems source trivia) stop with
  | nil =>
      rw [if_neg (mt endsBlock.1 (by simp [openersEq])), if_pos (isReported.2 openersEq)]
      simp
  | cons opener outer =>
      rw [if_neg (mt isReported.1 (by simp [openersEq]))]
      cases opener with
      | none =>
          rw [if_neg (mt endsBlock.1 (by simp [openersEq]))]
          simp
      | some start =>
          rw [if_pos (endsBlock.2 ⟨start, outer, openersEq⟩)]
          simp

private theorem filterMap_start_ofTrivia :
    (ofTrivia filePath source trivia options).blocks.filterMap (·.start) =
      (PairingItem.markers (pairingItems source trivia)).filter (·.isStart) := by
  have starts :=
    congrArg (List.filterMap id) (starts_ofTrivia filePath source trivia options)
  simpa [List.filterMap_map] using starts

/-- The markers of a text have one place each in a document. Only the end of a region
closes a plain region, and no plain region is closed by two ends. -/
structure Accounts
    (document : Document)
    (strict : Bool)
    (items : List PairingItem)
    (markers : List Marker) :
    Prop where
  starts :
    document.blocks.map (·.start) = (markers.filter (·.isStart)).map some
  diagnostics : ∀ severity,
    severity ≠ .hidden →
      document.diagnostics severity =
        (markers.filter (·.isStart)).map fun start =>
          ⟨severity, document.filePath, start.position, start.body⟩
  increasing :
    (markers.filter (·.isStart)).Pairwise fun first second =>
      first.position.start.offset < second.position.start.offset
  ends : ∀ stop ∈ markers,
    stop.isStart = false →
      (document.blocks.filterMap (·.stop)).count stop +
            document.problems.count (.ofMarker .unmatchedEnd stop) +
          Nesting.plainRegionsClosedBy strict items stop =
        1
  plainEnds : ∀ stop ∈ markers,
    Nesting.plainRegionsClosedBy strict items stop ≠ 0 →
      stop.isStart = false ∧ stop.form = .region
  plainRegions :
    items.count .plainRegion =
      (markers.map (Nesting.plainRegionsClosedBy strict items)).sum +
        (Nesting.after strict items).plainRegions
  stops : ∀ block ∈ document.blocks,
    ∀ stop, block.stop = some stop → stop ∈ markers ∧ stop.isStart = false
  unmatched : ∀ problem ∈ document.problems,
    problem.kind = .unmatchedEnd →
      ∃ stop ∈ markers, stop.isStart = false ∧ problem = .ofMarker .unmatchedEnd stop

/-- No marker is lost or used twice. -/
theorem accounts_for_markers
    {input : Input}
    {options : ParseOptions}
    {document : Document}
    (parsed : input.parse options = .ok document) :
    document.Accounts options.strictLocationTags input.items
      ((candidates input.source input.usedTrivia).filterMap Candidate.classify?) := by
  obtain ⟨accepted, rfl⟩ := Input.parse_eq_ok_iff.1 parsed
  have inOrder : PairingItem.InOrder input.items := inOrder_pairingItems accepted
  rw [← markers_pairingItems]
  constructor
  · exact starts_ofTrivia _ _ _ _
  · intro severity shown
    rw [Document.diagnostics, if_neg shown, filterMap_start_ofTrivia]
  · apply List.Pairwise.filter
    refine (List.Pairwise.and_mem.1 inOrder.before).imp ?_
    intro first second ordered
    have extended := inOrder.extended first ordered.1
    have before := ordered.2.2
    unfold Marker.Extended at extended
    unfold Marker.Before at before
    omega
  · intro stop member isEnd
    exact end_accounted accepted member (Marker.isStart_eq_false_iff.1 isEnd)
  · intro stop _ closes
    cases keywordEq : stop.keyword with
    | macroStart => exact absurd (Nesting.plainRegionsClosedBy_of_start keywordEq) closes
    | macroEnd =>
        refine ⟨Marker.isStart_eq_false_iff.2 keywordEq, ?_⟩
        exact Nesting.form_of_plainRegionsClosedBy keywordEq closes
  · exact Nesting.count_plainRegion _ inOrder
  · intro block member stop stopEq
    exact isStart_of_stop_eq member stopEq
  · intro problem member isUnmatched
    have reported :
        problem ∈
          (ofTrivia input.filePath input.source input.usedTrivia options).problems.filter
            (·.kind = .unmatchedEnd) :=
      List.mem_filter.2 ⟨member, decide_eq_true isUnmatched⟩
    obtain ⟨stop, stopMember, problemEq⟩ :=
      List.mem_map.1 (unmatchedEnds_ofTrivia.subset reported)
    obtain ⟨inMarkers, isEnd⟩ := List.mem_filter.1 stopMember
    exact ⟨stop, inMarkers, by simpa using isEnd, problemEq.symm⟩

/-- A plain region, a block, and an end marker that nothing is left for. -/
def fatesText : Text :=
  "#region x\n#endregion\n// Macro A\n// EndMacro\n/* EndMacro */\n".toList

def fatesInput : Input := ⟨[], Source.ofText fatesText, none⟩

theorem accounts_for_markers_fatesText :
    ∃ document,
      fatesInput.parse .lenient = .ok document ∧
        document.Accounts false fatesInput.items
          ((candidates fatesInput.source fatesInput.usedTrivia).filterMap
            Candidate.classify?) ∧
        document.blocks.length = 1 ∧
        document.problems.length = 1 ∧
        fatesInput.items.count .plainRegion = 1 := by
  have parsed :
      fatesInput.parse .lenient =
        .ok (Document.parse [] (Source.ofText fatesText) .lenient) :=
    rfl
  exact ⟨_, parsed, accounts_for_markers parsed, by decide +kernel⟩

end Document

end MacroRegions
