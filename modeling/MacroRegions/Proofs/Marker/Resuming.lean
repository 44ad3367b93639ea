import MacroRegions.Proofs.Marker.Extents

/-!
Scans that are resumed.

A scan looks for the place to resume at among the trivia that it has not taken yet, by
halving. Accepted trivia begins from front to back, so halving finds the trivia that
begins at the offset or behind it, and just the candidates that begin before the
offset are left out.
-/

namespace MacroRegions

/-- Halving finds how many items pass, if it is the first ones that do. -/
theorem partitionPointFrom_eq
    {test : Nat → Bool}
    {base size count : Nat}
    (passes : ∀ index, index < base + size → (test index = true ↔ index < count))
    (lower : base ≤ count)
    (upper : count ≤ base + size) :
    partitionPointFrom test base size = count := by
  fun_induction partitionPointFrom test base size with
  | case1 base size wide half passing inductionHypothesis =>
      have begun := (passes _ (by omega)).1 passing
      apply inductionHypothesis _ (by omega) (by omega)
      intro index within
      exact passes index (by omega)
  | case2 base size wide half failing inductionHypothesis =>
      have ended := mt (passes (base + half) (by omega)).2 failing
      -- the half that is kept is the wider one if the halves differ
      apply inductionHypothesis _ lower (by omega)
      intro index within
      exact passes index (by omega)
  | case3 base size narrow passing =>
      by_cases empty : size = 0
      · omega
      · have begun := (passes base (by omega)).1 passing
        omega
  | case4 base size narrow failing =>
      by_cases empty : size = 0
      · omega
      · have ended := mt (passes base (by omega)).2 failing
        omega

private theorem partitionPointFrom_append
    {α : Type}
    {test : α → Bool}
    {front back : List α}
    (passing : ∀ item ∈ front, test item = true)
    (failing : ∀ item ∈ back, ¬ test item = true) :
    partitionPointFrom (fun index => ((front ++ back)[index]?).any test) 0
        (front ++ back).length =
      front.length := by
  apply partitionPointFrom_eq
  · intro index within
    rw [Nat.zero_add] at within
    by_cases early : index < front.length
    · rw [List.getElem?_append_left early, List.getElem?_eq_getElem early, Option.any_some]
      exact iff_of_true (passing _ (List.getElem_mem early)) early
    · rw [List.length_append] at within
      have later : index - front.length < back.length := by omega
      rw [List.getElem?_append_right (Nat.le_of_not_lt early), List.getElem?_eq_getElem later,
        Option.any_some]
      exact iff_of_false (failing _ (List.getElem_mem later)) early
  · exact Nat.zero_le _
  · rw [List.length_append]
    omega

private theorem filter_append_filter_not
    {α : Type}
    {test : α → Bool}
    {items : List α}
    (leading : items.Pairwise fun first second => test second = true → test first = true) :
    items.filter test ++ items.filter (fun item => !test item) = items := by
  induction items with
  | nil => rfl
  | cons item rest inductionHypothesis =>
      rw [List.pairwise_cons] at leading
      obtain ⟨itemLeads, restLeads⟩ := leading
      by_cases passing : test item = true
      · simp [passing, inductionHypothesis restLeads]
      · have allFail : ∀ other ∈ rest, ¬ test other = true := fun other member later =>
          passing (itemLeads other member later)
        have noneLeft : rest.filter test = [] := List.filter_eq_nil_iff.2 allFail
        have allLeft : rest.filter (fun other => !test other) = rest := by
          apply List.filter_eq_self.2
          intro other member
          simpa using allFail other member
        simp [passing, noneLeft, allLeft]

/-- Behind the place that halving finds is what does not pass. -/
theorem drop_partitionPointFrom
    {α : Type}
    {test : α → Bool}
    {items : List α}
    (leading : items.Pairwise fun first second => test second = true → test first = true) :
    items.drop (partitionPointFrom (fun index : Nat => (items[index]?).any test) 0 items.length) =
      items.filter fun item => !test item := by
  have split := filter_append_filter_not leading
  have passing : ∀ item ∈ items.filter test, test item = true := fun item member =>
    (List.mem_filter.1 member).2
  have failing : ∀ item ∈ items.filter (fun item => !test item), ¬ test item = true := by
    intro item member
    simpa using (List.mem_filter.1 member).2
  have countEq := partitionPointFrom_append passing failing
  rw [split] at countEq
  rw [countEq]
  calc items.drop (items.filter test).length
      = (items.filter test ++ items.filter fun item => !test item).drop
          (items.filter test).length := by rw [split]
    _ = items.filter fun item => !test item := List.drop_left

namespace Scan

inductive Yields : Scan → List Candidate → Prop where
  | done {scan : Scan} (ended : scan.next? = none) : Yields scan []
  | more {scan rest : Scan} {candidate : Candidate} {others : List Candidate}
      (next : scan.next? = some (candidate, rest))
      (yields : Yields rest others) :
      Yields scan (candidate :: others)

private theorem candidates_eq_of_nextIn? (source : Source) (pending : List Trivia) :
    MacroRegions.candidates source pending =
      match nextIn? source pending with
      | none => []
      | some (candidate, rest) => candidate :: MacroRegions.candidates source rest := by
  induction pending with
  | nil => rfl
  | cons item rest inductionHypothesis =>
      rw [MacroRegions.candidates, List.filterMap_cons, nextIn?]
      cases Candidate.ofTrivia? source item with
      | none => exact inductionHypothesis
      | some candidate => rfl

/-- The candidates of a scan are the next one and those behind it. -/
theorem candidates_eq_of_next? (scan : Scan) :
    scan.candidates =
      match scan.next? with
      | none => []
      | some (candidate, rest) => candidate :: rest.candidates := by
  rw [candidates, candidates_eq_of_nextIn?, next?]
  cases nextIn? scan.source scan.pending with
  | none => rfl
  | some found => rfl

/-- A scan yields its candidates, and comes to its end. -/
theorem yields_iff {scan : Scan} {found : List Candidate} :
    scan.Yields found ↔ found = scan.candidates := by
  constructor
  · intro yields
    induction yields with
    | done ended => rw [candidates_eq_of_next?, ended]
    | more next _ inductionHypothesis => rw [candidates_eq_of_next?, next, inductionHypothesis]
  · intro isAll
    induction found generalizing scan with
    | nil =>
        rw [candidates_eq_of_next?] at isAll
        cases next : scan.next? with
        | none => exact .done next
        | some taken => simp [next] at isAll
    | cons candidate others inductionHypothesis =>
        rw [candidates_eq_of_next?] at isAll
        cases next : scan.next? with
        | none => simp [next] at isAll
        | some taken =>
            rw [next] at isAll
            obtain ⟨rfl, othersEq⟩ := List.cons.inj isAll
            exact .more next (inductionHypothesis othersEq)

/-- What is left when candidates have been taken are the others. -/
theorem candidates_skip (scan : Scan) (count : Nat) :
    (scan.skip count).candidates = scan.candidates.drop count := by
  induction count generalizing scan with
  | zero => rfl
  | succ count inductionHypothesis =>
      rw [skip, candidates_eq_of_next? scan]
      cases scan.next? with
      | none => rfl
      | some taken => exact inductionHypothesis taken.2

private theorem moves_skip (scan : Scan) (count : Nat) :
    Relation.ReflTransGen Moves scan (scan.skip count) := by
  induction count generalizing scan with
  | zero => exact .refl
  | succ count inductionHypothesis =>
      rw [skip]
      cases next : scan.next? with
      | none => exact .single (.finish next)
      | some taken => exact .head (.next taken.1 taken.2 next) (inductionHypothesis taken.2)

/-! ## Trivia that begins from front to back -/

/-- What is pending in a scan holds text of its kind and begins from front to back. -/
structure InOrder (scan : Scan) : Prop where
  holds : ∀ item ∈ scan.pending, item.Holds scan.source.text
  ascends : scan.pending.Pairwise fun first second => first.span.start ≤ second.span.start

private theorem inOrder_of_accepted
    {source : Source}
    {trivia : List Trivia}
    (accepted : Trivia.firstFault? source.text trivia = none) :
    InOrder ⟨source, trivia⟩ := by
  obtain ⟨holds, ordered⟩ := Trivia.firstFault?_eq_none_iff.1 accepted
  refine ⟨holds, ?_⟩
  apply (List.Pairwise.and_mem.1 ordered).imp
  intro first second both
  exact (holds first both.1).start_le_stop.trans both.2.2

private theorem InOrder.of_moves
    {scan later : Scan}
    (inOrder : scan.InOrder)
    (moves : Relation.ReflTransGen Moves scan later) :
    later.InOrder := by
  obtain ⟨sourceEq, suffix⟩ := suffix_of_moves moves
  constructor
  · intro item member
    rw [sourceEq]
    exact inOrder.holds item (suffix.subset member)
  · exact inOrder.ascends.sublist suffix.sublist

/-- The trivia that begins before an offset comes first. -/
theorem InOrder.leading {scan : Scan} (inOrder : scan.InOrder) (offset : Nat) :
    scan.pending.Pairwise fun first second =>
      decide (second.span.start < offset) = true → decide (first.span.start < offset) = true := by
  apply inOrder.ascends.imp
  intro first second ordered
  simp only [decide_eq_true_eq]
  omega

private theorem filter_not_before (pending : List Trivia) (offset : Nat) :
    (pending.filter fun item => !decide (item.span.start < offset)) =
      pending.filter fun item => offset ≤ item.span.start := by
  apply List.filter_congr
  intro item _
  rw [← decide_not, decide_eq_decide]
  exact Nat.not_lt

/-- A scan is resumed at the first trivia that does not begin before the offset. -/
theorem InOrder.pending_startingAt {scan : Scan} (inOrder : scan.InOrder) (offset : Nat) :
    (scan.startingAt offset).pending =
      scan.pending.filter fun item => offset ≤ item.span.start := by
  rw [← filter_not_before, ← drop_partitionPointFrom (inOrder.leading offset), startingAt]
  simp only [List.getElem?_toArray, List.getElem?_map, Option.any_map]

private theorem start_offset_of_ofTrivia?
    {source : Source}
    {item : Trivia}
    {candidate : Candidate}
    (holds : item.Holds source.text)
    (found : Candidate.ofTrivia? source item = some candidate) :
    candidate.position.start.offset = item.span.start := by
  obtain ⟨_, positionEq, _⟩ := Candidate.exists_inner?_of_ofTrivia? found
  rw [positionEq, Source.start_offset_positionOf holds]

/-- What is told by where a candidate begins is told by where its trivia begins. -/
theorem InOrder.filter_candidates
    {scan : Scan}
    (inOrder : scan.InOrder)
    (test : Nat → Bool) :
    (scan.candidates.filter fun candidate => test candidate.position.start.offset) =
      MacroRegions.candidates scan.source
        (scan.pending.filter fun item => test item.span.start) := by
  rw [candidates, MacroRegions.candidates, MacroRegions.candidates, List.filter_filterMap,
    List.filterMap_filter]
  apply List.filterMap_congr
  intro item member
  cases found : Candidate.ofTrivia? scan.source item with
  | none => simp
  | some candidate =>
      rw [← start_offset_of_ofTrivia? (inOrder.holds item member) found]
      rfl

private theorem InOrder.candidates_startingAt
    {scan : Scan}
    (inOrder : scan.InOrder)
    (offset : Nat) :
    (scan.startingAt offset).candidates =
      scan.candidates.filter fun candidate => offset ≤ candidate.position.start.offset := by
  rw [inOrder.filter_candidates fun start => offset ≤ start, ← inOrder.pending_startingAt]
  rfl

private theorem InOrder.startingAt_startingAt
    {scan : Scan}
    (inOrder : scan.InOrder)
    (first second : Nat) :
    (scan.startingAt first).startingAt second = scan.startingAt (max first second) := by
  have resumed : (scan.startingAt first).InOrder := inOrder.of_moves (.single (.resume first))
  have pendingEq :
      ((scan.startingAt first).startingAt second).pending =
        (scan.startingAt (max first second)).pending := by
    rw [resumed.pending_startingAt, inOrder.pending_startingAt, inOrder.pending_startingAt,
      List.filter_filter]
    apply List.filter_congr
    intro item _
    rw [← Bool.decide_and, decide_eq_decide]
    omega
  exact congrArg (Scan.mk scan.source) pendingEq

private theorem InOrder.candidates_eq_append {scan : Scan} (inOrder : scan.InOrder) (offset : Nat) :
    scan.candidates =
      (scan.candidates.filter fun candidate => candidate.position.start.offset < offset) ++
        (scan.startingAt offset).candidates := by
  rw [inOrder.filter_candidates fun start => start < offset, candidates, candidates,
    inOrder.pending_startingAt]
  have split := filter_append_filter_not (inOrder.leading offset)
  rw [filter_not_before] at split
  calc MacroRegions.candidates scan.source scan.pending
      = MacroRegions.candidates scan.source
          ((scan.pending.filter fun item => item.span.start < offset) ++
            scan.pending.filter fun item => offset ≤ item.span.start) := by rw [split]
    _ = MacroRegions.candidates scan.source
            (scan.pending.filter fun item => item.span.start < offset) ++
          MacroRegions.candidates scan.source
            (scan.pending.filter fun item => offset ≤ item.span.start) := List.filterMap_append

/-- However many candidates have been taken from a scan of accepted trivia, resuming
it at an offset leaves those of the others that begin there or behind it. Resuming
twice is resuming at the offset further behind, and what resuming leaves out of a
whole scan are the candidates that begin before the offset. -/
theorem resuming_filters
    {source : Source}
    {trivia : List Trivia}
    (accepted : Trivia.firstFault? source.text trivia = none) :
    let scan : Scan := ⟨source, trivia⟩
    (∀ found, scan.Yields found ↔ found = scan.candidates) ∧
      (∀ count offset found,
        ((scan.skip count).startingAt offset).Yields found ↔
          found =
            (scan.candidates.drop count).filter fun candidate =>
              offset ≤ candidate.position.start.offset) ∧
      (∀ count first second,
        ((scan.skip count).startingAt first).startingAt second =
          (scan.skip count).startingAt (max first second)) ∧
      ∀ offset found,
        (scan.startingAt offset).Yields found ↔
          scan.candidates =
            (scan.candidates.filter fun candidate =>
              candidate.position.start.offset < offset) ++ found := by
  intro scan
  have inOrder : scan.InOrder := inOrder_of_accepted accepted
  have skipped : ∀ count, (scan.skip count).InOrder := fun count =>
    inOrder.of_moves (scan.moves_skip count)
  refine ⟨fun found => yields_iff, ?_, ?_, ?_⟩
  · intro count offset found
    rw [yields_iff, (skipped count).candidates_startingAt, candidates_skip]
  · intro count first second
    exact (skipped count).startingAt_startingAt first second
  · intro offset found
    rw [yields_iff]
    conv_rhs => lhs; rw [inOrder.candidates_eq_append offset]
    rw [List.append_cancel_left_eq]
    exact eq_comm

/-- Two blocks, with a comment that is no candidate before the inner one. -/
def remarkedText : Text :=
  "// Macro A\n// outer\n/* Macro B */\n// EndMacro\n// EndMacro\n".toList

def remarkedScan : Scan :=
  ⟨Source.ofText remarkedText, Trivia.extract remarkedText⟩

theorem resuming_filters_remarkedText :
    Trivia.firstFault? (Source.ofText remarkedText).text (Trivia.extract remarkedText) = none ∧
      ∃ found,
        ((remarkedScan.skip 1).startingAt 21).Yields found ∧
          found.map (·.position.start.offset) = [34, 46] := by
  have accepted :
      Trivia.firstFault? (Source.ofText remarkedText).text (Trivia.extract remarkedText) = none :=
    Trivia.firstFault?_extract remarkedText
  obtain ⟨_, resumed, _⟩ := resuming_filters accepted
  refine ⟨accepted, _, (resumed 1 21 _).2 rfl, ?_⟩
  decide +kernel

end Scan

end MacroRegions
