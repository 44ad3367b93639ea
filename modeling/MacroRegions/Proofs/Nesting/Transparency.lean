import MacroRegions.Proofs.Nesting.Account

/-!
Plain regions are transparent.

A plain region holds nothing and is never reported. While it is open, a run differs
from the run without it by one entry of what is open, and by nothing else; the end
that closes it takes this entry away. So a plain region can be left out of the trivia
together with that end.
-/

namespace MacroRegions

namespace Nesting

/-- Whether an end marker closes a plain region: the innermost open entry of its
family is one. -/
def closesPlainRegion (nesting : Nesting) (stop : Marker) : Bool :=
  nesting.entries.find? (·.family = stop.family) = some .plainRegion

/-- The open plain regions when one more item has been taken. A new one is known
by `number`; plain regions are closed from the innermost outwards. -/
def notePlainRegion
    (nesting : Nesting)
    (number : Nat)
    (opened : List Nat) :
    PairingItem → List Nat
  | .plainRegion => number :: opened
  | .marker found =>
    if found.keyword = .macroEnd ∧ nesting.closesPlainRegion found = true then
      opened.tail
    else
      opened

/-- The plain regions that are open after items, the innermost first, each known
by how many items were taken before it. -/
def openPlainRegions (strict : Bool) (items : List PairingItem) : List Nat :=
  go [] [] items
where
  go (taken : List PairingItem) (opened : List Nat) : List PairingItem → List Nat
    | [] => opened
    | item :: rest =>
      go (taken ++ [item]) ((after strict taken).notePlainRegion taken.length opened item) rest

private theorem openPlainRegions_go_append
    (strict : Bool)
    (taken : List PairingItem)
    (opened : List Nat)
    (first second : List PairingItem) :
    openPlainRegions.go strict taken opened (first ++ second) =
      openPlainRegions.go strict (taken ++ first)
        (openPlainRegions.go strict taken opened first) second := by
  induction first generalizing taken opened with
  | nil => simp [openPlainRegions.go]
  | cons item rest inductionHypothesis =>
      rw [List.cons_append, openPlainRegions.go, openPlainRegions.go, inductionHypothesis,
        List.append_assoc, List.singleton_append]

private theorem openPlainRegions_concat
    (strict : Bool)
    (taken : List PairingItem)
    (item : PairingItem) :
    openPlainRegions strict (taken ++ [item]) =
      (after strict taken).notePlainRegion taken.length (openPlainRegions strict taken) item := by
  simp [openPlainRegions, openPlainRegions_go_append, openPlainRegions.go]

/-- The plain region that is opened behind `front` is closed by `stop`, behind
`middle`. -/
def EndsPlainRegion
    (strict : Bool)
    (front middle : List PairingItem)
    (stop : Marker) :
    Prop :=
  let taken := front ++ .plainRegion :: middle
  stop.keyword = .macroEnd ∧
    (after strict taken).closesPlainRegion stop = true ∧
    (openPlainRegions strict taken).head? = some front.length

instance (strict : Bool) (front middle : List PairingItem) (stop : Marker) :
    Decidable (EndsPlainRegion strict front middle stop) :=
  inferInstanceAs (Decidable (_ ∧ _))

private theorem collapse_append_plainRegion
    (error : BlockError)
    (innermost : BlockForest)
    (above below : List OpenEntry) :
    collapse error innermost (above ++ .plainRegion :: below) =
      collapse error innermost (above ++ below) := by
  induction above generalizing innermost with
  | nil => rfl
  | cons entry rest inductionHypothesis =>
      cases entry with
      | plainRegion => exact inductionHypothesis innermost
      | block opened => exact inductionHypothesis _

private theorem report_append_plainRegion (kind : BlockError) (above below : List OpenEntry) :
    report kind (above ++ .plainRegion :: below) = report kind (above ++ below) := by
  have blocksEq :
      (above ++ .plainRegion :: below).filterMap OpenEntry.block? =
        (above ++ below).filterMap OpenEntry.block? := by
    rw [List.filterMap_append, List.filterMap_append, List.filterMap_cons_none rfl]
  rw [report, blocksEq, report]

private theorem attach_append_plainRegion
    (done : BlockForest)
    (above below : List OpenEntry)
    (finished : BlockForest) :
    ∃ above' below' finished',
      attach done (above ++ .plainRegion :: below) finished =
          ⟨above' ++ .plainRegion :: below', finished'⟩ ∧
        attach done (above ++ below) finished = ⟨above' ++ below', finished'⟩ ∧
        above'.count .plainRegion = above.count .plainRegion := by
  induction above with
  | nil => exact ⟨[], _, _, rfl, rfl, rfl⟩
  | cons entry rest inductionHypothesis =>
      cases entry with
      | plainRegion =>
          obtain ⟨above', below', finished', withEq, withoutEq, countEq⟩ := inductionHypothesis
          refine ⟨.plainRegion :: above', below', finished', ?_, ?_, ?_⟩
          · simp [attach, withEq]
          · simp [attach, withoutEq]
          · simp [countEq]
      | block opened =>
          refine ⟨.block { opened with children := opened.children ++ done } :: rest, below,
            finished, rfl, rfl, ?_⟩
          simp

section Close

variable
  {stop : Marker}
  {inner outer : List OpenEntry}
  {finished : BlockForest}

/-- Only the end of a region closes a plain region. -/
theorem family_of_closesPlainRegion
    {nesting : Nesting}
    (closes : nesting.closesPlainRegion stop = true) :
    OpenEntry.plainRegion.family = stop.family := by
  have found : nesting.entries.find? (·.family = stop.family) = some .plainRegion :=
    of_decide_eq_true closes
  simpa using List.find?_some found

private theorem closesPlainRegion_of_split
    {entry : OpenEntry}
    (apart : ∀ other ∈ inner, other.family ≠ stop.family)
    (own : entry.family = stop.family) :
    closesPlainRegion ⟨inner ++ entry :: outer, finished⟩ stop = true ↔
      entry = .plainRegion := by
  have notFound : inner.find? (·.family = stop.family) = none := by
    simpa [List.find?_eq_none] using apart
  simp [closesPlainRegion, List.find?_append, notFound, own]

end Close

/-- Two nestings differ by one plain region, which is open in the first of them
only and is known by `number`. -/
def DiffersBy
    (number : Nat)
    (opened : List Nat)
    (nesting without : Nesting) :
    Prop :=
  ∃ above below later earlier,
    nesting.entries = above ++ .plainRegion :: below ∧
      without = ⟨above ++ below, nesting.finished⟩ ∧
      opened = later ++ number :: earlier ∧
      later.length = above.count .plainRegion ∧
      number ∉ later

namespace DiffersBy

variable {number : Nat} {opened : List Nat} {nesting without : Nesting}

private theorem push
    (differs : DiffersBy number opened nesting without)
    (block : OpenBlock) :
    DiffersBy number opened
      { nesting with entries := .block block :: nesting.entries }
      { without with entries := .block block :: without.entries } := by
  obtain ⟨above, below, later, earlier, entriesEq, rfl, openedEq, lengthEq, new⟩ := differs
  exact
    ⟨.block block :: above, below, later, earlier, by simp [entriesEq], rfl, openedEq,
      by simpa using lengthEq, new⟩

private theorem push_plainRegion
    {other : Nat}
    (differs : DiffersBy number opened nesting without)
    (different : number ≠ other) :
    DiffersBy number (other :: opened)
      { nesting with entries := .plainRegion :: nesting.entries }
      { without with entries := .plainRegion :: without.entries } := by
  obtain ⟨above, below, later, earlier, entriesEq, rfl, rfl, lengthEq, new⟩ := differs
  exact
    ⟨.plainRegion :: above, below, other :: later, earlier, by simp [entriesEq], rfl, rfl,
      by simpa using lengthEq, by simp [different, new]⟩

/-- An end marker of a family of which something is open within the plain region
does the same to both nestings. -/
theorem close_above
    {stop : Marker}
    {inner rest below : List OpenEntry}
    {entry : OpenEntry}
    {finished : BlockForest}
    {later earlier : List Nat}
    (strict : Bool)
    (apart : ∀ other ∈ inner, other.family ≠ stop.family)
    (own : entry.family = stop.family)
    (lengthEq : later.length = (inner ++ entry :: rest).count .plainRegion)
    (new : number ∉ later) :
    let nesting : Nesting := ⟨inner ++ entry :: (rest ++ .plainRegion :: below), finished⟩
    let without : Nesting := ⟨inner ++ entry :: (rest ++ below), finished⟩
    let opened := later ++ number :: earlier
    DiffersBy number
        (if nesting.closesPlainRegion stop = true then opened.tail else opened)
        (nesting.close strict stop).1 (without.close strict stop).1 ∧
      (without.close strict stop).2 = (nesting.close strict stop).2 := by
  intro nesting without opened
  have closesIff : nesting.closesPlainRegion stop = true ↔ entry = .plainRegion :=
    closesPlainRegion_of_split apart own
  cases entry with
  | plainRegion =>
      rw [if_pos (closesIff.2 rfl), close_of_plainRegion apart own,
        close_of_plainRegion apart own]
      cases later with
      | nil => simp at lengthEq
      | cons latest later =>
          refine ⟨⟨inner ++ rest, below, later, earlier, by simp, by simp, rfl, ?_, ?_⟩, rfl⟩
          · simp only [List.length_cons, List.count_append, List.count_cons_self] at lengthEq ⊢
            omega
          · exact fun member => new (List.mem_cons_of_mem _ member)
  | block block =>
      rw [if_neg (mt closesIff.1 OpenEntry.noConfusion), close_of_block apart own,
        close_of_block apart own]
      obtain ⟨above', below', finished', withEq, withoutEq, countEq⟩ :=
        attach_append_plainRegion (closed strict stop inner block) rest below finished
      rw [withEq, withoutEq]
      refine ⟨⟨inner.filter (·.block?.isNone) ++ above', below', later, earlier, by simp,
        by simp, rfl, ?_, new⟩, rfl⟩
      rw [lengthEq, List.count_append, List.count_append, List.count_filter rfl, countEq]
      simp

/-- An end of a comment of which nothing is open within the plain region does
the same to both nestings. -/
theorem close_below
    {stop : Marker}
    {above below : List OpenEntry}
    {finished : BlockForest}
    {later earlier : List Nat}
    (strict : Bool)
    (apart : ∀ other ∈ above, other.family ≠ stop.family)
    (notRegion : OpenEntry.plainRegion.family ≠ stop.family)
    (lengthEq : later.length = above.count .plainRegion)
    (new : number ∉ later) :
    let nesting : Nesting := ⟨above ++ .plainRegion :: below, finished⟩
    let without : Nesting := ⟨above ++ below, finished⟩
    let opened := later ++ number :: earlier
    DiffersBy number
        (if nesting.closesPlainRegion stop = true then opened.tail else opened)
        (nesting.close strict stop).1 (without.close strict stop).1 ∧
      (without.close strict stop).2 = (nesting.close strict stop).2 := by
  intro nesting without opened
  rcases exists_innermost_or stop.family below with
    belowApart | ⟨inner, entry, outer, rfl, innerApart, own⟩
  · have allApart : ∀ entry ∈ above ++ .plainRegion :: below, entry.family ≠ stop.family :=
      List.forall_mem_append.2 ⟨apart, List.forall_mem_cons.2 ⟨notRegion, belowApart⟩⟩
    have notPlain : ¬ nesting.closesPlainRegion stop = true := by
      have notFound :
          (above ++ .plainRegion :: below).find? (·.family = stop.family) = none := by
        simpa only [List.find?_eq_none, decide_eq_true_eq] using allApart
      simp [nesting, closesPlainRegion, notFound]
    rw [if_neg notPlain, close_of_apart allApart,
      close_of_apart (List.forall_mem_append.2 ⟨apart, belowApart⟩)]
    exact ⟨⟨above, below, later, earlier, rfl, rfl, rfl, lengthEq, new⟩, rfl⟩
  · have splitWith :
        nesting = ⟨(above ++ .plainRegion :: inner) ++ entry :: outer, finished⟩ := by
      simp [nesting]
    have splitWithout : without = ⟨(above ++ inner) ++ entry :: outer, finished⟩ := by
      simp [without]
    have apartWith : ∀ other ∈ above ++ .plainRegion :: inner, other.family ≠ stop.family :=
      List.forall_mem_append.2 ⟨apart, List.forall_mem_cons.2 ⟨notRegion, innerApart⟩⟩
    have apartWithout : ∀ other ∈ above ++ inner, other.family ≠ stop.family :=
      List.forall_mem_append.2 ⟨apart, innerApart⟩
    cases entry with
    | plainRegion => exact absurd own notRegion
    | block block =>
        rw [splitWith, splitWithout,
          if_neg (mt (closesPlainRegion_of_split apartWith own).1 OpenEntry.noConfusion),
          close_of_block apartWith own, close_of_block apartWithout own,
          report_append_plainRegion]
        have closedEq :
            closed strict stop (above ++ .plainRegion :: inner) block =
              closed strict stop (above ++ inner) block := by
          rw [closed, collapse_append_plainRegion, closed]
        rw [closedEq]
        refine
          ⟨⟨above.filter (·.block?.isNone),
              inner.filter (·.block?.isNone) ++
                (attach (closed strict stop (above ++ inner) block) outer finished).entries,
              later, earlier, ?_, ?_, rfl, ?_, new⟩,
            rfl⟩
        · simp [OpenEntry.block?]
        · simp
        · rw [lengthEq, List.count_filter rfl]

/-- An end marker that does not close the plain region does the same to both
nestings. -/
theorem close
    {stop : Marker}
    (strict : Bool)
    (differs : DiffersBy number opened nesting without)
    (notEnded :
      ¬ (nesting.closesPlainRegion stop = true ∧ opened.head? = some number)) :
    DiffersBy number
        (if nesting.closesPlainRegion stop = true then opened.tail else opened)
        (nesting.close strict stop).1 (without.close strict stop).1 ∧
      (without.close strict stop).2 = (nesting.close strict stop).2 := by
  obtain ⟨above, below, later, earlier, entriesEq, rfl, rfl, lengthEq, new⟩ := differs
  obtain ⟨entries, finished⟩ := nesting
  obtain rfl : entries = above ++ .plainRegion :: below := entriesEq
  rcases exists_innermost_or stop.family above with
    apart | ⟨inner, entry, rest, rfl, apart, own⟩
  · by_cases isRegion : OpenEntry.plainRegion.family = stop.family
    · have noneLater : later.length = 0 := by
        rw [lengthEq, List.count_eq_zero]
        exact fun member => apart _ member isRegion
      obtain rfl := List.length_eq_zero_iff.1 noneLater
      exact absurd ⟨(closesPlainRegion_of_split apart isRegion).2 rfl, rfl⟩ notEnded
    · exact close_below strict apart isRegion lengthEq new
  · simp only [List.append_assoc, List.cons_append]
    exact close_above strict apart own lengthEq new

private theorem finish_eq (differs : DiffersBy number opened nesting without) :
    without.finish = nesting.finish := by
  obtain ⟨above, below, later, earlier, entriesEq, rfl, _⟩ := differs
  simp only [finish, entriesEq, collapse_append_plainRegion, report_append_plainRegion]

/-- The end that closes the plain region takes it away and does nothing else. -/
theorem close_ended
    {stop : Marker}
    (strict : Bool)
    (differs : DiffersBy number opened nesting without)
    (closes : nesting.closesPlainRegion stop = true)
    (innermost : opened.head? = some number) :
    nesting.close strict stop = (without, []) := by
  have isRegion := family_of_closesPlainRegion closes
  obtain ⟨above, below, later, earlier, entriesEq, rfl, rfl, lengthEq, new⟩ := differs
  obtain ⟨entries, finished⟩ := nesting
  obtain rfl : entries = above ++ .plainRegion :: below := entriesEq
  obtain rfl : later = [] := by
    cases later with
    | nil => rfl
    | cons latest later =>
        obtain rfl : latest = number := by simpa using innermost
        simp at new
  have noneAbove : OpenEntry.plainRegion ∉ above := List.count_eq_zero.1 lengthEq.symm
  rcases exists_innermost_or stop.family above with
    apart | ⟨inner, entry, rest, rfl, apart, own⟩
  · exact close_of_plainRegion apart isRegion
  · rw [List.append_assoc, List.cons_append, closesPlainRegion_of_split apart own] at closes
    exact absurd (by simp [closes]) noneAbove

end DiffersBy

/-! ## Runs -/

/-- Plain regions are numbered upwards. -/
theorem pairwise_openPlainRegions (strict : Bool) (items : List PairingItem) :
    (openPlainRegions strict items).Pairwise (· > ·) ∧
      ∀ number ∈ openPlainRegions strict items, number < items.length := by
  refine
    PairingItem.takingInduction
      (P := fun taken =>
        (openPlainRegions strict taken).Pairwise (· > ·) ∧
          ∀ number ∈ openPlainRegions strict taken, number < taken.length)
      items ⟨List.Pairwise.nil, by simp [openPlainRegions, openPlainRegions.go]⟩ ?_
  intro taken item back _ numbered
  obtain ⟨descending, bounded⟩ := numbered
  have boundedNext :
      ∀ number ∈ openPlainRegions strict taken, number < (taken ++ [item]).length := by
    intro number member
    have small := bounded number member
    rw [List.length_append]
    omega
  rw [openPlainRegions_concat]
  cases item with
  | plainRegion =>
      refine ⟨List.pairwise_cons.2 ⟨bounded, descending⟩, ?_⟩
      exact List.forall_mem_cons.2 ⟨by simp, boundedNext⟩
  | marker found =>
      rw [notePlainRegion]
      split
      · exact
          ⟨descending.sublist (List.tail_sublist _),
            fun number member => boundedNext number (List.mem_of_mem_tail member)⟩
      · exact ⟨descending, boundedNext⟩

/-- A plain region that has been closed is not opened again. -/
theorem notMem_openPlainRegions_append
    {strict : Bool}
    {number : Nat}
    {taken : List PairingItem}
    (closed : number ∉ openPlainRegions strict taken)
    (earlier : number < taken.length)
    (more : List PairingItem) :
    number ∉ openPlainRegions strict (taken ++ more) := by
  refine
    PairingItem.takingInductionFrom (P := fun items => number ∉ openPlainRegions strict items)
      taken more closed ?_
  intro middle item back _ stillClosed
  rw [openPlainRegions_concat]
  cases item with
  | plainRegion =>
      refine List.not_mem_cons_of_ne_of_not_mem ?_ stillClosed
      rw [List.length_append]
      omega
  | marker found =>
      rw [notePlainRegion]
      split
      · exact fun member => stillClosed (List.mem_of_mem_tail member)
      · exact stillClosed

/-- A plain region is closed by one end only. -/
theorem EndsPlainRegion.not_before
    {strict : Bool}
    {front middle more : List PairingItem}
    {stop stop' : Marker}
    (ends : EndsPlainRegion strict front (middle ++ .marker stop :: more) stop') :
    ¬ EndsPlainRegion strict front middle stop := by
  rintro ⟨isEnd, closes, innermost⟩
  obtain ⟨others, othersEq⟩ := List.head?_eq_some_iff.1 innermost
  have descending := (pairwise_openPlainRegions strict (front ++ .plainRegion :: middle)).1
  have gone :
      front.length ∉
        openPlainRegions strict (front ++ .plainRegion :: middle ++ [.marker stop]) := by
    rw [openPlainRegions_concat]
    simp only [notePlainRegion, isEnd, closes, and_self, if_true]
    rw [othersEq] at descending ⊢
    intro member
    exact absurd ((List.pairwise_cons.1 descending).1 _ member) (Nat.lt_irrefl _)
  have stillGone := notMem_openPlainRegions_append gone (by simp) more
  have innermost' := ends.2.2
  rw [List.append_assoc, List.append_assoc] at stillGone
  exact stillGone (List.mem_of_head? innermost')

/-- As long as no end has closed a plain region, the run without it has found the
same problems, and differs by the plain region alone. -/
theorem differsBy_after
    {strict : Bool}
    {front behind : List PairingItem}
    (notEnded : ∀ middle stop back,
      behind = middle ++ .marker stop :: back → ¬ EndsPlainRegion strict front middle stop) :
    DiffersBy front.length (openPlainRegions strict (front ++ .plainRegion :: behind))
        (after strict (front ++ .plainRegion :: behind)) (after strict (front ++ behind)) ∧
      problemsOf strict (front ++ behind) =
        problemsOf strict (front ++ .plainRegion :: behind) := by
  refine
    PairingItem.takingInduction
      (P := fun taken =>
        DiffersBy front.length (openPlainRegions strict (front ++ .plainRegion :: taken))
            (after strict (front ++ .plainRegion :: taken)) (after strict (front ++ taken)) ∧
          problemsOf strict (front ++ taken) =
            problemsOf strict (front ++ .plainRegion :: taken))
      behind ?_ ?_
  · have split : front ++ .plainRegion :: [] = front ++ [.plainRegion] := rfl
    rw [split, List.append_nil, openPlainRegions_concat, after_concat, problemsOf_concat]
    refine ⟨⟨[], (after strict front).entries, [], _, rfl, rfl, rfl, rfl, by simp⟩, ?_⟩
    simp [step]
  · intro taken item back split holds
    obtain ⟨differs, problemsEq⟩ := holds
    have concatWith :
        front ++ .plainRegion :: (taken ++ [item]) =
          (front ++ .plainRegion :: taken) ++ [item] := by
      simp
    rw [concatWith, ← List.append_assoc, openPlainRegions_concat, after_concat, after_concat,
      problemsOf_concat, problemsOf_concat, problemsEq]
    cases item with
    | plainRegion =>
        refine ⟨differs.push_plainRegion ?_, by simp [step]⟩
        simp only [List.length_append, List.length_cons]
        omega
    | marker found =>
        cases keywordEq : found.keyword with
        | macroStart =>
            simp only [notePlainRegion, keywordEq, step, openBlock, reduceCtorEq, false_and,
              if_false]
            exact ⟨differs.push _, trivial⟩
        | macroEnd =>
            have notEndedHere := notEnded taken found back split.symm
            simp only [EndsPlainRegion, keywordEq, true_and] at notEndedHere
            have kept := differs.close strict notEndedHere
            simp only [notePlainRegion, keywordEq, step, true_and]
            exact ⟨kept.1, by rw [kept.2]⟩

/-- What comes behind does not look at how a state was reached. -/
theorem after_append_congr
    {strict : Bool}
    {first first' : List PairingItem}
    (afterEq : after strict first = after strict first')
    (problemsEq : problemsOf strict first = problemsOf strict first')
    (back : List PairingItem) :
    after strict (first ++ back) = after strict (first' ++ back) ∧
      problemsOf strict (first ++ back) = problemsOf strict (first' ++ back) := by
  simp only [after, problemsOf] at afterEq problemsEq
  simp only [after, problemsOf, run_append, List.flatMap_append, afterEq, problemsEq, and_self]

/-- Without a plain region and its end, a run comes to the same. -/
theorem after_of_ended
    {strict : Bool}
    {front middle : List PairingItem}
    {stop : Marker}
    (ends : EndsPlainRegion strict front middle stop)
    (back : List PairingItem) :
    after strict (front ++ (middle ++ back)) =
        after strict (front ++ .plainRegion :: (middle ++ .marker stop :: back)) ∧
      problemsOf strict (front ++ (middle ++ back)) =
        problemsOf strict (front ++ .plainRegion :: (middle ++ .marker stop :: back)) := by
  have ⟨isEnd, closes, innermost⟩ := ends
  have notEnded : ∀ first other rest,
      middle = first ++ .marker other :: rest → ¬ EndsPlainRegion strict front first other := by
    rintro first other rest rfl
    exact ends.not_before
  obtain ⟨differs, problemsEq⟩ := differsBy_after notEnded
  have closeEq := differs.close_ended strict closes innermost
  have afterEq :
      after strict (front ++ middle) =
        after strict (front ++ .plainRegion :: middle ++ [.marker stop]) := by
    rw [after_concat]
    simp only [step, isEnd, closeEq]
  have problemsEq' :
      problemsOf strict (front ++ middle) =
        problemsOf strict (front ++ .plainRegion :: middle ++ [.marker stop]) := by
    rw [problemsOf_concat, problemsEq]
    simp [step, isEnd, closeEq]
  simpa using after_append_congr afterEq problemsEq' back

end Nesting

/-- A part of a list of trivia without a fault has none. -/
theorem Trivia.firstFault?_eq_none_of_sublist
    {text : Text}
    {trivia part : List Trivia}
    (accepted : firstFault? text trivia = none)
    (sublist : part.Sublist trivia) :
    firstFault? text part = none := by
  obtain ⟨holds, ordered⟩ := firstFault?_eq_none_iff.1 accepted
  exact
    firstFault?_eq_none_iff.2
      ⟨fun item member => holds item (sublist.subset member), ordered.sublist sublist⟩

namespace Document

theorem parseWithTrivia_eq_ok_iff
    {filePath : Text}
    {source : Source}
    {trivia : List Trivia}
    {options : ParseOptions}
    {document : Document} :
    parseWithTrivia filePath source trivia options = .ok document ↔
      Trivia.firstFault? source.text trivia = none ∧
        ofTrivia filePath source trivia options = document :=
  @Input.parse_eq_ok_iff ⟨filePath, source, some trivia⟩ options document

/-- Documents are the same if the runs that make them come to the same. -/
theorem ofTrivia_congr
    {source : Source}
    {trivia trivia' : List Trivia}
    {options : ParseOptions}
    (finishEq :
      (Nesting.after options.strictLocationTags (pairingItems source trivia)).finish =
        (Nesting.after options.strictLocationTags (pairingItems source trivia')).finish)
    (problemsEq :
      Nesting.problemsOf options.strictLocationTags (pairingItems source trivia) =
        Nesting.problemsOf options.strictLocationTags (pairingItems source trivia'))
    (filePath : Text) :
    ofTrivia filePath source trivia options = ofTrivia filePath source trivia' options := by
  simp only [Nesting.after, Nesting.problemsOf] at finishEq problemsEq
  simp only [ofTrivia, finishEq, problemsEq]

private theorem pairingItems_append (source : Source) (first second : List Trivia) :
    pairingItems source (first ++ second) =
      pairingItems source first ++ pairingItems source second := by
  simp only [pairingItems_eq_filterMap, List.filterMap_append]

/-- The plain region that is opened behind `front` is closed by `item`, behind
`middle`. -/
def EndsPlainRegion
    (source : Source)
    (options : ParseOptions)
    (front middle : List Trivia)
    (item : Trivia) :
    Prop :=
  ∃ stop ∈ (PairingItem.ofTrivia? source item).bind PairingItem.marker?,
    Nesting.EndsPlainRegion options.strictLocationTags (pairingItems source front)
      (pairingItems source middle) stop

instance
    (source : Source)
    (options : ParseOptions)
    (front middle : List Trivia)
    (item : Trivia) :
    Decidable (EndsPlainRegion source options front middle item) :=
  inferInstanceAs (Decidable (∃ _ ∈ _, _))

variable
  {filePath : Text}
  {source : Source}
  {options : ParseOptions}
  {document : Document}
  {front behind : List Trivia}
  {item : Trivia}

private theorem ofTrivia?_eq_plainRegion
    (isPlain : ∃ candidate ∈ Candidate.ofTrivia? source item,
      candidate.kind = .plainRegionStart) :
    PairingItem.ofTrivia? source item = some .plainRegion := by
  obtain ⟨candidate, candidateEq, kindEq⟩ := isPlain
  rw [PairingItem.ofTrivia?, candidateEq, Option.bind_some, PairingItem.ofCandidate?,
    if_pos kindEq]

private theorem ofTrivia?_eq_marker
    {found : Marker}
    (foundEq : found ∈ (PairingItem.ofTrivia? source item).bind PairingItem.marker?) :
    PairingItem.ofTrivia? source item = some (.marker found) := by
  obtain ⟨pairingItem, itemEq, markerEq⟩ := Option.bind_eq_some_iff.1 foundEq
  cases pairingItem with
  | plainRegion => simp [PairingItem.marker?] at markerEq
  | marker other =>
      obtain rfl : other = found := by simpa [PairingItem.marker?] using markerEq
      exact itemEq

private theorem pairingItems_cons_of_eq
    {pairingItem : PairingItem}
    (itemEq : PairingItem.ofTrivia? source item = some pairingItem)
    (rest : List Trivia) :
    pairingItems source (item :: rest) = pairingItem :: pairingItems source rest := by
  simp only [pairingItems_eq_filterMap]
  exact List.filterMap_cons_some itemEq

/-- A marker among what pairing looks at comes from one piece of trivia. -/
theorem exists_trivia_of_split
    {trivia : List Trivia}
    {middle back : List PairingItem}
    {stop : Marker}
    (split : pairingItems source trivia = middle ++ .marker stop :: back) :
    ∃ first found rest,
      trivia = first ++ found :: rest ∧
        PairingItem.ofTrivia? source found = some (.marker stop) ∧
        pairingItems source first = middle := by
  rw [pairingItems_eq_filterMap] at split
  obtain ⟨first, second, rfl, middleEq, restEq⟩ := List.filterMap_eq_append_iff.1 split
  obtain ⟨skipped, found, rest, rfl, noItems, foundEq, -⟩ := List.filterMap_eq_cons_iff.1 restEq
  refine ⟨first ++ skipped, found, rest, by simp, foundEq, ?_⟩
  rw [pairingItems_eq_filterMap, List.filterMap_append, middleEq,
    List.filterMap_eq_nil_iff.2 noItems, List.append_nil]

/-- Plain regions are transparent: without a plain region and the end that
closes it, and without a plain region that no end closes, a document is the
same. -/
theorem parseWithTrivia_without_plainRegion
    (parsed : parseWithTrivia filePath source (front ++ item :: behind) options = .ok document)
    (isPlain : ∃ candidate ∈ Candidate.ofTrivia? source item,
      candidate.kind = .plainRegionStart) :
    (∀ middle stop back,
        behind = middle ++ stop :: back →
          EndsPlainRegion source options front middle stop →
            parseWithTrivia filePath source (front ++ (middle ++ back)) options =
              .ok document) ∧
      ((∀ middle stop back,
          behind = middle ++ stop :: back →
            ¬ EndsPlainRegion source options front middle stop) →
        parseWithTrivia filePath source (front ++ behind) options = .ok document) := by
  obtain ⟨accepted, rfl⟩ := parseWithTrivia_eq_ok_iff.1 parsed
  have itemEq := ofTrivia?_eq_plainRegion isPlain
  constructor
  · rintro middle stop back rfl ⟨found, foundEq, ends⟩
    have stopEq := ofTrivia?_eq_marker foundEq
    have sublist :
        (front ++ (middle ++ back)).Sublist (front ++ item :: (middle ++ stop :: back)) :=
      ((List.Sublist.refl middle).append (List.sublist_cons_self stop back)).cons item
        |>.append_left front
    refine
      parseWithTrivia_eq_ok_iff.2
        ⟨Trivia.firstFault?_eq_none_of_sublist accepted sublist, ofTrivia_congr ?_ ?_ filePath⟩
    all_goals
      simp only [pairingItems_append, pairingItems_cons_of_eq itemEq,
        pairingItems_cons_of_eq stopEq]
    · exact congrArg Nesting.finish (Nesting.after_of_ended ends _).1
    · exact (Nesting.after_of_ended ends _).2
  · intro notEnded
    have notEndedItems :
        ∀ middle stop back,
          pairingItems source behind = middle ++ .marker stop :: back →
            ¬ Nesting.EndsPlainRegion options.strictLocationTags (pairingItems source front)
              middle stop := by
      intro middle stop back split ends
      obtain ⟨first, found, rest, rfl, foundEq, rfl⟩ := exists_trivia_of_split split
      exact notEnded first found rest rfl ⟨stop, by simp [foundEq, PairingItem.marker?], ends⟩
    have sublist : (front ++ behind).Sublist (front ++ item :: behind) :=
      (List.sublist_cons_self item behind).append_left front
    obtain ⟨differs, problemsEq⟩ := Nesting.differsBy_after notEndedItems
    refine
      parseWithTrivia_eq_ok_iff.2
        ⟨Trivia.firstFault?_eq_none_of_sublist accepted sublist, ofTrivia_congr ?_ ?_ filePath⟩
    all_goals simp only [pairingItems_append, pairingItems_cons_of_eq itemEq]
    · exact differs.finish_eq
    · exact problemsEq

/-- Plain regions around a block, across its end, and without an end. -/
def transparentText : Text :=
  ("#region x\n// Macro A\n#region y\n#region Macro R\n// EndMacro\n#endregion\n" ++
    "#endregion\n#region z\n#region Macro S\n#endregion\n").toList

def transparentTrivia : List Trivia :=
  [⟨.regionDirective, 0, 9⟩, ⟨.lineComment, 10, 20⟩, ⟨.regionDirective, 21, 30⟩,
    ⟨.regionDirective, 31, 46⟩, ⟨.lineComment, 47, 58⟩, ⟨.endRegionDirective, 59, 69⟩,
    ⟨.endRegionDirective, 70, 80⟩, ⟨.regionDirective, 81, 90⟩, ⟨.regionDirective, 91, 106⟩,
    ⟨.endRegionDirective, 107, 117⟩]

theorem parseWithTrivia_without_plainRegion_transparentText :
    let source := Source.ofText transparentText
    let document := ofTrivia [] source transparentTrivia .lenient
    parseWithTrivia [] source transparentTrivia .lenient = .ok document ∧
      document.blocks.length = 3 ∧
      parseWithTrivia [] source ((transparentTrivia.eraseIdx 5).eraseIdx 2) .lenient =
        .ok document ∧
      parseWithTrivia [] source (transparentTrivia.eraseIdx 7) .lenient = .ok document := by
  intro source document
  have parsed : parseWithTrivia [] source transparentTrivia .lenient = .ok document :=
    parseWithTrivia_eq_ok_iff.2 ⟨by decide +kernel, rfl⟩
  refine ⟨parsed, by decide +kernel, ?_, ?_⟩
  · exact
      (@parseWithTrivia_without_plainRegion [] source .lenient document
        (transparentTrivia.take 2) (transparentTrivia.drop 3) _ parsed (by decide +kernel)).1
        [⟨.regionDirective, 31, 46⟩, ⟨.lineComment, 47, 58⟩] _ _ rfl (by decide +kernel)
  · refine
      (@parseWithTrivia_without_plainRegion [] source .lenient document
        (transparentTrivia.take 7)
        [⟨.regionDirective, 91, 106⟩, ⟨.endRegionDirective, 107, 117⟩] _ parsed
        (by decide +kernel)).2 ?_
    intro middle stop back split
    rcases middle with _ | ⟨first, _ | ⟨second, _ | ⟨third, rest⟩⟩⟩
    · obtain ⟨rfl, rfl⟩ := List.cons.inj split
      decide +kernel
    · obtain ⟨rfl, others⟩ := List.cons.inj split
      obtain ⟨rfl, rfl⟩ := List.cons.inj others
      decide +kernel
    · simp at split
    · simp at split

end Document

end MacroRegions
