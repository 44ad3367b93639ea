import MacroRegions.Proofs.Update.Edits

/-!
The order of edits whose spans do not overlap.

Such edits have one order of places. Those that begin at one place are an insertion
and the replacement of what stands behind it, and here the order of places is not
always that in which the edits are made: sorting leaves these two as they were listed.
-/

namespace MacroRegions.TextEdit

/-- The spans of two edits have no byte in common, and no place at which both
are insertions. -/
def NoOverlap (first second : TextEdit) : Prop :=
  (first.span.stop ≤ second.span.start ∨ second.span.stop ≤ first.span.start) ∧
    first.span ≠ second.span

instance : DecidableRel NoOverlap :=
  fun first second =>
    inferInstanceAs
      (Decidable
        ((first.span.stop ≤ second.span.start ∨ second.span.stop ≤ first.span.start) ∧
          first.span ≠ second.span))

/-- One edit lies before another. An insertion lies before the replacement of
what stands behind it. -/
def LiesBefore (first second : TextEdit) : Prop :=
  first.span.stop ≤ second.span.start ∧ first.span ≠ second.span

instance : DecidableRel LiesBefore :=
  fun first second =>
    inferInstanceAs
      (Decidable (first.span.stop ≤ second.span.start ∧ first.span ≠ second.span))

def Ascends (edit : TextEdit) : Prop :=
  edit.span.start ≤ edit.span.stop

theorem NoOverlap.symm {first second : TextEdit} (noOverlap : first.NoOverlap second) :
    second.NoOverlap first :=
  ⟨noOverlap.1.symm, noOverlap.2.symm⟩

def middleAtOrBefore (first second : TextEdit) : Bool :=
  first.span.start + first.span.stop ≤ second.span.start + second.span.stop

/-- Of two edits that do not overlap, the one whose middle comes first lies
before the other. -/
theorem NoOverlap.liesBefore
    {first second : TextEdit}
    (noOverlap : first.NoOverlap second)
    (firstAscends : first.Ascends)
    (secondAscends : second.Ascends)
    (middles : middleAtOrBefore first second = true) :
    first.LiesBefore second := by
  obtain ⟨before | behind, different⟩ := noOverlap
  · exact ⟨before, different⟩
  · obtain ⟨⟨firstStart, firstStop⟩, firstNew⟩ := first
    obtain ⟨⟨secondStart, secondStop⟩, secondNew⟩ := second
    simp only [middleAtOrBefore, Ascends, decide_eq_true_eq, ne_eq, Span.mk.injEq]
      at middles firstAscends secondAscends behind different
    omega

/-- Edits that do not overlap can be listed in the order of their places. -/
theorem exists_perm_liesBefore
    {edits : List TextEdit}
    (ascends : ∀ edit ∈ edits, edit.Ascends)
    (noOverlap : edits.Pairwise NoOverlap) :
    ∃ ordered : List TextEdit, ordered.Perm edits ∧ ordered.Pairwise LiesBefore := by
  have perm : (edits.mergeSort middleAtOrBefore).Perm edits := List.mergeSort_perm edits _
  have middles :
      (edits.mergeSort middleAtOrBefore).Pairwise fun first second =>
        middleAtOrBefore first second = true := by
    apply List.pairwise_mergeSort
    · intro first second third
      simp only [middleAtOrBefore, decide_eq_true_eq]
      omega
    · intro first second
      simp only [middleAtOrBefore, Bool.or_eq_true, decide_eq_true_eq]
      omega
  have sortedNoOverlap : (edits.mergeSort middleAtOrBefore).Pairwise NoOverlap :=
    noOverlap.perm perm.symm NoOverlap.symm
  refine ⟨_, perm, (sortedNoOverlap.and middles).imp_of_mem ?_⟩
  rintro first second firstMember secondMember ⟨spansNoOverlap, middlesInOrder⟩
  exact
    spansNoOverlap.liesBefore (ascends first (perm.subset firstMember))
      (ascends second (perm.subset secondMember)) middlesInOrder

/-- Edits have one order of places only. -/
theorem eq_of_pairwise_liesBefore
    {ordered ordered' : List TextEdit}
    (ascends : ∀ edit ∈ ordered, edit.Ascends)
    (inOrder : ordered.Pairwise LiesBefore)
    (inOrder' : ordered'.Pairwise LiesBefore)
    (perm : ordered.Perm ordered') :
    ordered = ordered' := by
  refine List.Perm.eq_of_pairwise ?_ inOrder inOrder' perm
  intro first second firstMember secondMember before behind
  have firstAscends := ascends first firstMember
  have secondAscends := ascends second (perm.symm.subset secondMember)
  obtain ⟨⟨start, stop⟩, new⟩ := first
  obtain ⟨⟨secondStart, secondStop⟩, secondNew⟩ := second
  simp only [LiesBefore, Ascends, Span.mk.injEq, ne_eq] at *
  omega

def InsertsAt (insertion replacement : TextEdit) : Prop :=
  insertion.span = ⟨replacement.span.start, replacement.span.start⟩

theorem InsertsAt.start_eq {insertion replacement : TextEdit}
    (inserts : insertion.InsertsAt replacement) :
    insertion.span.start = replacement.span.start := by
  rw [inserts]

theorem InsertsAt.ascends {insertion replacement : TextEdit}
    (inserts : insertion.InsertsAt replacement) :
    insertion.Ascends := by
  simp [Ascends, show insertion.span = _ from inserts]

/-- In these two lists are the same edits, in the order of their places and in
the order in which they are made: the last one first, but perhaps an insertion
before the replacement of what stands behind it. -/
inductive MadeAs : (ordered made : List TextEdit) → Prop where
  | none : MadeAs [] []
  | last (edit : TextEdit) {ordered made : List TextEdit} :
      MadeAs ordered made → MadeAs (edit :: ordered) (made ++ [edit])
  | insertionFirst {insertion replacement : TextEdit} {ordered made : List TextEdit} :
      insertion.InsertsAt replacement →
      MadeAs ordered made →
      MadeAs (insertion :: replacement :: ordered) (made ++ [insertion, replacement])

theorem MadeAs.perm {ordered made : List TextEdit} (madeAs : MadeAs ordered made) :
    made.Perm ordered := by
  induction madeAs with
  | none => exact .nil
  | last edit _ inductionHypothesis =>
      exact (List.perm_append_singleton edit _).trans (inductionHypothesis.cons edit)
  | insertionFirst _ _ inductionHypothesis =>
      exact List.perm_append_comm.trans ((inductionHypothesis.cons _).cons _)

/-- The edit that is made last begins at or before all others. -/
theorem exists_madeLast
    {ordered made : List TextEdit}
    {edit : TextEdit}
    (backwards : made.Pairwise fun first second => startsAtOrBehind first second = true)
    (perm : made.Perm ordered)
    (member : edit ∈ ordered) :
    ∃ earlier madeLast,
      made = earlier ++ [madeLast] ∧
        madeLast ∈ ordered ∧
          madeLast.span.start ≤ edit.span.start ∧
            earlier.Pairwise fun first second => startsAtOrBehind first second = true := by
  obtain rfl | ⟨earlier, madeLast, rfl⟩ := List.eq_nil_or_concat made
  · simpa using perm.symm.subset member
  rw [List.concat_eq_append] at backwards perm ⊢
  obtain ⟨earlierBackwards, _, before⟩ := List.pairwise_append.1 backwards
  refine ⟨earlier, madeLast, rfl, perm.subset (by simp), ?_, earlierBackwards⟩
  rcases List.mem_append.1 (perm.symm.subset member) with earlierMember | lastMember
  · simpa [startsAtOrBehind] using before edit earlierMember madeLast (by simp)
  · exact Nat.le_of_eq (by rw [List.mem_singleton.1 lastMember])

/-- An edit that begins before all others is made last. -/
theorem exists_madeLast_eq
    {edit : TextEdit}
    {others made : List TextEdit}
    (backwards : made.Pairwise fun first second => startsAtOrBehind first second = true)
    (perm : made.Perm (edit :: others))
    (begins : ∀ other ∈ others, edit.StartsBefore other) :
    ∃ earlier,
      made = earlier ++ [edit] ∧
        earlier.Perm others ∧
          earlier.Pairwise fun first second => startsAtOrBehind first second = true := by
  obtain ⟨earlier, madeLast, rfl, member, atOrBefore, earlierBackwards⟩ :=
    exists_madeLast backwards perm List.mem_cons_self
  obtain rfl : madeLast = edit := by
    rcases List.mem_cons.1 member with equality | other
    · exact equality
    · exact absurd (begins madeLast other) (Nat.not_lt_of_le atOrBefore)
  exact
    ⟨earlier, rfl, ((List.perm_append_singleton _ _).symm.trans perm).cons_inv,
      earlierBackwards⟩

/-- An edit that lies before another begins before it, or inserts where it
begins. -/
theorem LiesBefore.startsBefore_or_insertsAt
    {first second : TextEdit}
    (before : first.LiesBefore second)
    (ascends : first.Ascends) :
    first.StartsBefore second ∨ first.InsertsAt second := by
  obtain ⟨⟨firstStart, firstStop⟩, firstNew⟩ := first
  simp only [LiesBefore, Ascends, StartsBefore, InsertsAt, Span.mk.injEq] at *
  omega

/-- What an insertion touches replaces something, so that what lies behind it
begins behind it. -/
theorem InsertsAt.startsBefore
    {insertion replacement other : TextEdit}
    (inserts : insertion.InsertsAt replacement)
    (before : insertion.LiesBefore replacement)
    (ascends : replacement.Ascends)
    (behind : replacement.LiesBefore other) :
    replacement.StartsBefore other := by
  obtain ⟨⟨start, stop⟩, new⟩ := replacement
  have different := before.2
  have stops := behind.1
  simp only [InsertsAt] at inserts
  simp only [inserts, ne_eq, Span.mk.injEq, true_and] at different
  simp only [Ascends, StartsBefore] at ascends stops ⊢
  omega

/-- An insertion is made last or right before the replacement that it touches. -/
theorem exists_madeLast_of_insertsAt
    {insertion replacement : TextEdit}
    {others made : List TextEdit}
    (inserts : insertion.InsertsAt replacement)
    (backwards : made.Pairwise fun first second => startsAtOrBehind first second = true)
    (perm : made.Perm (insertion :: replacement :: others))
    (begins : ∀ other ∈ others, replacement.StartsBefore other) :
    ∃ earlier,
      (earlier.Pairwise fun first second => startsAtOrBehind first second = true) ∧
        (made = earlier ++ [insertion] ∧ earlier.Perm (replacement :: others) ∨
          made = earlier ++ [insertion, replacement] ∧ earlier.Perm others) := by
  have insertionBegins : ∀ other ∈ others, insertion.StartsBefore other := by
    intro other member
    rw [StartsBefore, inserts.start_eq]
    exact begins other member
  obtain ⟨earlier, madeLast, rfl, member, atOrBefore, earlierBackwards⟩ :=
    exists_madeLast backwards perm List.mem_cons_self
  have earlierPerm : (madeLast :: earlier).Perm (insertion :: replacement :: others) :=
    (List.perm_append_singleton _ _).symm.trans perm
  rcases List.mem_cons.1 member with rfl | laterMember
  · exact ⟨earlier, earlierBackwards, Or.inl ⟨rfl, earlierPerm.cons_inv⟩⟩
  rcases List.mem_cons.1 laterMember with rfl | otherMember
  · obtain ⟨first, rfl, firstPerm, firstBackwards⟩ :=
      exists_madeLast_eq earlierBackwards
        (earlierPerm.trans (.swap madeLast insertion others)).cons_inv insertionBegins
    exact ⟨first, firstBackwards, Or.inr ⟨List.append_assoc _ _ _, firstPerm⟩⟩
  · exact absurd (insertionBegins madeLast otherMember) (Nat.not_lt_of_le atOrBefore)

/-- However edits that do not overlap are sorted, they are made from the last to
the first but for the insertions. -/
theorem madeAs_of_perm :
    ∀ {ordered made : List TextEdit},
      (∀ edit ∈ ordered, edit.Ascends) →
        ordered.Pairwise LiesBefore →
          (made.Pairwise fun first second => startsAtOrBehind first second = true) →
            made.Perm ordered → MadeAs ordered made
  | [], made, _, _, _, perm => by
      rw [perm.eq_nil]
      exact .none
  | [edit], made, _, _, _, perm => by
      rw [perm.eq_singleton]
      exact .last edit .none
  | edit :: next :: rest, made, ascends, ordered, backwards, perm => by
      obtain ⟨editBefore, laterOrdered⟩ := List.pairwise_cons.1 ordered
      obtain ⟨nextBefore, restOrdered⟩ := List.pairwise_cons.1 laterOrdered
      have editLiesBefore := editBefore next List.mem_cons_self
      have laterAscend : ∀ later ∈ next :: rest, later.Ascends :=
        fun later member => ascends later (List.mem_cons_of_mem _ member)
      have nextAscends : next.Ascends := laterAscend next List.mem_cons_self
      rcases editLiesBefore.startsBefore_or_insertsAt (ascends edit List.mem_cons_self) with
        starts | inserts
      · have begins : ∀ later ∈ next :: rest, edit.StartsBefore later := by
          intro later member
          rcases List.mem_cons.1 member with rfl | restMember
          · exact starts
          · exact
              Nat.lt_of_lt_of_le starts
                (Nat.le_trans nextAscends (nextBefore later restMember).1)
        obtain ⟨earlier, rfl, earlierPerm, earlierBackwards⟩ :=
          exists_madeLast_eq backwards perm begins
        exact .last edit (madeAs_of_perm laterAscend laterOrdered earlierBackwards earlierPerm)
      · have begins : ∀ later ∈ rest, next.StartsBefore later :=
          fun later member =>
            inserts.startsBefore editLiesBefore nextAscends (nextBefore later member)
        have restAscend : ∀ later ∈ rest, later.Ascends :=
          fun later member => laterAscend later (List.mem_cons_of_mem _ member)
        obtain ⟨earlier, earlierBackwards, ⟨rfl, earlierPerm⟩ | ⟨rfl, earlierPerm⟩⟩ :=
          exists_madeLast_of_insertsAt inserts backwards perm begins
        · exact .last edit (madeAs_of_perm laterAscend laterOrdered earlierBackwards earlierPerm)
        · exact
            .insertionFirst inserts
              (madeAs_of_perm restAscend restOrdered earlierBackwards earlierPerm)

/-- Edits that begin at one place keep their order when they are sorted. -/
theorem pairwise_mergeSort_iff
    {related : TextEdit → TextEdit → Prop}
    (begins : ∀ {first second : TextEdit},
      first.span.start ≠ second.span.start → related first second)
    (listed : List TextEdit) :
    (listed.mergeSort startsAtOrBehind).Pairwise related ↔ listed.Pairwise related := by
  induction listed with
  | nil => simp
  | cons edit others inductionHypothesis =>
      obtain ⟨behind, rest, sorted, othersSorted, isBehind⟩ :=
        List.mergeSort_cons startsAtOrBehind_trans startsAtOrBehind_total edit others
      have different : ∀ other ∈ behind, edit.span.start ≠ other.span.start := by
        intro other member
        have isLater := isBehind other member
        simp only [startsAtOrBehind, Bool.not_eq_true', decide_eq_false_iff_not] at isLater
        omega
      have othersPerm : (behind ++ rest).Perm others :=
        othersSorted ▸ List.mergeSort_perm others startsAtOrBehind
      have toOthers :
          (∀ other ∈ others, related edit other) ↔ ∀ other ∈ rest, related edit other := by
        constructor
        · intro all other member
          exact all other (othersPerm.subset (List.mem_append_right _ member))
        · intro all other member
          rcases List.mem_append.1 (othersPerm.symm.subset member) with first | second
          · exact begins (different other first)
          · exact all other second
      rw [sorted, List.pairwise_cons, ← inductionHypothesis, othersSorted, toOthers]
      simp only [List.pairwise_append, List.pairwise_cons, List.mem_cons, forall_eq_or_imp]
      constructor
      · rintro ⟨behindRelated, ⟨editRelated, restRelated⟩, across⟩
        exact
          ⟨editRelated, behindRelated, restRelated, fun other member => (across other member).2⟩
      · rintro ⟨editRelated, behindRelated, restRelated, across⟩
        exact
          ⟨behindRelated, ⟨editRelated, restRelated⟩, fun other member =>
            ⟨begins (different other member).symm, across other member⟩⟩

end MacroRegions.TextEdit
