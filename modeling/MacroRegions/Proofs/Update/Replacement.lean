import MacroRegions.Proofs.Update.Edits

/-!
Edits made all at once.

When the spans of some edits lie one behind the other, all of them can be replaced at
once, and what is between them is kept. Making the edits one after the other, the last
one first, comes to the same.
-/

namespace MacroRegions

/-- What comes behind a longer part of a text is within what comes behind a
shorter one. -/
theorem Text.exists_append_of_le
    {front back front' back' : Text}
    (sameText : front ++ back = front' ++ back')
    (shorter : byteSize front ≤ byteSize front') :
    ∃ middle, front' = front ++ middle ∧ back = middle ++ back' := by
  rcases List.append_eq_append_iff.1 sameText with ⟨middle, rfl, rfl⟩ | ⟨middle, rfl, rfl⟩
  · exact ⟨middle, rfl, rfl⟩
  · cases middle with
    | nil => exact ⟨[], by simp, rfl⟩
    | cons c rest =>
        have positive := Char.utf8Size_pos c
        simp only [byteSize_append, byteSize_cons] at shorter
        omega

/-- The parts of a text before and behind a place. -/
theorem Text.eq_of_byteSize_eq
    {front back front' back' : Text}
    (sameText : front ++ back = front' ++ back')
    (sameSize : byteSize front = byteSize front') :
    front = front' ∧ back = back' := by
  obtain ⟨middle, rfl, rfl⟩ := exists_append_of_le sameText (Nat.le_of_eq sameSize)
  cases middle with
  | nil => exact ⟨(List.append_nil front).symm, rfl⟩
  | cons c rest =>
      have positive := Char.utf8Size_pos c
      simp only [byteSize_append, byteSize_cons] at sameSize
      omega

theorem Text.eq_nil_of_byteSize_eq_zero {text : Text} (empty : byteSize text = 0) :
    text = [] :=
  (eq_of_byteSize_eq (List.append_nil text) empty).1

namespace TextEdit

/-- The one text is the other with the spans of all edits replaced. The text
begins at `offset`, and the edits are listed from front to back. -/
inductive Replaces : (offset : Nat) → (edits : List TextEdit) → (text text' : Text) → Prop where
  | done (offset : Nat) (text : Text) : Replaces offset [] text text
  | edit (offset : Nat) (kept old new rest rest' : Text) (edits : List TextEdit) :
      Replaces (offset + Text.byteSize kept + Text.byteSize old) edits rest rest' →
      Replaces offset
        (⟨⟨offset + Text.byteSize kept, offset + Text.byteSize kept + Text.byteSize old⟩, new⟩ ::
          edits)
        (kept ++ old ++ rest) (kept ++ new ++ rest')

/-- What the first of some edits replaces, and what the others do behind it. -/
theorem Replaces.exists_of_cons
    {front text text' : Text}
    {edit : TextEdit}
    {others : List TextEdit}
    (replaced : Replaces (Text.byteSize front) (edit :: others) text text') :
    ∃ kept old new rest rest',
      edit =
          ⟨⟨Text.byteSize (front ++ kept), Text.byteSize (front ++ kept) + Text.byteSize old⟩,
            new⟩ ∧
        text = kept ++ old ++ rest ∧
          text' = kept ++ new ++ rest' ∧
            Replaces (Text.byteSize (front ++ kept ++ old)) others rest rest' := by
  cases replaced with
  | edit _ kept old new rest rest' _ replaced =>
      refine ⟨kept, old, new, rest, rest', ?_, rfl, rfl, ?_⟩
      · rw [Text.byteSize_append]
      · rwa [Text.byteSize_append, Text.byteSize_append]

/-- Replacing all spans at once can come to one text only. -/
theorem Replaces.unique
    {offset : Nat}
    {edits : List TextEdit}
    {text text' text'' : Text}
    (replaced : Replaces offset edits text text')
    (replacedToo : Replaces offset edits text text'') :
    text' = text'' := by
  induction replaced generalizing text'' with
  | done offset text =>
      cases replacedToo
      rfl
  | edit offset kept old new rest rest' edits replaced inductionHypothesis =>
      generalize textEq : kept ++ old ++ rest = text at replacedToo
      generalize editEq :
        (⟨⟨offset + Text.byteSize kept, offset + Text.byteSize kept + Text.byteSize old⟩, new⟩ :
          TextEdit) = edit at replacedToo
      cases replacedToo with
      | edit _ kept₂ old₂ new₂ rest₂ rest₂' _ replacedToo =>
          simp only [TextEdit.mk.injEq, Span.mk.injEq] at editEq
          obtain ⟨⟨startEq, stopEq⟩, rfl⟩ := editEq
          rw [List.append_assoc, List.append_assoc] at textEq
          obtain ⟨rfl, behindEq⟩ := Text.eq_of_byteSize_eq textEq (by omega)
          obtain ⟨rfl, rfl⟩ := Text.eq_of_byteSize_eq behindEq (by omega)
          rw [inductionHypothesis replacedToo]

/-- One edit ends where the other begins or before, and begins before it. -/
structure Precedes (first second : TextEdit) : Prop where
  starts : first.StartsBefore second
  stops : first.span.stop ≤ second.span.start

def IsSliceOf (offset : Nat) (text : Text) (edit : TextEdit) : Prop :=
  ∃ front old back,
    text = front ++ old ++ back ∧
      edit.span =
        ⟨offset + Text.byteSize front, offset + Text.byteSize front + Text.byteSize old⟩

theorem isSliceOf_zero_iff {edit : TextEdit} {text : Text} :
    edit.IsSliceOf 0 text ↔ (Text.slice? edit.span.start edit.span.stop text).isSome := by
  rw [Option.isSome_iff_exists]
  constructor
  · rintro ⟨front, old, back, textEq, spanEq⟩
    refine ⟨old, Text.slice?_eq_some_iff.2 ⟨front, back, textEq, ?_, ?_⟩⟩
    · rw [spanEq, Nat.zero_add]
    · rw [spanEq]
  · rintro ⟨old, sliced⟩
    obtain ⟨front, back, textEq, startEq, stopEq⟩ := Text.slice?_eq_some_iff.1 sliced
    refine ⟨front, old, back, textEq, ?_⟩
    rw [Nat.zero_add, startEq, stopEq]

/-- An edit that lies behind a part of a text lies in what comes behind it. -/
theorem IsSliceOf.behind
    {offset : Nat}
    {front rest : Text}
    {edit : TextEdit}
    (slice : edit.IsSliceOf offset (front ++ rest))
    (behind : offset + Text.byteSize front ≤ edit.span.start) :
    edit.IsSliceOf (offset + Text.byteSize front) rest := by
  obtain ⟨front', old, back, textEq, spanEq⟩ := slice
  rw [spanEq] at behind
  simp only at behind
  rw [List.append_assoc] at textEq
  obtain ⟨middle, rfl, rfl⟩ := Text.exists_append_of_le textEq (by omega)
  refine ⟨middle, old, back, by simp, ?_⟩
  simp only [spanEq, Text.byteSize_append, Nat.add_assoc]

/-- Edits that end where the next ones begin or before can be made all at once. -/
theorem exists_replaces_of_stops
    {edits : List TextEdit}
    (ordered : edits.Pairwise fun first second => first.span.stop ≤ second.span.start)
    (offset : Nat)
    (text : Text)
    (slices : ∀ edit ∈ edits, edit.IsSliceOf offset text) :
    ∃ text', Replaces offset edits text text' := by
  induction ordered generalizing offset text with
  | nil => exact ⟨text, .done offset text⟩
  | @cons edit others stops _ inductionHypothesis =>
      obtain ⟨kept, old, rest, rfl, spanEq⟩ := slices edit List.mem_cons_self
      have othersSlices : ∀ other ∈ others,
          other.IsSliceOf (offset + Text.byteSize (kept ++ old)) rest := by
        intro other member
        apply (slices other (List.mem_cons_of_mem _ member)).behind
        have behind := stops other member
        simp only [spanEq] at behind
        simp only [Text.byteSize_append]
        omega
      rw [Text.byteSize_append, ← Nat.add_assoc] at othersSlices
      obtain ⟨rest', replaced⟩ := inductionHypothesis _ rest othersSlices
      obtain ⟨span, new⟩ := edit
      simp only at spanEq
      subst spanEq
      exact ⟨_, .edit offset kept old new rest rest' others replaced⟩

/-- Edits that lie one behind the other can be made all at once. -/
theorem exists_replaces
    {edits : List TextEdit}
    (ordered : edits.Pairwise Precedes)
    (offset : Nat)
    (text : Text)
    (slices : ∀ edit ∈ edits, edit.IsSliceOf offset text) :
    ∃ text', Replaces offset edits text text' :=
  exists_replaces_of_stops (ordered.imp Precedes.stops) offset text slices

/-- Edits made from the last to the first come to the text with all spans
replaced. -/
theorem Replaces.foldlM_perform?
    {offset : Nat}
    {edits : List TextEdit}
    {text text' front : Text}
    (replaced : Replaces offset edits text text')
    (offsetEq : offset = Text.byteSize front) :
    edits.reverse.foldlM (fun current edit => edit.perform? current) (front ++ text) =
      some (front ++ text') := by
  induction replaced generalizing front with
  | done offset text => rfl
  | edit offset kept old new rest rest' edits _ inductionHypothesis =>
      have laterMade :
          edits.reverse.foldlM (fun current edit => edit.perform? current)
              (front ++ kept ++ old ++ rest) =
            some (front ++ kept ++ old ++ rest') :=
        inductionHypothesis (by rw [offsetEq, Text.byteSize_append, Text.byteSize_append])
      have made := perform?_append (front ++ kept) old rest' new
      rw [Text.byteSize_append, ← offsetEq] at made
      rw [List.reverse_cons, List.foldlM_append, ← List.append_assoc, ← List.append_assoc,
        laterMade]
      simp only [Option.bind_eq_bind, Option.bind_some, List.foldlM_cons, List.foldlM_nil, made]
      simp

/-- Edits that lie one behind the other are made all at once, in whatever order
they are listed. -/
theorem Replaces.applyAll?_of_perm
    {edits ordered : List TextEdit}
    {text text' : Text}
    (replaced : Replaces 0 ordered text text')
    (inOrder : ordered.Pairwise Precedes)
    (listed : edits.Perm ordered) :
    applyAll? edits text = some text' := by
  rw [applyAll?_eq_of_perm (inOrder.imp Precedes.starts) listed]
  exact replaced.foldlM_perform? Text.byteSize_nil.symm

end TextEdit

end MacroRegions
