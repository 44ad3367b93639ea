import MacroRegions.Proofs.Trivia.Acceptance

/-!
Faults of trivia.

A piece of trivia is at fault if its span is reversed, leaves the text, cuts a
character or begins before the previous piece ends, or if its text does not look like
its kind. The checker finds the first such piece, whatever comes behind it.
-/

namespace MacroRegions

namespace Trivia

/-- The span of a piece of trivia lies in a text and cuts no character, and `piece`
is what stands there. -/
def Covers (text : Text) (item : Trivia) (piece : Text) : Prop :=
  ∃ front back,
    text = front ++ piece ++ back ∧
      item.span = ⟨Text.byteSize front, Text.byteSize front + Text.byteSize piece⟩

def IsFaulty (text : Text) (previousStop : Nat) (item : Trivia) : Prop :=
  item.span.stop < item.span.start ∨
    (¬ ∃ piece, item.Covers text piece) ∨
    item.span.start < previousStop ∨
    ∃ piece, item.Covers text piece ∧ ¬ item.kind.Looks piece

/-- What is wrong with a piece of trivia. Where several things are, the first of
them counts. -/
inductive HasFault (text : Text) (previousStop : Nat) (item : Trivia) : TriviaFault → Prop where
  | reversed (backwards : item.span.stop < item.span.start) :
      HasFault text previousStop item .reversed
  | outOfBounds
      (forwards : item.span.start ≤ item.span.stop)
      (uncovered : ¬ ∃ piece, item.Covers text piece) :
      HasFault text previousStop item .outOfBounds
  | overlapping
      (piece : Text)
      (covers : item.Covers text piece)
      (early : item.span.start < previousStop) :
      HasFault text previousStop item .overlapping
  | misshapen
      (piece : Text)
      (covers : item.Covers text piece)
      (behind : previousStop ≤ item.span.start)
      (unlike : ¬ item.kind.Looks piece) :
      HasFault text previousStop item (.misshapen item.kind)

variable {text piece : Text} {previousStop index : Nat} {item : Trivia} {fault : TriviaFault}

theorem slice?_eq_some_iff_covers :
    Text.slice? item.span.start item.span.stop text = some piece ↔ item.Covers text piece := by
  rw [Text.slice?_eq_some_iff, Covers]
  constructor
  · rintro ⟨front, back, textEq, startEq, stopEq⟩
    exact ⟨front, back, textEq, by rw [startEq, stopEq]⟩
  · rintro ⟨front, back, textEq, spanEq⟩
    exact ⟨front, back, textEq, by rw [spanEq], by rw [spanEq]⟩

theorem Covers.start_le_stop (covers : item.Covers text piece) :
    item.span.start ≤ item.span.stop := by
  obtain ⟨front, _, _, spanEq⟩ := covers
  rw [spanEq]
  exact Nat.le_add_right _ _

theorem Covers.unique
    {piece' : Text}
    (covers : item.Covers text piece)
    (covers' : item.Covers text piece') :
    piece' = piece := by
  rw [← slice?_eq_some_iff_covers] at covers covers'
  exact Option.some.inj (covers'.symm.trans covers)

theorem slice?_eq_none_iff_not_covers :
    Text.slice? item.span.start item.span.stop text = none ↔ ¬ ∃ piece, item.Covers text piece := by
  simp only [Option.eq_none_iff_forall_ne_some, ne_eq, slice?_eq_some_iff_covers, not_exists]

/-- The checker finds what is wrong with a piece of trivia. -/
theorem fault?_eq_some_iff :
    fault? text previousStop item = some fault ↔ item.HasFault text previousStop fault := by
  rw [fault?]
  constructor
  · intro found
    split at found
    · next backwards =>
        obtain rfl := Option.some.inj found
        exact .reversed backwards
    · next forwards =>
        split at found
        · next sliced =>
            obtain rfl := Option.some.inj found
            exact .outOfBounds (Nat.le_of_not_lt forwards) (slice?_eq_none_iff_not_covers.1 sliced)
        · next piece sliced =>
            have covers := slice?_eq_some_iff_covers.1 sliced
            split at found
            · next early =>
                obtain rfl := Option.some.inj found
                exact .overlapping piece covers early
            · next behind =>
                split at found
                · cases found
                · next unfit =>
                    obtain rfl := Option.some.inj found
                    rw [TriviaKind.fits_iff_looks] at unfit
                    exact .misshapen piece covers (Nat.le_of_not_lt behind) unfit
  · intro faulty
    cases faulty with
    | reversed backwards => rw [if_pos backwards]
    | outOfBounds forwards uncovered =>
        rw [if_neg (Nat.not_lt_of_le forwards), slice?_eq_none_iff_not_covers.2 uncovered]
    | overlapping piece covers early =>
        rw [if_neg (Nat.not_lt_of_le covers.start_le_stop), slice?_eq_some_iff_covers.2 covers]
        exact if_pos early
    | misshapen piece covers behind unlike =>
        rw [if_neg (Nat.not_lt_of_le covers.start_le_stop), slice?_eq_some_iff_covers.2 covers]
        rw [← TriviaKind.fits_iff_looks] at unlike
        exact (if_neg (Nat.not_lt_of_le behind)).trans (if_neg unlike)

/-- Something is wrong exactly if one of the faults is there. -/
theorem isFaulty_iff_exists_hasFault :
    item.IsFaulty text previousStop ↔ ∃ fault, item.HasFault text previousStop fault := by
  constructor
  · intro faulty
    by_cases covered : ∃ piece, item.Covers text piece
    · obtain ⟨piece, covers⟩ := covered
      by_cases early : item.span.start < previousStop
      · exact ⟨.overlapping, .overlapping piece covers early⟩
      · refine ⟨.misshapen item.kind, .misshapen piece covers (Nat.le_of_not_lt early) ?_⟩
        obtain backwards | uncovered | early' | ⟨piece', covers', unlike⟩ := faulty
        · exact absurd backwards (Nat.not_lt_of_le covers.start_le_stop)
        · exact absurd ⟨piece, covers⟩ uncovered
        · exact absurd early' early
        · rwa [covers.unique covers'] at unlike
    · by_cases backwards : item.span.stop < item.span.start
      · exact ⟨.reversed, .reversed backwards⟩
      · exact ⟨.outOfBounds, .outOfBounds (Nat.le_of_not_lt backwards) covered⟩
  · rintro ⟨fault, hasFault⟩
    cases hasFault with
    | reversed backwards => exact .inl backwards
    | outOfBounds _ uncovered => exact .inr (.inl uncovered)
    | overlapping _ _ early => exact .inr (.inr (.inl early))
    | misshapen piece covers _ unlike => exact .inr (.inr (.inr ⟨piece, covers, unlike⟩))

theorem fault?_eq_none_iff_not_isFaulty :
    fault? text previousStop item = none ↔ ¬ item.IsFaulty text previousStop := by
  simp only [isFaulty_iff_exists_hasFault, Option.eq_none_iff_forall_ne_some, ne_eq,
    fault?_eq_some_iff, not_exists]

/-- Where the last piece of a list ends, or what is before the list if the list is
empty. -/
def stopBehind (previousStop : Nat) (trivia : List Trivia) : Nat :=
  (trivia.getLast?.map (·.span.stop)).getD previousStop

def Faultless (text : Text) (previousStop : Nat) (trivia : List Trivia) : Prop :=
  ∀ front item rest, trivia = front ++ item :: rest →
    ¬ item.IsFaulty text (stopBehind previousStop front)

/-- The piece of a number is the first one at fault, and `fault` is what is wrong
with it. -/
def IsFirstFault
    (text : Text)
    (previousStop : Nat)
    (trivia : List Trivia)
    (number : Nat)
    (fault : TriviaFault) :
    Prop :=
  ∃ front item rest,
    trivia = front ++ item :: rest ∧
      number = front.length ∧
      Faultless text previousStop front ∧
      item.HasFault text (stopBehind previousStop front) fault

@[simp]
theorem stopBehind_cons (previousStop : Nat) (item : Trivia) (rest : List Trivia) :
    stopBehind previousStop (item :: rest) = stopBehind item.span.stop rest := by
  rw [stopBehind, stopBehind, List.getLast?_cons]
  cases rest.getLast? <;> rfl

private theorem faultless_nil : Faultless text previousStop [] := by
  intro front item rest split
  cases front <;> cases split

private theorem faultless_cons {rest : List Trivia} :
    Faultless text previousStop (item :: rest) ↔
      ¬ item.IsFaulty text previousStop ∧ Faultless text item.span.stop rest := by
  constructor
  · intro faultless
    refine ⟨faultless [] item rest rfl, ?_⟩
    rintro front other later rfl
    have sound := faultless (item :: front) other later rfl
    rwa [stopBehind_cons] at sound
  · rintro ⟨itemSound, restSound⟩ front other later split
    cases front with
    | nil =>
        obtain ⟨rfl, _⟩ := List.cons.inj split
        exact itemSound
    | cons first front =>
        obtain ⟨rfl, restEq⟩ := List.cons.inj split
        rw [stopBehind_cons]
        exact restSound front other later restEq

theorem firstFaultFrom_eq_none_iff_faultless {trivia : List Trivia} :
    firstFaultFrom text previousStop index trivia = none ↔ Faultless text previousStop trivia := by
  induction trivia generalizing previousStop index with
  | nil => simp [firstFaultFrom, faultless_nil]
  | cons item rest inductionHypothesis =>
      rw [firstFaultFrom, faultless_cons, ← fault?_eq_none_iff_not_isFaulty]
      cases fault? text previousStop item with
      | none => simp [inductionHypothesis]
      | some fault => simp

/-- The checker finds a fault exactly if a piece is at fault. -/
theorem firstFault?_ne_none_iff {trivia : List Trivia} :
    firstFault? text trivia ≠ none ↔
      ∃ front item rest, trivia = front ++ item :: rest ∧
        item.IsFaulty text (stopBehind 0 front) := by
  rw [firstFault?, ne_eq, firstFaultFrom_eq_none_iff_faultless, Faultless]
  simp only [Classical.not_forall, Classical.not_not, exists_prop]

private theorem firstFaultFrom_append
    {front : List Trivia}
    (rest : List Trivia)
    (faultless : Faultless text previousStop front) :
    firstFaultFrom text previousStop index (front ++ rest) =
      firstFaultFrom text (stopBehind previousStop front) (index + front.length) rest := by
  induction front generalizing previousStop index with
  | nil => rfl
  | cons item front inductionHypothesis =>
      obtain ⟨itemSound, frontSound⟩ := faultless_cons.1 faultless
      rw [List.cons_append, firstFaultFrom, fault?_eq_none_iff_not_isFaulty.2 itemSound]
      simp only [inductionHypothesis frontSound, stopBehind_cons, List.length_cons, Nat.add_assoc,
        Nat.add_comm 1]

private theorem exists_isFirstFault_of_firstFaultFrom
    {trivia : List Trivia}
    {place : Nat}
    (found : firstFaultFrom text previousStop index trivia = some (place, fault)) :
    ∃ number, place = index + number ∧ IsFirstFault text previousStop trivia number fault := by
  induction trivia generalizing previousStop index with
  | nil => cases found
  | cons item rest inductionHypothesis =>
      rw [firstFaultFrom] at found
      split at found
      · next first faultEq =>
          obtain ⟨rfl, rfl⟩ := Prod.mk.inj (Option.some.inj found)
          exact ⟨0, rfl, [], item, rest, rfl, rfl, faultless_nil, fault?_eq_some_iff.1 faultEq⟩
      · next sound =>
          obtain ⟨_, placeEq, front, other, later, rfl, rfl, faultless, hasFault⟩ :=
            inductionHypothesis found
          have itemSound := fault?_eq_none_iff_not_isFaulty.1 sound
          refine ⟨front.length + 1, by omega, item :: front, other, later, rfl, rfl,
            faultless_cons.2 ⟨itemSound, faultless⟩, ?_⟩
          rwa [stopBehind_cons]

/-- The checker reports the first piece at fault. -/
theorem firstFault?_eq_some_iff {trivia : List Trivia} {number : Nat} :
    firstFault? text trivia = some (number, fault) ↔ IsFirstFault text 0 trivia number fault := by
  rw [firstFault?]
  constructor
  · intro found
    obtain ⟨number', placeEq, isFirst⟩ := exists_isFirstFault_of_firstFaultFrom found
    rw [Nat.zero_add] at placeEq
    rwa [placeEq]
  · rintro ⟨front, item, rest, rfl, rfl, faultless, hasFault⟩
    rw [firstFaultFrom_append _ faultless, firstFaultFrom, fault?_eq_some_iff.2 hasFault,
      Nat.zero_add]

example :
    firstFault? "//a\n//b".toList
        [⟨.lineComment, 0, 3⟩, ⟨.lineComment, 2, 7⟩, ⟨.blockComment, 9, 1⟩] =
      some (1, .overlapping) := by
  decide

end Trivia

end MacroRegions
