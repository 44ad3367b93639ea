import MacroRegions.Proofs.Trivia.Concatenation

/-!
Lexemes at their places.

Every character of a text is in exactly one of its lexemes, and trivia is what some
lexemes are. Two lexemes which hold the same byte are one.
-/

namespace MacroRegions

namespace Lexeme

theorem byteSize_pos_of_mem_ofText
    {text : Text}
    {lexeme : Lexeme}
    (member : lexeme ∈ ofText text) :
    0 < Text.byteSize lexeme.text := by
  have nonempty := List.length_pos_iff.2 (text_ne_nil_of_mem_ofTextFrom member)
  exact Nat.lt_of_lt_of_le nonempty (Text.length_le_byteSize lexeme.text)

/-- In a list of lexemes, `lexeme` stands between the texts `front` and `rest`. -/
def StandsIn (lexemes : List Lexeme) (front : Text) (lexeme : Lexeme) (rest : Text) : Prop :=
  ∃ before after,
    lexemes = before ++ lexeme :: after ∧
      before.flatMap Lexeme.text = front ∧ after.flatMap Lexeme.text = rest

theorem IsLexing.back
    {lineBlank : Bool}
    {front back : List Lexeme}
    (lexing : IsLexing lineBlank (front ++ back)) :
    IsLexing (blankAfter lineBlank (front.flatMap Lexeme.text)) back := by
  induction front generalizing lineBlank with
  | nil => exact lexing
  | cons lexeme rest inductionHypothesis =>
      rw [List.flatMap_cons, blankAfter_append]
      exact inductionHypothesis lexing.2

namespace StandsIn

variable {lexemes : List Lexeme} {front front' rest rest' : Text} {lexeme lexeme' : Lexeme}

theorem cons
    (stands : StandsIn lexemes front lexeme rest)
    (first : Lexeme) :
    StandsIn (first :: lexemes) (first.text ++ front) lexeme rest := by
  obtain ⟨before, after, rfl, rfl, rfl⟩ := stands
  exact ⟨first :: before, after, rfl, rfl, rfl⟩

theorem mem (stands : StandsIn lexemes front lexeme rest) : lexeme ∈ lexemes := by
  obtain ⟨before, after, rfl, _⟩ := stands
  exact List.mem_append_right before List.mem_cons_self

theorem text_eq (stands : StandsIn lexemes front lexeme rest) :
    lexemes.flatMap Lexeme.text = front ++ (lexeme.text ++ rest) := by
  obtain ⟨before, after, rfl, rfl, rfl⟩ := stands
  rw [List.flatMap_append, List.flatMap_cons]

theorem split
    {text : Text}
    (stands : StandsIn (ofText text) front lexeme rest) :
    text = front ++ (lexeme.text ++ rest) := by
  rw [← stands.text_eq, flatMap_text_ofText]

/-- A lexeme of a text leads what stands behind it. -/
theorem leads
    {text : Text}
    (stands : StandsIn (ofText text) front lexeme rest) :
    lexeme.Leads (blankAfter true front) rest := by
  obtain ⟨before, after, lexemesEq, rfl, rfl⟩ := stands
  have lexing := isLexing_ofTextFrom true text
  rw [← ofText, lexemesEq] at lexing
  exact lexing.back.1

/-- Two lexemes that hold the same byte are one lexeme at one place. -/
theorem unique
    {offset : Nat}
    (stands : StandsIn lexemes front lexeme rest)
    (stands' : StandsIn lexemes front' lexeme' rest')
    (begun : Text.byteSize front ≤ offset)
    (ended : offset < Text.byteSize front + Text.byteSize lexeme.text)
    (begun' : Text.byteSize front' ≤ offset)
    (ended' : offset < Text.byteSize front' + Text.byteSize lexeme'.text) :
    front = front' ∧ lexeme = lexeme' ∧ rest = rest' := by
  obtain ⟨before, after, lexemesEq, rfl, rfl⟩ := stands
  obtain ⟨before', after', lexemesEq', rfl, rfl⟩ := stands'
  -- if one of them stood behind the other, it would begin too late to hold the byte
  rcases List.append_eq_append_iff.1 (lexemesEq.symm.trans lexemesEq') with
    ⟨more, beforeEq, behindEq⟩ | ⟨more, beforeEq, behindEq⟩
  · cases more with
    | nil =>
        obtain ⟨rfl, rfl⟩ := List.cons.inj behindEq
        rw [beforeEq, List.append_nil]
        exact ⟨rfl, rfl, rfl⟩
    | cons first more =>
        obtain ⟨rfl, _⟩ := List.cons.inj behindEq
        rw [beforeEq, List.flatMap_append, List.flatMap_cons, Text.byteSize_append,
          Text.byteSize_append] at begun'
        omega
  · cases more with
    | nil =>
        obtain ⟨rfl, rfl⟩ := List.cons.inj behindEq
        rw [beforeEq, List.append_nil]
        exact ⟨rfl, rfl, rfl⟩
    | cons first more =>
        obtain ⟨rfl, _⟩ := List.cons.inj behindEq
        rw [beforeEq, List.flatMap_append, List.flatMap_cons, Text.byteSize_append,
          Text.byteSize_append] at begun
        omega

end StandsIn

/-- A character of the text of lexemes is in one of them. -/
theorem exists_standsIn
    {lexemes : List Lexeme}
    {front back : Text}
    {c : Char}
    (split : lexemes.flatMap Lexeme.text = front ++ c :: back) :
    ∃ before lexeme rest left right,
      StandsIn lexemes before lexeme rest ∧
        front = before ++ left ∧ lexeme.text = left ++ c :: right ∧ back = right ++ rest := by
  induction lexemes generalizing front with
  | nil => simp at split
  | cons first others inductionHypothesis =>
      have later
          {more : Text}
          (frontEq : front = first.text ++ more)
          (othersEq : others.flatMap Lexeme.text = more ++ c :: back) :
          ∃ before lexeme rest left right,
            StandsIn (first :: others) before lexeme rest ∧
              front = before ++ left ∧ lexeme.text = left ++ c :: right ∧
                back = right ++ rest := by
        obtain ⟨before, lexeme, rest, left, right, stands, moreEq, lexemeEq, backEq⟩ :=
          inductionHypothesis othersEq
        refine
          ⟨first.text ++ before, lexeme, rest, left, right, stands.cons first, ?_, lexemeEq,
            backEq⟩
        rw [frontEq, moreEq, List.append_assoc]
      rw [List.flatMap_cons] at split
      rcases List.append_eq_append_iff.1 split with
        ⟨more, frontEq, othersEq⟩ | ⟨more, firstEq, behindEq⟩
      · exact later frontEq othersEq
      · cases more with
        | nil =>
            -- the character is the first one behind this lexeme
            rw [List.append_nil] at firstEq
            have frontEq : front = first.text ++ [] := by rw [firstEq, List.append_nil]
            exact later frontEq behindEq.symm
        | cons d more =>
            obtain ⟨rfl, rfl⟩ := List.cons.inj behindEq
            exact
              ⟨[], first, others.flatMap Lexeme.text, front, more, ⟨[], others, rfl, rfl, rfl⟩,
                rfl, firstEq, rfl⟩

end Lexeme

namespace Trivia

theorem mem_ofLexemesFrom_iff {offset : Nat} {lexemes : List Lexeme} {item : Trivia} :
    item ∈ ofLexemesFrom offset lexemes ↔
      ∃ front lexeme rest kind,
        Lexeme.StandsIn lexemes front lexeme rest ∧
          lexeme.kind = .trivia kind ∧
          item =
            ⟨kind, offset + Text.byteSize front,
              offset + Text.byteSize front + Text.byteSize lexeme.text⟩ := by
  constructor
  · intro member
    induction lexemes generalizing offset with
    | nil => simp [ofLexemesFrom] at member
    | cons first others inductionHypothesis =>
        have later
            (memberLater : item ∈ ofLexemesFrom (offset + Text.byteSize first.text) others) :
            ∃ front lexeme rest kind,
              Lexeme.StandsIn (first :: others) front lexeme rest ∧
                lexeme.kind = .trivia kind ∧
                item =
                  ⟨kind, offset + Text.byteSize front,
                    offset + Text.byteSize front + Text.byteSize lexeme.text⟩ := by
          obtain ⟨front, lexeme, rest, kind, stands, kindEq, itemEq⟩ :=
            inductionHypothesis memberLater
          refine ⟨first.text ++ front, lexeme, rest, kind, stands.cons first, kindEq, ?_⟩
          rw [itemEq, Text.byteSize_append, Nat.add_assoc offset]
        rw [ofLexemesFrom] at member
        split at member
        · next kind isTrivia =>
            rcases List.mem_cons.1 member with rfl | memberLater
            · exact ⟨[], first, _, kind, ⟨[], others, rfl, rfl, rfl⟩, isTrivia, rfl⟩
            · exact later memberLater
        · exact later member
  · intro found
    obtain ⟨_, lexeme, _, kind, ⟨before, after, rfl, rfl, rfl⟩, isTrivia, rfl⟩ := found
    rw [ofLexemesFrom_append]
    refine List.mem_append_right _ ?_
    simp [ofLexemesFrom, isTrivia]

/-- The trivia of a text is what its lexemes of that kind span. -/
theorem mem_extract_iff {text : Text} {item : Trivia} :
    item ∈ extract text ↔
      ∃ front lexeme rest kind,
        Lexeme.StandsIn (Lexeme.ofText text) front lexeme rest ∧
          lexeme.kind = .trivia kind ∧
          item =
            ⟨kind, Text.byteSize front, Text.byteSize front + Text.byteSize lexeme.text⟩ := by
  rw [extract, mem_ofLexemesFrom_iff]
  simp only [Nat.zero_add]

end Trivia

end MacroRegions
