import MacroRegions.Proofs.Text.Lines
import MacroRegions.Trivia.Lexeme

/-!
Lexing, one lexeme at a time.

A lexeme leads the text behind it when the lexer, at its first character, takes just
the lexeme. The lexemes of a text are the one list of lexemes of which each leads the
text of the others.
-/

namespace MacroRegions.Lexeme

private theorem stringLength_le (text : Text) : stringLength text ≤ text.length := by
  fun_induction stringLength text <;> grind

private theorem characterLength_le (text : Text) : characterLength text ≤ text.length := by
  fun_cases characterLength text <;> grind

theorem verbatimLength?_le
    {text : Text}
    {length : Nat}
    (found : verbatimLength? text = some length) :
    length ≤ text.length := by
  fun_induction verbatimLength? text generalizing length with
  | case1 => simp at found
  | case2 rest inductionHypothesis =>
      cases later : verbatimLength? rest with
      | none =>
          obtain rfl : 1 = length := by simpa [later] using found
          simp
      | some inner =>
          obtain rfl : inner + 2 = length := by simpa [later] using found
          have laterLe := inductionHypothesis later
          simp only [List.length_cons]
          omega
  | case3 rest _ =>
      obtain rfl : 1 = length := by simpa using found
      simp
  | case4 c rest _ _ inductionHypothesis =>
      obtain ⟨inner, later, rfl⟩ := Option.map_eq_some_iff.1 found
      have laterLe := inductionHypothesis later
      simp only [List.length_cons]
      omega

private theorem blockCommentLength?_le
    {text : Text}
    {length : Nat}
    (found : blockCommentLength? text = some length) :
    length ≤ text.length := by
  fun_induction blockCommentLength? text generalizing length with
  | case1 => simp at found
  | case2 rest =>
      obtain rfl : 2 = length := by simpa using found
      simp
  | case3 c rest _ inductionHypothesis =>
      obtain ⟨inner, later, rfl⟩ := Option.map_eq_some_iff.1 found
      have laterLe := inductionHypothesis later
      simp only [List.length_cons]
      omega

private theorem lineLength_le (text : Text) : lineLength text ≤ text.length :=
  Nat.le_trans
    (Text.withoutReturn_isPrefix _).length_le
    (Text.firstLine_isPrefix text).length_le

private theorem head_snd_le (lineBlank : Bool) (c : Char) (rest : Text) :
    (head lineBlank c rest).2 ≤ rest.length := by
  have onLine := lineLength_le (c :: rest)
  rw [List.length_cons] at onLine
  unfold head
  split
  · exact Nat.sub_le_of_le_add onLine
  · next inner =>
      split
      · next length found =>
          have foundLe := blockCommentLength?_le found
          simp only [List.length_cons]
          omega
      · exact Nat.le_refl _
  · split
    · split
      · exact Nat.sub_le_of_le_add onLine
      · exact Nat.zero_le _
    · exact Nat.zero_le _
  · exact stringLength_le rest
  · exact characterLength_le rest
  · next inner =>
      cases found : verbatimLength? inner with
      | none => simp
      | some length =>
          have foundLe := verbatimLength?_le found
          simp only [Option.getD_some, List.length_cons]
          omega
  · exact Nat.zero_le _

/-- The lexer takes just the lexeme from the text that it and `rest` make up. -/
def Leads (lineBlank : Bool) (lexeme : Lexeme) (rest : Text) : Prop :=
  ∃ c tail,
    lexeme.text = c :: tail ∧
      head lineBlank c (tail ++ rest) = (lexeme.kind, tail.length)

/-- Each lexeme of a list leads the text of those behind it. -/
def IsLexing (lineBlank : Bool) : List Lexeme → Prop
  | [] => True
  | lexeme :: rest =>
    lexeme.Leads lineBlank (rest.flatMap Lexeme.text) ∧
      IsLexing (blankAfter lineBlank lexeme.text) rest

theorem isLexing_cons {lineBlank : Bool} {lexeme : Lexeme} {rest : List Lexeme} :
    IsLexing lineBlank (lexeme :: rest) ↔
      lexeme.Leads lineBlank (rest.flatMap Lexeme.text) ∧
        IsLexing (blankAfter lineBlank lexeme.text) rest :=
  Iff.rfl

theorem IsLexing.exists_back
    {lineBlank : Bool}
    {front back : List Lexeme}
    (lexing : IsLexing lineBlank (front ++ back)) :
    ∃ lineBlank', IsLexing lineBlank' back := by
  induction front generalizing lineBlank with
  | nil => exact ⟨lineBlank, lexing⟩
  | cons lexeme rest inductionHypothesis => exact inductionHypothesis lexing.2

theorem isLexing_ofTextFrom (lineBlank : Bool) (text : Text) :
    IsLexing lineBlank (ofTextFrom lineBlank text) := by
  fun_induction ofTextFrom lineBlank text with
  | case1 => trivial
  | case2 lineBlank c rest kind extra headEq piece inductionHypothesis =>
      refine ⟨⟨c, rest.take extra, rfl, ?_⟩, inductionHypothesis⟩
      have fits : extra ≤ rest.length := by
        have headLe := head_snd_le lineBlank c rest
        rwa [headEq] at headLe
      rw [flatMap_text_ofTextFrom, List.take_append_drop, headEq, List.length_take,
        Nat.min_eq_left fits]

theorem ofTextFrom_flatMap_of_isLexing
    {lineBlank : Bool}
    {lexemes : List Lexeme}
    (lexing : IsLexing lineBlank lexemes) :
    ofTextFrom lineBlank (lexemes.flatMap Lexeme.text) = lexemes := by
  induction lexemes generalizing lineBlank with
  | nil => rw [List.flatMap_nil, ofTextFrom]
  | cons lexeme rest inductionHypothesis =>
      obtain ⟨⟨c, tail, shape, headEq⟩, lexingRest⟩ := lexing
      obtain ⟨kind, text⟩ := lexeme
      obtain rfl : text = c :: tail := shape
      rw [List.flatMap_cons, List.cons_append, ofTextFrom, headEq]
      simp only [List.take_left, List.drop_left]
      rw [inductionHypothesis lexingRest]

/-- The lexemes of a text are the one list of lexemes that lie end to end in
it and of which each leads the others. -/
theorem ofTextFrom_eq_iff
    {lineBlank : Bool}
    {text : Text}
    {lexemes : List Lexeme} :
    ofTextFrom lineBlank text = lexemes ↔
      lexemes.flatMap Lexeme.text = text ∧ IsLexing lineBlank lexemes := by
  constructor
  · rintro rfl
    exact ⟨flatMap_text_ofTextFrom lineBlank text, isLexing_ofTextFrom lineBlank text⟩
  · rintro ⟨rfl, lexing⟩
    exact ofTextFrom_flatMap_of_isLexing lexing

end MacroRegions.Lexeme
