import MacroRegions.Proofs.Trivia.Lexing
import MacroRegions.Proofs.Trivia.Order

/-!
The shapes of lexemes.

`Shape` lists everything that a lexeme in front of a text can be, with the
rule by which it ends. From it follows that the trivia which lexing finds has
no fault.
-/

namespace MacroRegions

theorem TriviaKind.fits_blockComment (inner : Text) :
    blockComment.fits ('/' :: '*' :: (inner ++ ['*', '/'])) = true := by
  have closed :
      Text.beforeSuffix? ['*', '/'] ('/' :: '*' :: (inner ++ ['*', '/'])) =
        some ('/' :: '*' :: inner) :=
    Text.beforeSuffix?_eq_some_iff.2 rfl
  have size : 4 ≤ Text.byteSize ('/' :: '*' :: (inner ++ ['*', '/'])) := by
    have slash : '/'.utf8Size = 1 := rfl
    have star : '*'.utf8Size = 1 := rfl
    simp only [Text.byteSize_cons, Text.byteSize_append, Text.byteSize_nil, slash, star]
    omega
  rw [fits, closed, decide_eq_true size]
  rfl

end MacroRegions

namespace MacroRegions.Lexeme

def NoClose (text : Text) : Prop :=
  ¬ ['*', '/'] <:+: text

instance (text : Text) : Decidable (NoClose text) :=
  inferInstanceAs (Decidable (¬ _))

theorem blockCommentLength?_eq_none_iff {text : Text} :
    blockCommentLength? text = none ↔ NoClose text := by
  unfold NoClose
  fun_induction blockCommentLength? text with
  | case1 => simp
  | case2 rest => simpa using ⟨[], rest, rfl⟩
  | case3 c rest opens inductionHypothesis =>
      rw [Option.map_eq_none_iff, inductionHypothesis, List.infix_cons_iff, not_or]
      have notHere : ¬ ['*', '/'] <+: c :: rest := by
        rintro ⟨after, equality⟩
        obtain ⟨rfl, rfl⟩ := List.cons.inj equality
        exact opens after rfl rfl
      simp [notHere]

theorem NoClose.of_isInfix
    {part text : Text}
    (noClose : NoClose text)
    (contained : part <:+: text) :
    NoClose part :=
  fun close => noClose (close.trans contained)

theorem NoClose.append
    {left right : Text}
    (leftOpen : NoClose left)
    (rightOpen : NoClose right)
    (apart : left.getLast? ≠ some '*' ∨ right.head? ≠ some '/') :
    NoClose (left ++ right) := by
  intro close
  rcases List.infix_append_iff_ne_nil.1 close with
    inLeft | inRight | ⟨x, y, xSome, ySome, equality, xSuffix, yPrefix⟩
  · exact leftOpen inLeft
  · exact rightOpen inRight
  · obtain ⟨rfl, rfl⟩ : x = ['*'] ∧ y = ['/'] := by
      match x, y, xSome, ySome, equality with
      | [_], [_], _, _, equality => simpa [eq_comm] using equality
      | _ :: _ :: _, _ :: _, _, _, equality => simp at equality
      | [_], _ :: _ :: _, _, _, equality => simp at equality
    obtain ⟨before, rfl⟩ := xSuffix
    obtain ⟨after, rfl⟩ := yPrefix
    simp at apart

/-- A block comment closes where two characters close it for the first time. -/
theorem blockCommentLength?_eq_some_iff {text : Text} {length : Nat} :
    blockCommentLength? text = some length ↔
      ∃ front rest,
        text = front ++ '*' :: '/' :: rest ∧
          NoClose (front ++ ['*']) ∧ length = front.length + 2 := by
  constructor
  · intro found
    fun_induction blockCommentLength? text generalizing length with
    | case1 => simp at found
    | case2 rest =>
        obtain rfl : 2 = length := by simpa using found
        exact ⟨[], rest, rfl, by unfold NoClose; decide, rfl⟩
    | case3 c tail opens inductionHypothesis =>
        obtain ⟨inner, later, rfl⟩ := Option.map_eq_some_iff.1 found
        obtain ⟨front, rest, rfl, noClose, rfl⟩ := inductionHypothesis later
        refine ⟨c :: front, rest, rfl, ?_, by simp⟩
        intro close
        rcases List.infix_cons_iff.1 close with here | inside
        · cases front with
          | nil => simp at here
          | cons d front =>
              obtain ⟨rfl, rfl⟩ : '*' = c ∧ '/' = d := by simpa using here
              exact opens _ rfl rfl
        · exact noClose inside
  · rintro ⟨front, rest, rfl, noClose, rfl⟩
    induction front with
    | nil => simp [blockCommentLength?]
    | cons c front inductionHypothesis =>
        have shorter : NoClose (front ++ ['*']) :=
          noClose.of_isInfix (List.suffix_cons c _).isInfix
        have notHere :
            ∀ after, c = '*' → front ++ '*' :: '/' :: rest = '/' :: after → False := by
          rintro after rfl equality
          cases front with
          | nil => simp at equality
          | cons d front =>
              obtain ⟨rfl, _⟩ := List.cons.inj equality
              exact noClose ⟨[], front ++ ['*'], rfl⟩
        rw [List.cons_append, blockCommentLength?.eq_3 c _ notHere, inductionHypothesis shorter,
          List.length_cons]
        rfl

/-- What a lexeme in front of `rest` can be, and why it ends there. -/
inductive Shape (lineBlank : Bool) (rest : Text) : Lexeme → Prop where
  | lineComment (tail : Text)
      (ends :
        Text.withoutReturn (Text.firstLine ('/' :: '/' :: (tail ++ rest))) =
          '/' :: '/' :: tail) :
      Shape lineBlank rest ⟨.trivia .lineComment, '/' :: '/' :: tail⟩
  | blockComment (front : Text) (noClose : NoClose (front ++ ['*'])) :
      Shape lineBlank rest
        ⟨.trivia .blockComment, '/' :: '*' :: (front ++ ['*', '/'])⟩
  | openComment (inner : Text) (noClose : NoClose inner) (last : rest = []) :
      Shape lineBlank rest ⟨.openComment, '/' :: '*' :: inner⟩
  | directive (directive : Directive) (after tail : Text)
      (blank : lineBlank = true)
      (reads : Directive.read? ('#' :: tail) = some (directive, after))
      (ends :
        Text.withoutReturn (Text.firstLine ('#' :: (tail ++ rest))) = '#' :: tail) :
      Shape lineBlank rest ⟨.trivia directive.triviaKind, '#' :: tail⟩
  | string (tail : Text) (ends : stringLength (tail ++ rest) = tail.length) :
      Shape lineBlank rest ⟨.literal, '"' :: tail⟩
  | character (tail : Text) (ends : characterLength (tail ++ rest) = tail.length) :
      Shape lineBlank rest ⟨.literal, '\'' :: tail⟩
  | verbatim (tail : Text)
      (ends : (verbatimLength? (tail ++ rest)).getD (tail ++ rest).length = tail.length) :
      Shape lineBlank rest ⟨.literal, '@' :: '"' :: tail⟩
  | plain (c : Char) (alone : head lineBlank c rest = (.plain, 0)) :
      Shape lineBlank rest ⟨.plain, [c]⟩

/-- The first line of a text, if it is longer than `tail` by the first
character, is that character and `tail`. -/
private theorem line_eq_of_length
    {c : Char}
    {tail rest : Text}
    (notNewline : c ≠ '\n')
    (notReturn : c ≠ '\r')
    (length : lineLength (c :: (tail ++ rest)) - 1 = tail.length) :
    Text.withoutReturn (Text.firstLine (c :: (tail ++ rest))) = c :: tail := by
  have isPrefix :
      Text.withoutReturn (Text.firstLine (c :: (tail ++ rest))) <+: c :: (tail ++ rest) :=
    (Text.withoutReturn_isPrefix _).trans (Text.firstLine_isPrefix _)
  have some : Text.withoutReturn (Text.firstLine (c :: (tail ++ rest))) ≠ [] := by
    rw [Text.firstLine_cons_of_ne notNewline]
    intro none
    rcases Text.withoutReturn_cases (c :: Text.firstLine (tail ++ rest)) with
      equality | ⟨_, equality⟩
    · rw [none] at equality
      exact notReturn (List.cons.inj equality).1
    · rw [none] at equality
      cases equality
  have size := List.length_pos_iff.2 some
  rw [lineLength] at length
  refine List.IsPrefix.eq_of_length ?_ (by rw [List.length_cons]; omega)
  exact
    List.prefix_of_prefix_length_le isPrefix ⟨rest, rfl⟩ (by rw [List.length_cons]; omega)

private theorem shape_of_head_eq_plain
    {lineBlank : Bool}
    {c : Char}
    {kind : Kind}
    {tail rest : Text}
    (headEq : head lineBlank c (tail ++ rest) = (kind, tail.length))
    (plain : (Kind.plain, 0) = (kind, tail.length)) :
    Shape lineBlank rest ⟨kind, c :: tail⟩ := by
  obtain ⟨rfl, length⟩ := Prod.mk.inj plain
  obtain rfl := List.eq_nil_of_length_eq_zero length.symm
  exact .plain c headEq

/-- A leading lexeme has one of the shapes. -/
theorem Leads.shape
    {lineBlank : Bool}
    {lexeme : Lexeme}
    {rest : Text}
    (leads : lexeme.Leads lineBlank rest) :
    Shape lineBlank rest lexeme := by
  obtain ⟨kind, text⟩ := lexeme
  obtain ⟨c, tail, rfl, headEq⟩ := leads
  have taken := headEq
  unfold head at taken
  split at taken
  · next equality =>
      obtain ⟨rfl, length⟩ := Prod.mk.inj taken
      have ends := line_eq_of_length (by decide) (by decide) length
      cases tail with
      | nil =>
          obtain rfl : rest = '/' :: _ := equality
          rcases Text.withoutReturn_cases (Text.firstLine ('/' :: ([] ++ '/' :: _))) with
            whole | ⟨_, whole⟩
          · rw [ends] at whole
            simp [Text.firstLine_cons_of_ne] at whole
          · rw [ends] at whole
            simp [Text.firstLine_cons_of_ne] at whole
      | cons d tail =>
          obtain rfl : d = '/' := (List.cons.inj equality).1
          exact .lineComment tail ends
  · next inner equality =>
      split at taken
      · next length found =>
          obtain ⟨rfl, lengthEq⟩ := Prod.mk.inj taken
          obtain ⟨front, after, rfl, noClose, rfl⟩ := blockCommentLength?_eq_some_iff.1 found
          obtain ⟨rfl, -⟩ : tail = '*' :: (front ++ ['*', '/']) ∧ rest = after := by
            refine List.append_inj (equality.trans (by simp)) ?_
            simp only [List.length_cons, List.length_append, List.length_nil]
            omega
          exact .blockComment front noClose
      · next notFound =>
          obtain ⟨rfl, lengthEq⟩ := Prod.mk.inj taken
          obtain rfl : rest = [] := by
            rw [List.length_append] at lengthEq
            exact List.eq_nil_of_length_eq_zero (by omega)
          rw [List.append_nil] at equality
          subst equality
          exact .openComment inner (blockCommentLength?_eq_none_iff.1 notFound) rfl
  · split at taken
    · next blank =>
        split at taken
        · next kind' found =>
            obtain ⟨rfl, length⟩ := Prod.mk.inj taken
            have ends := line_eq_of_length (by decide) (by decide) length
            obtain ⟨⟨directive, after⟩, reads, rfl⟩ := Option.map_eq_some_iff.1 found
            rw [ends] at reads
            exact .directive directive after tail blank reads ends
        · exact shape_of_head_eq_plain headEq taken
    · exact shape_of_head_eq_plain headEq taken
  · obtain ⟨rfl, length⟩ := Prod.mk.inj taken
    exact .string tail length
  · obtain ⟨rfl, length⟩ := Prod.mk.inj taken
    exact .character tail length
  · next inner equality =>
      obtain ⟨rfl, length⟩ := Prod.mk.inj taken
      cases tail with
      | nil => simp at length
      | cons d tail =>
          obtain ⟨rfl, rfl⟩ := List.cons.inj equality
          exact .verbatim tail (by simpa using length)
  · exact shape_of_head_eq_plain headEq taken

theorem Shape.leads
    {lineBlank : Bool}
    {lexeme : Lexeme}
    {rest : Text}
    (shape : Shape lineBlank rest lexeme) :
    lexeme.Leads lineBlank rest := by
  cases shape with
  | lineComment tail ends =>
      refine ⟨'/', '/' :: tail, rfl, ?_⟩
      simp [head, lineLength, ends]
  | blockComment front noClose =>
      have found :
          blockCommentLength? (front ++ '*' :: '/' :: rest) = some (front.length + 2) :=
        blockCommentLength?_eq_some_iff.2 ⟨front, rest, rfl, noClose, rfl⟩
      refine ⟨'/', '*' :: (front ++ ['*', '/']), rfl, ?_⟩
      simp [head, found]
  | openComment inner noClose last =>
      subst last
      refine ⟨'/', '*' :: inner, rfl, ?_⟩
      simp [head, blockCommentLength?_eq_none_iff.2 noClose]
  | directive directive after tail blank reads ends =>
      refine ⟨'#', tail, rfl, ?_⟩
      simp [head, blank, lineLength, ends, directiveAt?, reads]
  | string tail ends => exact ⟨'"', tail, rfl, by simp [head, ends]⟩
  | character tail ends => exact ⟨'\'', tail, rfl, by simp [head, ends]⟩
  | verbatim tail ends =>
      refine ⟨'@', '"' :: tail, rfl, ?_⟩
      simpa [head] using ends
  | plain c alone => exact ⟨c, [], rfl, alone⟩

/-- The text of a lexeme that is trivia has the shape of its kind. -/
theorem Shape.fits
    {lineBlank : Bool}
    {lexeme : Lexeme}
    {rest : Text}
    {kind : TriviaKind}
    (shape : Shape lineBlank rest lexeme)
    (isTrivia : lexeme.kind = .trivia kind) :
    kind.fits lexeme.text = true := by
  cases shape with
  | lineComment tail ends =>
      obtain rfl : TriviaKind.lineComment = kind := by simpa using isTrivia
      have oneLine : '\n' ∉ '/' :: '/' :: tail :=
        (Text.withoutReturn_firstLine_append_iff.1 ends).1
      simpa [TriviaKind.fits, Text.afterPrefix?] using oneLine
  | blockComment front noClose =>
      obtain rfl : TriviaKind.blockComment = kind := by simpa using isTrivia
      exact TriviaKind.fits_blockComment front
  | directive directive after tail blank reads ends =>
      obtain rfl : directive.triviaKind = kind := by simpa using isTrivia
      cases directive <;> simp [TriviaKind.fits, Directive.triviaKind, reads]
  | openComment => simp at isTrivia
  | string => simp at isTrivia
  | character => simp at isTrivia
  | verbatim => simp at isTrivia
  | plain => simp at isTrivia

end MacroRegions.Lexeme

namespace MacroRegions.Trivia

/-- Trivia taken from a lexing that stands in a text has no fault. -/
theorem firstFaultFrom_ofLexemesFrom
    (before : Text)
    (lineBlank : Bool)
    (lexemes : List Lexeme)
    (lexing : Lexeme.IsLexing lineBlank lexemes)
    (previousStop index : Nat)
    (behind : previousStop ≤ Text.byteSize before) :
    firstFaultFrom (before ++ lexemes.flatMap Lexeme.text) previousStop index
      (ofLexemesFrom (Text.byteSize before) lexemes) = none := by
  induction lexemes generalizing before lineBlank previousStop index with
  | nil => rfl
  | cons lexeme rest inductionHypothesis =>
      obtain ⟨leads, lexingRest⟩ := lexing
      have later := inductionHypothesis (before ++ lexeme.text) _ lexingRest
      simp only [Text.byteSize_append, List.append_assoc] at later
      rw [List.flatMap_cons, ofLexemesFrom]
      split
      · next kind isTrivia =>
          have holds :
              Holds (before ++ (lexeme.text ++ rest.flatMap Lexeme.text))
                ⟨kind, Text.byteSize before,
                  Text.byteSize before + Text.byteSize lexeme.text⟩ :=
            ⟨lexeme.text,
              Text.slice?_eq_some_iff.2
                ⟨before, rest.flatMap Lexeme.text, by simp, rfl, rfl⟩,
              leads.shape.fits isTrivia⟩
          rw [firstFaultFrom, fault?_eq_none_iff.2 ⟨behind, holds⟩]
          exact later _ _ (Nat.le_refl _)
      · exact later _ _ (by omega)

/-- The trivia that lexing finds has no fault. -/
theorem firstFault?_extract (text : Text) : firstFault? text (extract text) = none := by
  have faultless :=
    firstFaultFrom_ofLexemesFrom [] true (Lexeme.ofText text)
      (Lexeme.isLexing_ofTextFrom true text) 0 0 (Nat.zero_le _)
  rw [List.nil_append, Lexeme.flatMap_text_ofText] at faultless
  exact faultless

end MacroRegions.Trivia
