import MacroRegions.Proofs.Trivia.Places

/-!
Complete string literals.

A complete literal is one lexeme as long as no `"` stands behind it, and no lexeme
before it sees more of it than that it begins with a `"` or an `@` and has a further
`"`. So it can take the place of another one without a change to the trivia around it.
-/

namespace MacroRegions

namespace Lexeme

inductive StringInside : Text → Prop where
  | nil : StringInside []
  | character {c : Char} {rest : Text}
      (notQuote : c ≠ '"') (notEscape : c ≠ '\\') (notNewline : c ≠ '\n')
      (later : StringInside rest) :
      StringInside (c :: rest)
  | escape {c : Char} {rest : Text}
      (notNewline : c ≠ '\n') (later : StringInside rest) :
      StringInside ('\\' :: c :: rest)

inductive VerbatimInside : Text → Prop where
  | nil : VerbatimInside []
  | character {c : Char} {rest : Text}
      (notQuote : c ≠ '"') (later : VerbatimInside rest) :
      VerbatimInside (c :: rest)
  | quote {rest : Text} (later : VerbatimInside rest) :
      VerbatimInside ('"' :: '"' :: rest)

/-- A string literal with both of its ends. -/
inductive IsLiteral : Text → Prop where
  | regular (inside : Text) (complete : StringInside inside) :
      IsLiteral ('"' :: (inside ++ ['"']))
  | verbatim (inside : Text) (complete : VerbatimInside inside) :
      IsLiteral ('@' :: '"' :: (inside ++ ['"']))

private theorem StringInside.stringLength_append
    {inside : Text}
    (complete : StringInside inside)
    (rest : Text) :
    stringLength (inside ++ '"' :: rest) = inside.length + 1 := by
  induction complete with
  | nil => rfl
  | character notQuote notEscape notNewline _ inductionHypothesis =>
      rw [List.cons_append, stringLength_cons_of_ne notQuote notNewline notEscape,
        inductionHypothesis, List.length_cons]
  | escape notNewline _ inductionHypothesis =>
      rw [List.cons_append, List.cons_append, stringLength_escape notNewline,
        inductionHypothesis, List.length_cons, List.length_cons]

private theorem VerbatimInside.verbatimLength?_append
    {inside rest : Text}
    (complete : VerbatimInside inside)
    (apart : rest.head? ≠ some '"') :
    verbatimLength? (inside ++ '"' :: rest) = some (inside.length + 1) := by
  induction complete with
  | nil => exact verbatimLength?_quote_of_head?_ne apart
  | character notQuote _ inductionHypothesis =>
      rw [List.cons_append, verbatimLength?_cons_of_ne notQuote, inductionHypothesis]
      rfl
  | quote _ inductionHypothesis =>
      rw [List.cons_append, List.cons_append, verbatimLength?, inductionHypothesis]
      rfl

namespace IsLiteral

variable {literal literal' : Text}

/-- A literal is a lexeme of its own. -/
theorem shape
    {rest : Text}
    (isLiteral : IsLiteral literal)
    (apart : rest.head? ≠ some '"')
    (lineBlank : Bool) :
    Shape lineBlank rest ⟨.literal, literal⟩ := by
  cases isLiteral with
  | regular inside complete =>
      refine .string (inside ++ ['"']) ?_
      rw [List.append_assoc, List.singleton_append, complete.stringLength_append,
        List.length_append, List.length_singleton]
  | verbatim inside complete =>
      refine .verbatim (inside ++ ['"']) ?_
      rw [List.append_assoc, List.singleton_append, complete.verbatimLength?_append apart,
        Option.getD_some, List.length_append, List.length_singleton]

theorem exists_cons (isLiteral : IsLiteral literal) :
    ∃ c tail, literal = c :: tail ∧ IsForeign c ∧ '"' ∈ tail := by
  cases isLiteral with
  | regular inside complete =>
      refine ⟨'"', inside ++ ['"'], rfl, ⟨by decide, ?_⟩, by simp⟩
      exact fun directive => by cases directive <;> decide
  | verbatim inside complete =>
      refine ⟨'@', '"' :: (inside ++ ['"']), rfl, ⟨by decide, ?_⟩, by simp⟩
      exact fun directive => by cases directive <;> decide

/-- Behind a literal its line is not blank, also if it has newlines inside. -/
theorem blankAfter_eq_false
    (isLiteral : IsLiteral literal)
    (lineBlank : Bool) :
    blankAfter lineBlank literal = false := by
  cases isLiteral with
  | regular inside complete =>
      exact
        Lexeme.blankAfter_eq_false (by decide) (List.not_mem_nil) lineBlank ('"' :: inside)
  | verbatim inside complete =>
      exact
        Lexeme.blankAfter_eq_false (by decide) (List.not_mem_nil) lineBlank
          ('@' :: '"' :: inside)

end IsLiteral

/-! ## Lexemes before a literal -/

section Before

variable {lineBlank : Bool} {literal literal' between back : Text} {lexeme : Lexeme}

private theorem directiveAt?_isSome_before_literal
    (isLiteral : IsLiteral literal)
    (isLiteral' : IsLiteral literal')
    (isDirective : (directiveAt? ('#' :: (between ++ (literal ++ back)))).isSome) :
    (directiveAt? ('#' :: (between ++ (literal' ++ back)))).isSome := by
  obtain ⟨c, tail, rfl, foreign, _⟩ := isLiteral.exists_cons
  obtain ⟨c', tail', rfl, foreign', _⟩ := isLiteral'.exists_cons
  exact directiveAt?_isSome_append_congr foreign foreign' isDirective

/-- Where the line ends behind a lexeme, it ends there before another literal, too. -/
theorem firstLine_before_literal
    (isLiteral : IsLiteral literal)
    (nonempty : between ≠ [])
    (ends :
      Text.firstLine (between ++ (literal ++ back)) = [] ∨
        Text.firstLine (between ++ (literal ++ back)) = ['\r']) :
    Text.firstLine (between ++ (literal' ++ back)) =
      Text.firstLine (between ++ (literal ++ back)) := by
  by_cases newline : '\n' ∈ between
  · rw [Text.firstLine_append_of_mem newline, Text.firstLine_append_of_mem newline]
  · -- the line would go on with the literal
    obtain ⟨c, tail, rfl, foreign, _⟩ := isLiteral.exists_cons
    obtain ⟨d, between, rfl⟩ := List.exists_cons_of_ne_nil nonempty
    have literalLine : Text.firstLine ((c :: tail) ++ back) = c :: Text.firstLine (tail ++ back) :=
      Text.firstLine_cons_of_ne (foreign.ne_of_isBlank (by decide)) _
    rw [Text.firstLine_append_of_notMem newline, literalLine] at ends
    simp at ends

/-- A lexeme that does not reach up to a literal stays when the literal changes. -/
theorem Shape.before_literal
    (shape : Shape lineBlank (between ++ (literal ++ back)) lexeme)
    (isLiteral : IsLiteral literal)
    (isLiteral' : IsLiteral literal')
    (nonempty : between ≠ []) :
    Shape lineBlank (between ++ (literal' ++ back)) lexeme := by
  have headEq :
      (between ++ (literal' ++ back)).head? = (between ++ (literal ++ back)).head? := by
    rw [List.head?_append_of_ne_nil _ nonempty, List.head?_append_of_ne_nil _ nonempty]
  have lineEnds :
      ∀ line : Text,
        Text.withoutReturn (Text.firstLine (line ++ (between ++ (literal ++ back)))) = line →
          Text.withoutReturn (Text.firstLine (line ++ (between ++ (literal' ++ back)))) = line :=
    fun _ ends =>
      Text.withoutReturn_firstLine_append_congr
        (firstLine_before_literal isLiteral nonempty) ends
  cases shape with
  | lineComment tail ends => exact .lineComment tail (lineEnds ('/' :: '/' :: tail) ends)
  | blockComment front noClose => exact .blockComment front noClose
  | openComment inner noClose last => exact absurd (List.append_eq_nil_iff.1 last).1 nonempty
  | directive directive after tail blank reads ends =>
      exact .directive directive after tail blank reads (lineEnds ('#' :: tail) ends)
  | string tail ends => exact .string tail (stringLength_append_congr headEq tail ends)
  | character tail ends => exact .character tail (characterLength_append_congr headEq tail ends)
  | verbatim tail ends =>
      -- the literal behind it has a further `"` in any case
      have furtherQuote : '"' ∈ (between ++ (literal ++ back)).tail := by
        obtain ⟨c, inner, rfl, _, quote⟩ := isLiteral.exists_cons
        obtain ⟨d, between, rfl⟩ := List.exists_cons_of_ne_nil nonempty
        simp [quote]
      cases closed : verbatimLength? (tail ++ (between ++ (literal ++ back))) with
      | none =>
          have noQuote := verbatimLength?_eq_none_iff.1 closed
          exact absurd (List.mem_append_right tail (List.mem_of_mem_tail furtherQuote)) noQuote
      | some length =>
          rw [closed, Option.getD_some] at ends
          subst ends
          have closed' :=
            verbatimLength?_append_congr headEq (fun _ _ => furtherQuote) closed
          exact .verbatim tail (by rw [closed', Option.getD_some])
  | plain c alone =>
      obtain ⟨noComment, noDirective, noString, noCharacter, noVerbatim⟩ :=
        head_eq_plain_iff.1 alone
      refine .plain c (head_eq_plain_iff.2 ?_)
      rw [headEq]
      refine ⟨noComment, ?_, noString, noCharacter, noVerbatim⟩
      intro found
      obtain ⟨rfl, blank, isDirective⟩ := found
      exact
        noDirective
          ⟨rfl, blank, directiveAt?_isSome_before_literal isLiteral' isLiteral isDirective⟩

end Before

/-- The kind that a text has as a lexeme, unless it is the last one. -/
def kindOf : Text → Kind
  | '/' :: '/' :: _ => .trivia .lineComment
  | '/' :: '*' :: _ => .trivia .blockComment
  | '#' :: tail =>
    match Directive.read? ('#' :: tail) with
    | some (directive, _) => .trivia directive.triviaKind
    | none => .plain
  | '"' :: _ => .literal
  | '\'' :: _ => .literal
  | '@' :: '"' :: _ => .literal
  | _ => .plain

/-- What a lexeme is, is told by its text if there is more text. -/
theorem Shape.kind_eq
    {lineBlank : Bool}
    {rest : Text}
    {lexeme : Lexeme}
    (shape : Shape lineBlank rest lexeme)
    (more : rest ≠ []) :
    lexeme.kind = kindOf lexeme.text := by
  cases shape with
  | lineComment => rfl
  | blockComment => rfl
  | openComment inner noClose last => exact absurd last more
  | directive directive after tail blank reads ends => simp [kindOf, reads]
  | string => rfl
  | character => rfl
  | verbatim => rfl
  | plain c alone =>
      obtain ⟨_, _, noString, noCharacter, _⟩ := head_eq_plain_iff.1 alone
      by_cases hash : c = '#'
      · subst hash
        rfl
      · simp [kindOf, hash, noString, noCharacter]

/-- At most one lexeme leads a text. -/
theorem Leads.unique
    {lineBlank : Bool}
    {first second : Lexeme}
    {rest rest' : Text}
    (leads : first.Leads lineBlank rest)
    (leads' : second.Leads lineBlank rest')
    (same : first.text ++ rest = second.text ++ rest') :
    first = second := by
  obtain ⟨c, tail, textEq, headEq⟩ := leads
  obtain ⟨c', tail', textEq', headEq'⟩ := leads'
  rw [textEq, textEq'] at same
  obtain ⟨rfl, behindEq⟩ : c = c' ∧ tail ++ rest = tail' ++ rest' := by simpa using same
  rw [behindEq, headEq'] at headEq
  obtain ⟨kindEq, lengthEq⟩ := Prod.mk.inj headEq
  obtain ⟨rfl, _⟩ := List.append_inj behindEq lengthEq.symm
  exact congrArg₂ Lexeme.mk kindEq.symm (textEq.trans textEq'.symm)

private theorem Shape.eq_of_text_eq
    {lineBlank lineBlank' : Bool}
    {first second : Lexeme}
    {rest rest' : Text}
    (shape : Shape lineBlank rest first)
    (shape' : Shape lineBlank' rest' second)
    (more : rest ≠ [])
    (more' : rest' ≠ [])
    (textEq : first.text = second.text) :
    first = second := by
  have kindEq : first.kind = second.kind := by
    rw [shape.kind_eq more, shape'.kind_eq more', textEq]
  exact congrArg₂ Lexeme.mk kindEq textEq

section Same

variable {lineBlank : Bool} {literal literal' back : Text}

/-- A lexeme that leads a text up to a literal and one that does so up to another
literal are the same, if they lie in the same text. -/
theorem Shape.eq_before_literals
    {first second : Lexeme}
    {between between' : Text}
    (isLiteral : IsLiteral literal)
    (isLiteral' : IsLiteral literal')
    (shape : Shape lineBlank (between ++ (literal ++ back)) first)
    (shape' : Shape lineBlank (between' ++ (literal' ++ back)) second)
    (same : first.text ++ between = second.text ++ between') :
    first = second := by
  have more {literal between : Text} (isLiteral : IsLiteral literal) :
      between ++ (literal ++ back) ≠ [] := by
    obtain ⟨c, tail, rfl, _⟩ := isLiteral.exists_cons
    simp
  -- the shorter lexeme of the two would lead the other text, too
  rcases List.append_eq_append_iff.1 same with ⟨longer, textEq, rfl⟩ | ⟨longer, textEq, rfl⟩
  · by_cases ended : longer = []
    · subst ended
      rw [List.append_nil] at textEq
      exact shape.eq_of_text_eq shape' (more isLiteral) (more isLiteral') textEq.symm
    · have leads := (shape.before_literal isLiteral isLiteral' (by simp [ended])).leads
      exact leads.unique shape'.leads (by rw [textEq]; simp)
  · by_cases ended : longer = []
    · subst ended
      rw [List.append_nil] at textEq
      exact shape.eq_of_text_eq shape' (more isLiteral) (more isLiteral') textEq
    · have leads := (shape'.before_literal isLiteral' isLiteral (by simp [ended])).leads
      exact (leads.unique shape.leads (by rw [textEq]; simp)).symm

/-- Up to a literal, the lexemes of a text do not depend on the literal. -/
theorem IsLexing.front_eq
    {front front' rest rest' : List Lexeme}
    (isLiteral : IsLiteral literal)
    (isLiteral' : IsLiteral literal')
    (lexing : IsLexing lineBlank (front ++ rest))
    (lexing' : IsLexing lineBlank (front' ++ rest'))
    (textEq : rest.flatMap Lexeme.text = literal ++ back)
    (textEq' : rest'.flatMap Lexeme.text = literal' ++ back)
    (same : front.flatMap Lexeme.text = front'.flatMap Lexeme.text) :
    front = front' := by
  induction front generalizing lineBlank front' with
  | nil =>
      cases front' with
      | nil => rfl
      | cons first' others' =>
          obtain ⟨⟨c, tail, firstEq, _⟩, _⟩ := lexing'
          simp [firstEq] at same
  | cons first others inductionHypothesis =>
      cases front' with
      | nil =>
          obtain ⟨⟨c, tail, firstEq, _⟩, _⟩ := lexing
          simp [firstEq] at same
      | cons first' others' =>
          rw [List.cons_append, isLexing_cons, List.flatMap_append] at lexing lexing'
          rw [textEq] at lexing
          rw [textEq'] at lexing'
          rw [List.flatMap_cons, List.flatMap_cons] at same
          obtain ⟨leads, lexingOthers⟩ := lexing
          obtain ⟨leads', lexingOthers'⟩ := lexing'
          obtain rfl :=
            leads.shape.eq_before_literals isLiteral isLiteral' leads'.shape same
          rw [inductionHypothesis lexingOthers lexingOthers' (List.append_cancel_left same)]

/-- A lexeme of the text begins right behind `front`. -/
def StartsBehind (front text : Text) : Prop :=
  ∃ lexeme rest, StandsIn (ofText text) front lexeme rest

theorem StartsBehind.exists_split
    {front text : Text}
    (starts : StartsBehind front (front ++ text)) :
    ∃ before behind,
      ofText (front ++ text) = before ++ behind ∧
        before.flatMap Lexeme.text = front ∧ behind.flatMap Lexeme.text = text := by
  obtain ⟨lexeme, _, before, after, lexemesEq, frontEq, rfl⟩ := starts
  refine ⟨before, lexeme :: after, lexemesEq, frontEq, ?_⟩
  have textEq := flatMap_text_ofText (front ++ text)
  rw [lexemesEq, List.flatMap_append, frontEq] at textEq
  exact List.append_cancel_left textEq

/-- Behind lexemes that end where a literal begins, the literal is the next one, and
what follows is lexed as on a line that is not blank. -/
theorem eq_literal_of_lexing
    {behind : List Lexeme}
    (isLiteral : IsLiteral literal)
    (apart : back.head? ≠ some '"')
    (lexing : IsLexing lineBlank behind)
    (textEq : behind.flatMap Lexeme.text = literal ++ back) :
    behind = ⟨.literal, literal⟩ :: ofTextFrom false back := by
  have literalLexing :
      IsLexing lineBlank (⟨.literal, literal⟩ :: ofTextFrom false back) := by
    rw [isLexing_cons, flatMap_text_ofTextFrom, isLiteral.blankAfter_eq_false]
    exact ⟨(isLiteral.shape apart lineBlank).leads, isLexing_ofTextFrom false back⟩
  have literalEq := ofTextFrom_flatMap_of_isLexing literalLexing
  rw [List.flatMap_cons, flatMap_text_ofTextFrom] at literalEq
  have behindEq := ofTextFrom_flatMap_of_isLexing lexing
  rw [textEq] at behindEq
  exact behindEq.symm.trans literalEq

/-- The lexemes of two texts that differ in a literal differ in that lexeme only. -/
theorem exists_around_literals
    {front : Text}
    (isLiteral : IsLiteral literal)
    (isLiteral' : IsLiteral literal')
    (apart : back.head? ≠ some '"')
    (starts : StartsBehind front (front ++ (literal ++ back)))
    (starts' : StartsBehind front (front ++ (literal' ++ back))) :
    ∃ before,
      before.flatMap Lexeme.text = front ∧
        ofText (front ++ (literal ++ back)) =
          before ++ ⟨.literal, literal⟩ :: ofTextFrom false back ∧
        ofText (front ++ (literal' ++ back)) =
          before ++ ⟨.literal, literal'⟩ :: ofTextFrom false back := by
  obtain ⟨before, behind, lexemesEq, frontEq, behindText⟩ := starts.exists_split
  obtain ⟨before', behind', lexemesEq', frontEq', behindText'⟩ := starts'.exists_split
  have lexing := isLexing_ofTextFrom true (front ++ (literal ++ back))
  have lexing' := isLexing_ofTextFrom true (front ++ (literal' ++ back))
  rw [← ofText, lexemesEq] at lexing
  rw [← ofText, lexemesEq'] at lexing'
  obtain rfl :=
    lexing.front_eq isLiteral isLiteral' lexing' behindText behindText'
      (frontEq.trans frontEq'.symm)
  refine ⟨before, frontEq, ?_, ?_⟩
  · rw [lexemesEq, eq_literal_of_lexing isLiteral apart lexing.back behindText]
  · rw [lexemesEq', eq_literal_of_lexing isLiteral' apart lexing'.back behindText']

end Same

end Lexeme

namespace Trivia

/-- What becomes of a piece of trivia when a literal behind `front` is put in the
place of another. -/
structure Corresponds (front literal literal' : Text) (item item' : Trivia) : Prop where
  kind : item'.kind = item.kind
  before : item.span.start < Text.byteSize front →
    item' = item ∧ item.span.stop ≤ Text.byteSize front
  behind : Text.byteSize front ≤ item.span.start →
    Text.byteSize front + Text.byteSize literal ≤ item.span.start ∧
      Text.byteSize front + Text.byteSize literal' ≤ item'.span.start ∧
      item'.span.start + Text.byteSize literal = item.span.start + Text.byteSize literal' ∧
      item'.span.stop + Text.byteSize literal = item.span.stop + Text.byteSize literal'

private theorem corresponds_self
    {front literal literal' : Text}
    {item : Trivia}
    (nonempty : item.span.start < item.span.stop)
    (ends : item.span.stop ≤ Text.byteSize front) :
    Corresponds front literal literal' item item := by
  refine ⟨rfl, fun _ => ⟨rfl, ends⟩, ?_⟩
  intro begins
  omega

private theorem corresponds_behind (front literal literal' : Text) (item : Trivia) :
    Corresponds front literal literal'
      (item.behind (front ++ literal)) (item.behind (front ++ literal')) := by
  refine ⟨rfl, ?_, ?_⟩
  · intro begins
    simp only [Trivia.behind, Span.behind, Text.byteSize_append] at begins
    omega
  · intro _
    simp only [Trivia.behind, Span.behind, Text.byteSize_append]
    omega

/-- A complete literal in the place of another leaves the trivia around it as it
was. -/
theorem extract_corresponds_of_literals
    {front back literal literal' : Text}
    (isLiteral : Lexeme.IsLiteral literal)
    (isLiteral' : Lexeme.IsLiteral literal')
    (apart : back.head? ≠ some '"')
    (starts : Lexeme.StartsBehind front (front ++ (literal ++ back)))
    (starts' : Lexeme.StartsBehind front (front ++ (literal' ++ back))) :
    List.Forall₂ (Corresponds front literal literal')
      (extract (front ++ (literal ++ back))) (extract (front ++ (literal' ++ back))) := by
  obtain ⟨before, frontEq, lexemesEq, lexemesEq'⟩ :=
    Lexeme.exists_around_literals isLiteral isLiteral' apart starts starts'
  have splitEq (literal : Text) :
      ofLexemesFrom 0 (before ++ ⟨.literal, literal⟩ :: Lexeme.ofTextFrom false back) =
        ofLexemesFrom 0 before ++
          (ofLexemesFrom 0 (Lexeme.ofTextFrom false back)).map (behind (front ++ literal)) := by
    rw [ofLexemesFrom_append, frontEq, ← ofLexemesFrom_behind, Nat.zero_add, Nat.zero_add,
      Text.byteSize_append]
    rfl
  rw [extract, extract, lexemesEq, lexemesEq', splitEq, splitEq]
  refine
    List.rel_append (List.forall₂_same.2 ?_)
      (List.forall₂_map_left_iff.2 (List.forall₂_map_right_iff.2 (List.forall₂_same.2 ?_)))
  · intro item member
    obtain ⟨begun, lexeme, rest, kind, stands, _, rfl⟩ := mem_ofLexemesFrom_iff.1 member
    have member' : lexeme ∈ Lexeme.ofText (front ++ (literal ++ back)) := by
      rw [lexemesEq]
      exact List.mem_append_left _ stands.mem
    have positive := Lexeme.byteSize_pos_of_mem_ofText member'
    have textEq := stands.text_eq
    rw [frontEq] at textEq
    refine corresponds_self ?_ ?_
    · simp only
      omega
    · simp only [textEq, Text.byteSize_append]
      omega
  · intro item _
    exact corresponds_behind front literal literal' item

/-- Trivia before and behind a literal. -/
def quotingFront : Text :=
  "#region A\n/* \" */ s = ".toList

def quotingBack : Text :=
  "; // d\n#endregion\n".toList

/-- A literal that would open a comment, and one that has a `#` at the beginning of a
line. -/
def commentLiteral : Text :=
  "\"/*\\\"\"".toList

def hashLiteral : Text :=
  "@\"\n#\"\"\"".toList

theorem extract_corresponds_of_literals_quotingFront :
    Lexeme.IsLiteral commentLiteral ∧ Lexeme.IsLiteral hashLiteral ∧
      quotingBack.head? ≠ some '"' ∧
      Lexeme.StartsBehind quotingFront (quotingFront ++ (commentLiteral ++ quotingBack)) ∧
      Lexeme.StartsBehind quotingFront (quotingFront ++ (hashLiteral ++ quotingBack)) ∧
      List.Forall₂ (Corresponds quotingFront commentLiteral hashLiteral)
        (extract (quotingFront ++ (commentLiteral ++ quotingBack)))
        (extract (quotingFront ++ (hashLiteral ++ quotingBack))) ∧
      (extract (quotingFront ++ (commentLiteral ++ quotingBack))).length = 4 := by
  have isLiteral : Lexeme.IsLiteral commentLiteral :=
    .regular _
      (.character (by decide) (by decide) (by decide)
        (.character (by decide) (by decide) (by decide) (.escape (by decide) .nil)))
  have isLiteral' : Lexeme.IsLiteral hashLiteral :=
    .verbatim _ (.character (by decide) (.character (by decide) (.quote .nil)))
  have apart : quotingBack.head? ≠ some '"' := by decide
  have starts :
      Lexeme.StartsBehind quotingFront (quotingFront ++ (commentLiteral ++ quotingBack)) :=
    ⟨⟨.literal, commentLiteral⟩, quotingBack,
      (Lexeme.ofText (quotingFront ++ (commentLiteral ++ quotingBack))).take 8,
      (Lexeme.ofText (quotingFront ++ (commentLiteral ++ quotingBack))).drop 9,
      by decide +kernel, by decide +kernel, by decide +kernel⟩
  have starts' :
      Lexeme.StartsBehind quotingFront (quotingFront ++ (hashLiteral ++ quotingBack)) :=
    ⟨⟨.literal, hashLiteral⟩, quotingBack,
      (Lexeme.ofText (quotingFront ++ (hashLiteral ++ quotingBack))).take 8,
      (Lexeme.ofText (quotingFront ++ (hashLiteral ++ quotingBack))).drop 9,
      by decide +kernel, by decide +kernel, by decide +kernel⟩
  exact
    ⟨isLiteral, isLiteral', apart, starts, starts',
      extract_corresponds_of_literals isLiteral isLiteral' apart starts starts',
      by decide +kernel⟩

end Trivia

end MacroRegions
