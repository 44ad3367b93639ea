import Mathlib.Data.List.Induction
import MacroRegions.Proofs.Trivia.Places

/-!
All the trivia of a text without literals.

Where no literal can begin, every place at which a comment opens is in a comment or a
directive, until a block comment opens that is never closed. Directives are what
stands in no comment and first on its line, before any such opening.
-/

namespace MacroRegions

namespace Text

def lastLine (text : Text) : Text :=
  (text.reverse.takeWhile (· ≠ '\n')).reverse

private theorem lastLine_concat_newline (front : Text) : lastLine (front ++ ['\n']) = [] := by
  simp [lastLine]

private theorem lastLine_concat_of_ne
    {c : Char}
    (notNewline : c ≠ '\n')
    (front : Text) :
    lastLine (front ++ [c]) = lastLine front ++ [c] := by
  simp [lastLine, notNewline]

end Text

private theorem Directive.triviaKind_injective : Function.Injective Directive.triviaKind := by
  intro first second same
  cases first <;> cases second <;> first | rfl | cases same

private theorem Directive.triviaKind_ne_comment (directive : Directive) :
    directive.triviaKind ≠ .lineComment ∧ directive.triviaKind ≠ .blockComment := by
  cases directive <;> decide

namespace Lexeme

/-- A line is blank so far if everything on it is. -/
theorem blankAfter_eq_true_iff {text : Text} :
    blankAfter true text = true ↔ Text.AllBlank (Text.lastLine text) := by
  induction text using List.reverseRecOn with
  | nil => simp [blankAfter, Text.lastLine, Text.AllBlank]
  | append_singleton front c inductionHypothesis =>
      have step :
          blankAfter true (front ++ [c]) = (c = '\n' || (blankAfter true front && isBlank c)) := by
        rw [blankAfter_append]
        rfl
      by_cases newline : c = '\n'
      · subst newline
        rw [Text.lastLine_concat_newline]
        simp [step, Text.AllBlank]
      · rw [step, Text.lastLine_concat_of_ne newline]
        simp only [newline, decide_false, Bool.false_or, Bool.and_eq_true, inductionHypothesis,
          Text.AllBlank, List.mem_append, List.mem_singleton]
        constructor
        · intro both d member
          rcases member with earlier | rfl
          · exact both.1 d earlier
          · exact both.2
        · intro all
          exact ⟨fun d member => all d (Or.inl member), all c (Or.inr rfl)⟩

section Kinds

variable {lineBlank : Bool} {rest : Text} {lexeme : Lexeme}

private theorem Shape.of_lineComment
    (shape : Shape lineBlank rest lexeme)
    (isComment : lexeme.kind = .trivia .lineComment) :
    ∃ tail,
      lexeme.text = '/' :: '/' :: tail ∧
        Text.withoutReturn (Text.firstLine (lexeme.text ++ rest)) = lexeme.text := by
  cases shape with
  | lineComment tail ends => exact ⟨tail, rfl, ends⟩
  | directive directive =>
      exact absurd (Kind.trivia.inj isComment) directive.triviaKind_ne_comment.1
  | _ => simp at isComment

private theorem Shape.of_blockComment
    (shape : Shape lineBlank rest lexeme)
    (isComment : lexeme.kind = .trivia .blockComment) :
    ∃ inner,
      lexeme.text = '/' :: '*' :: (inner ++ ['*', '/']) ∧ NoClose (inner ++ ['*']) := by
  cases shape with
  | blockComment front noClose => exact ⟨front, rfl, noClose⟩
  | directive directive =>
      exact absurd (Kind.trivia.inj isComment) directive.triviaKind_ne_comment.2
  | _ => simp at isComment

private theorem Shape.of_directive
    {directive : Directive}
    (shape : Shape lineBlank rest lexeme)
    (isDirective : lexeme.kind = .trivia directive.triviaKind) :
    lineBlank = true ∧
      ∃ tail,
        lexeme.text = '#' :: tail ∧
          Text.withoutReturn (Text.firstLine (lexeme.text ++ rest)) = lexeme.text := by
  cases shape with
  | directive _ _ tail blank _ ends => exact ⟨blank, tail, rfl, ends⟩
  | lineComment =>
      exact absurd (Kind.trivia.inj isDirective).symm directive.triviaKind_ne_comment.1
  | blockComment =>
      exact absurd (Kind.trivia.inj isDirective).symm directive.triviaKind_ne_comment.2
  | _ => simp at isDirective

private theorem Shape.of_openComment
    (shape : Shape lineBlank rest lexeme)
    (isOpen : lexeme.kind = .openComment) :
    ∃ inner, lexeme.text = '/' :: '*' :: inner ∧ NoClose inner ∧ rest = [] := by
  cases shape with
  | openComment inner noClose last => exact ⟨inner, rfl, noClose, last⟩
  | _ => simp at isOpen

private theorem Shape.of_plain
    {left right : Text}
    {c : Char}
    (shape : Shape lineBlank rest lexeme)
    (isPlain : lexeme.kind = .plain)
    (textEq : lexeme.text = left ++ c :: right) :
    left = [] ∧ right = [] ∧ head lineBlank c rest = (.plain, 0) := by
  cases shape with
  | plain d alone =>
      rw [List.singleton_eq_append_iff] at textEq
      obtain ⟨rfl, rfl, rfl⟩ : left = [] ∧ c = d ∧ right = [] := by simpa using textEq
      exact ⟨rfl, rfl, alone⟩
  | _ => simp at isPlain

private theorem Shape.of_literal
    (shape : Shape lineBlank rest lexeme)
    (isLiteral : lexeme.kind = .literal) :
    ∃ c ∈ lexeme.text, c = '"' ∨ c = '\'' ∨ c = '@' := by
  cases shape with
  | string tail => exact ⟨'"', List.mem_cons_self, Or.inl rfl⟩
  | character tail => exact ⟨'\'', List.mem_cons_self, Or.inr (Or.inl rfl)⟩
  | verbatim tail => exact ⟨'@', List.mem_cons_self, Or.inr (Or.inr rfl)⟩
  | _ => simp at isLiteral

/-- On a line that is blank so far, a lexeme that begins with a `#` is a directive
if the line reads as one. -/
theorem Leads.kind_eq_directive_iff
    {behind : Text}
    {directive : Directive}
    (leads : lexeme.Leads true rest)
    (textEq : lexeme.text ++ rest = '#' :: behind) :
    lexeme.kind = .trivia directive.triviaKind ↔
      (Directive.read? (Text.withoutReturn (Text.firstLine ('#' :: behind)))).map Prod.fst =
        some directive := by
  obtain ⟨c, tail, textEq', headEq⟩ := leads
  rw [textEq'] at textEq
  obtain ⟨rfl, rfl⟩ := List.cons.inj textEq
  have kindEq : lexeme.kind = (head true '#' (tail ++ rest)).1 := by rw [headEq]
  rw [kindEq]
  cases reads : Directive.read? (Text.withoutReturn (Text.firstLine ('#' :: (tail ++ rest)))) with
  | none => simp [head, directiveAt?, reads]
  | some found =>
      simp [head, directiveAt?, reads, Directive.triviaKind_injective.eq_iff]

end Kinds

end Lexeme

namespace Trivia

/-- The byte at `offset` is in the span of the piece of trivia. -/
def HoldsByte (item : Trivia) (offset : Nat) : Prop :=
  item.span.start ≤ offset ∧ offset < item.span.stop

instance (item : Trivia) (offset : Nat) : Decidable (item.HoldsByte offset) :=
  inferInstanceAs (Decidable (_ ∧ _))

/-- A comment opens between `front` and `back`, and no piece of trivia holds its
opening. -/
structure Misses (text : Text) (trivia : List Trivia) (front back : Text) : Prop where
  split : text = front ++ back
  opens : ['/', '/'] <+: back ∨ ['/', '*'] <+: back
  outside : ∀ item ∈ trivia, ¬ item.HoldsByte (Text.byteSize front)

/-- Behind `front` there is a `#` at which a directive can stand: the first thing
on its line, in no comment, and before any opening that is missed. -/
structure Admits (text : Text) (trivia : List Trivia) (front tail : Text) : Prop where
  split : text = front ++ '#' :: tail
  blank : Text.AllBlank (Text.lastLine front)
  noComment : ∀ item ∈ trivia, item.kind = .lineComment ∨ item.kind = .blockComment →
    ¬ item.HoldsByte (Text.byteSize front)
  noMiss : ∀ front' back', Misses text trivia front' back' →
    Text.byteSize front < Text.byteSize front'

/-- From the end of `front` to the end of the line, one carriage return left out. -/
def lineSpan (front line : Text) : Span :=
  ⟨Text.byteSize front,
    Text.byteSize front + Text.byteSize (Text.withoutReturn (Text.firstLine line))⟩

/-- The trivia is all that there is in a text without literals. -/
structure IsComplete (text : Text) (trivia : List Trivia) : Prop where
  lineComments : ∀ item ∈ trivia, item.kind = .lineComment →
    ∃ front tail,
      text = front ++ '/' :: '/' :: tail ∧ item.span = lineSpan front ('/' :: '/' :: tail)
  blockComments : ∀ item ∈ trivia, item.kind = .blockComment →
    ∃ front inner rest,
      text = front ++ '/' :: '*' :: (inner ++ '*' :: '/' :: rest) ∧
        Lexeme.NoClose (inner ++ ['*']) ∧
        item.span =
          ⟨Text.byteSize front,
            Text.byteSize front + Text.byteSize ('/' :: '*' :: (inner ++ ['*', '/']))⟩
  missed : ∀ front back,
    Misses text trivia front back →
      (∀ front' back', Misses text trivia front' back' →
        Text.byteSize front ≤ Text.byteSize front') →
        (∃ inner, back = '/' :: '*' :: inner ∧ Lexeme.NoClose inner) ∧
          ∀ item ∈ trivia, item.span.start < Text.byteSize front
  directives : ∀ front tail, Admits text trivia front tail →
    ∀ directive : Directive,
      ⟨directive.triviaKind, lineSpan front ('#' :: tail)⟩ ∈ trivia ↔
        (Directive.read? (Text.withoutReturn (Text.firstLine ('#' :: tail)))).map Prod.fst =
          some directive
  noOthers : ∀ item ∈ trivia, ∀ directive : Directive, item.kind = directive.triviaKind →
    ∃ front tail, Admits text trivia front tail ∧ item.span = lineSpan front ('#' :: tail)

section Places

variable {text front rest : Text} {lexeme : Lexeme}

/-- A lexeme that is trivia is the trivia of all its bytes. -/
theorem exists_holdsByte
    {kind : TriviaKind}
    {left right : Text}
    {c : Char}
    (stands : Lexeme.StandsIn (Lexeme.ofText text) front lexeme rest)
    (isTrivia : lexeme.kind = .trivia kind)
    (textEq : lexeme.text = left ++ c :: right) :
    ∃ item ∈ extract text, item.kind = kind ∧ item.HoldsByte (Text.byteSize (front ++ left)) := by
  have positive := Char.utf8Size_pos c
  refine ⟨_, mem_extract_iff.2 ⟨front, lexeme, rest, kind, stands, isTrivia, rfl⟩, rfl, ?_, ?_⟩
  · rw [Text.byteSize_append]
    exact Nat.le_add_right _ _
  · simp only [textEq, Text.byteSize_append, Text.byteSize_cons]
    omega

/-- Trivia that holds the first byte of a lexeme is the lexeme. -/
theorem kind_eq_of_holdsByte
    {item : Trivia}
    (stands : Lexeme.StandsIn (Lexeme.ofText text) front lexeme rest)
    (member : item ∈ extract text)
    (holds : item.HoldsByte (Text.byteSize front)) :
    lexeme.kind = .trivia item.kind := by
  obtain ⟨front', lexeme', rest', kind, stands', isTrivia, rfl⟩ := mem_extract_iff.1 member
  have positive := Lexeme.byteSize_pos_of_mem_ofText stands.mem
  obtain ⟨_, rfl, _⟩ :=
    stands.unique stands' (Nat.le_refl _) (Nat.lt_add_of_pos_right positive) holds.1 holds.2
  exact isTrivia

/-- The opening of a comment that is never closed is missed. -/
theorem misses_openComment
    (stands : Lexeme.StandsIn (Lexeme.ofText text) front lexeme rest)
    (isOpen : lexeme.kind = .openComment) :
    Misses text (extract text) front (lexeme.text ++ rest) := by
  refine ⟨stands.split, Or.inr ?_, ?_⟩
  · obtain ⟨inner, textEq, _⟩ := stands.leads.shape.of_openComment isOpen
    exact ⟨inner ++ rest, by rw [textEq]; rfl⟩
  · intro item member holds
    have kindEq := kind_eq_of_holdsByte stands member holds
    rw [isOpen] at kindEq
    simp at kindEq

/-- No trivia stands behind the opening of a comment that is never closed. -/
theorem byteSize_lt_of_openComment
    {before : Text}
    {kind : TriviaKind}
    {last : Lexeme}
    (stands : Lexeme.StandsIn (Lexeme.ofText text) front lexeme rest)
    (isTrivia : lexeme.kind = .trivia kind)
    (standsLast : Lexeme.StandsIn (Lexeme.ofText text) before last [])
    (isOpen : last.kind = .openComment) :
    Text.byteSize front < Text.byteSize before := by
  by_contra late
  -- the comment holds every byte from its opening on
  have sameSize := congrArg Text.byteSize (standsLast.text_eq.symm.trans stands.text_eq)
  simp only [Text.byteSize_append, Text.byteSize_nil] at sameSize
  have positive := Lexeme.byteSize_pos_of_mem_ofText stands.mem
  obtain ⟨_, rfl, _⟩ :=
    stands.unique standsLast (Nat.le_refl _) (by omega) (by omega) (by omega)
  rw [isOpen] at isTrivia
  simp at isTrivia

private theorem holdsByte_start
    {item : Trivia}
    (member : item ∈ extract text) :
    item.HoldsByte item.span.start := by
  obtain ⟨front, lexeme, rest, kind, stands, _, rfl⟩ := mem_extract_iff.1 member
  have positive := Lexeme.byteSize_pos_of_mem_ofText stands.mem
  exact ⟨Nat.le_refl _, Nat.lt_add_of_pos_right positive⟩

private theorem exists_lineComment
    {item : Trivia}
    (member : item ∈ extract text)
    (isComment : item.kind = .lineComment) :
    ∃ front tail,
      text = front ++ '/' :: '/' :: tail ∧ item.span = lineSpan front ('/' :: '/' :: tail) := by
  obtain ⟨front, lexeme, rest, kind, stands, isTrivia, rfl⟩ := mem_extract_iff.1 member
  obtain rfl : kind = .lineComment := isComment
  obtain ⟨tail, textEq, ends⟩ := stands.leads.shape.of_lineComment isTrivia
  have behindEq : lexeme.text ++ rest = '/' :: '/' :: (tail ++ rest) := by
    rw [textEq, List.cons_append, List.cons_append]
  refine ⟨front, tail ++ rest, ?_, ?_⟩
  · rw [← behindEq, ← stands.split]
  · rw [lineSpan, ← behindEq, ends]

private theorem exists_blockComment
    {item : Trivia}
    (member : item ∈ extract text)
    (isComment : item.kind = .blockComment) :
    ∃ front inner rest,
      text = front ++ '/' :: '*' :: (inner ++ '*' :: '/' :: rest) ∧
        Lexeme.NoClose (inner ++ ['*']) ∧
        item.span =
          ⟨Text.byteSize front,
            Text.byteSize front + Text.byteSize ('/' :: '*' :: (inner ++ ['*', '/']))⟩ := by
  obtain ⟨front, lexeme, rest, kind, stands, isTrivia, rfl⟩ := mem_extract_iff.1 member
  obtain rfl : kind = .blockComment := isComment
  obtain ⟨inner, textEq, noClose⟩ := stands.leads.shape.of_blockComment isTrivia
  refine ⟨front, inner, rest, ?_, noClose, by rw [textEq]⟩
  rw [stands.split, textEq]
  simp

/-- On a line that is blank so far, a directive has nothing before its `#`. -/
theorem eq_nil_of_directive
    {directive : Directive}
    {left right : Text}
    {c : Char}
    (stands : Lexeme.StandsIn (Lexeme.ofText text) front lexeme rest)
    (isDirective : lexeme.kind = .trivia directive.triviaKind)
    (textEq : lexeme.text = left ++ c :: right)
    (blank : Text.AllBlank (Text.lastLine (front ++ left))) :
    left = [] := by
  obtain ⟨_, tail, textEq', ends⟩ := stands.leads.shape.of_directive isDirective
  cases left with
  | nil => rfl
  | cons d left =>
      obtain ⟨rfl, tailEq⟩ := List.cons.inj (textEq'.symm.trans textEq)
      have oneLine : '\n' ∉ left := by
        intro newline
        have onLine := (Text.withoutReturn_firstLine_append_iff.1 ends).1
        exact onLine (by simp [textEq, newline])
      have visible := Lexeme.blankAfter_eq_false (c := '#') (by decide) oneLine true front
      rw [Lexeme.blankAfter_eq_true_iff.2 blank] at visible
      cases visible

end Places

/-! ## Texts without literals -/

section Free

variable {text : Text} (free : ∀ c ∈ text, c ≠ '"' ∧ c ≠ '\'' ∧ c ≠ '@')

include free

private theorem kind_ne_literal
    {front rest : Text}
    {lexeme : Lexeme}
    (stands : Lexeme.StandsIn (Lexeme.ofText text) front lexeme rest) :
    lexeme.kind ≠ .literal := by
  intro isLiteral
  obtain ⟨c, member, opens⟩ := stands.leads.shape.of_literal isLiteral
  have inText : c ∈ text := by
    rw [← Lexeme.flatMap_text_ofText text]
    exact List.mem_flatMap.2 ⟨lexeme, stands.mem, member⟩
  obtain ⟨noString, noCharacter, noVerbatim⟩ := free c inText
  rcases opens with string | character | verbatim
  · exact noString string
  · exact noCharacter character
  · exact noVerbatim verbatim

/-- What is missed is in a comment that is never closed. -/
theorem exists_openComment_of_misses
    {front back : Text}
    (misses : Misses text (extract text) front back) :
    ∃ before left lexeme,
      Lexeme.StandsIn (Lexeme.ofText text) before lexeme [] ∧
        lexeme.kind = .openComment ∧ front = before ++ left ∧ lexeme.text = left ++ back := by
  obtain ⟨behind, backEq, next⟩ :
      ∃ behind, back = '/' :: behind ∧ (behind.head? = some '/' ∨ behind.head? = some '*') := by
    rcases misses.opens with ⟨behind, rfl⟩ | ⟨behind, rfl⟩
    · exact ⟨'/' :: behind, rfl, Or.inl rfl⟩
    · exact ⟨'*' :: behind, rfl, Or.inr rfl⟩
  have split : (Lexeme.ofText text).flatMap Lexeme.text = front ++ '/' :: behind := by
    rw [Lexeme.flatMap_text_ofText, misses.split, backEq]
  obtain ⟨before, lexeme, rest, left, right, stands, frontEq, textEq, behindEq⟩ :=
    Lexeme.exists_standsIn split
  cases kindEq : lexeme.kind with
  | trivia kind =>
      obtain ⟨item, member, _, holds⟩ := exists_holdsByte stands kindEq textEq
      rw [← frontEq] at holds
      exact absurd holds (misses.outside item member)
  | literal => exact absurd kindEq (kind_ne_literal free stands)
  | plain =>
      -- a plain slash has no second character of an opening behind it
      obtain ⟨_, rightEq, alone⟩ := stands.leads.shape.of_plain kindEq textEq
      rw [behindEq, rightEq, List.nil_append] at next
      exact absurd ⟨rfl, next⟩ (Lexeme.head_eq_plain_iff.1 alone).1
  | openComment =>
      obtain ⟨inner, _, _, rfl⟩ := stands.leads.shape.of_openComment kindEq
      rw [List.append_nil] at behindEq
      exact ⟨before, left, lexeme, stands, kindEq, frontEq, by rw [textEq, backEq, behindEq]⟩

/-- The first opening that is missed is that of the comment which is never closed,
and there is no trivia from there on. -/
theorem first_misses
    {front back : Text}
    (misses : Misses text (extract text) front back)
    (first : ∀ front' back', Misses text (extract text) front' back' →
      Text.byteSize front ≤ Text.byteSize front') :
    (∃ inner, back = '/' :: '*' :: inner ∧ Lexeme.NoClose inner) ∧
      ∀ item ∈ extract text, item.span.start < Text.byteSize front := by
  obtain ⟨before, left, lexeme, stands, isOpen, rfl, textEq⟩ :=
    exists_openComment_of_misses free misses
  have leftSize := first _ _ (misses_openComment stands isOpen)
  rw [Text.byteSize_append] at leftSize
  obtain rfl : left = [] := by
    have lengthLe := Text.length_le_byteSize left
    exact List.eq_nil_of_length_eq_zero (by omega)
  constructor
  · obtain ⟨inner, textEq', noClose, _⟩ := stands.leads.shape.of_openComment isOpen
    exact ⟨inner, by rw [← textEq', textEq, List.nil_append], noClose⟩
  · intro item member
    obtain ⟨front', lexeme', rest', kind, stands', isTrivia, rfl⟩ := mem_extract_iff.1 member
    rw [List.append_nil]
    exact byteSize_lt_of_openComment stands' isTrivia stands isOpen

/-- Where a directive can stand, a lexeme begins. -/
theorem exists_standsIn_of_admits
    {front tail : Text}
    (admits : Admits text (extract text) front tail) :
    ∃ lexeme rest,
      Lexeme.StandsIn (Lexeme.ofText text) front lexeme rest ∧
        lexeme.text ++ rest = '#' :: tail := by
  have split : (Lexeme.ofText text).flatMap Lexeme.text = front ++ '#' :: tail := by
    rw [Lexeme.flatMap_text_ofText, admits.split]
  obtain ⟨before, lexeme, rest, left, right, stands, rfl, textEq, tailEq⟩ :=
    Lexeme.exists_standsIn split
  suffices leftEq : left = [] by
    subst leftEq
    rw [List.append_nil]
    exact ⟨lexeme, rest, stands, by rw [textEq, tailEq, List.nil_append, List.cons_append]⟩
  cases kindEq : lexeme.kind with
  | trivia kind =>
      obtain ⟨item, member, itemKind, holds⟩ := exists_holdsByte stands kindEq textEq
      have comment := admits.noComment item member
      rw [itemKind] at comment
      cases kind with
      | lineComment => exact absurd holds (comment (Or.inl rfl))
      | blockComment => exact absurd holds (comment (Or.inr rfl))
      | regionDirective =>
          have isOpening : lexeme.kind = .trivia Directive.opening.triviaKind := kindEq
          exact eq_nil_of_directive stands isOpening textEq admits.blank
      | endRegionDirective =>
          have isClosing : lexeme.kind = .trivia Directive.closing.triviaKind := kindEq
          exact eq_nil_of_directive stands isClosing textEq admits.blank
  | openComment =>
      have early := admits.noMiss _ _ (misses_openComment stands kindEq)
      rw [Text.byteSize_append] at early
      omega
  | literal => exact absurd kindEq (kind_ne_literal free stands)
  | plain => exact (stands.leads.shape.of_plain kindEq textEq).1

theorem mem_extract_iff_of_admits
    {front tail : Text}
    (admits : Admits text (extract text) front tail)
    (directive : Directive) :
    ⟨directive.triviaKind, lineSpan front ('#' :: tail)⟩ ∈ extract text ↔
      (Directive.read? (Text.withoutReturn (Text.firstLine ('#' :: tail)))).map Prod.fst =
        some directive := by
  obtain ⟨lexeme, rest, stands, lexemeEq⟩ := exists_standsIn_of_admits free admits
  have leads := stands.leads
  rw [Lexeme.blankAfter_eq_true_iff.2 admits.blank] at leads
  rw [← leads.kind_eq_directive_iff lexemeEq]
  constructor
  · intro member
    exact kind_eq_of_holdsByte stands member (holdsByte_start member)
  · intro isDirective
    obtain ⟨_, _, _, ends⟩ := leads.shape.of_directive isDirective
    rw [mem_extract_iff, lineSpan, ← lexemeEq, ends]
    exact ⟨front, lexeme, rest, _, stands, isDirective, rfl⟩

/-- A directive stands where one can stand. -/
theorem exists_admits
    {item : Trivia}
    {directive : Directive}
    (member : item ∈ extract text)
    (isDirective : item.kind = directive.triviaKind) :
    ∃ front tail,
      Admits text (extract text) front tail ∧ item.span = lineSpan front ('#' :: tail) := by
  obtain ⟨front, lexeme, rest, kind, stands, isTrivia, rfl⟩ := mem_extract_iff.1 member
  obtain rfl : kind = directive.triviaKind := isDirective
  obtain ⟨blank, tail, textEq, ends⟩ := stands.leads.shape.of_directive isTrivia
  have behindEq : lexeme.text ++ rest = '#' :: (tail ++ rest) := by
    rw [textEq, List.cons_append]
  refine ⟨front, tail ++ rest, ⟨?_, Lexeme.blankAfter_eq_true_iff.1 blank, ?_, ?_⟩, ?_⟩
  · rw [← behindEq, ← stands.split]
  · intro other otherMember isComment holds
    have kindEq := kind_eq_of_holdsByte stands otherMember holds
    rw [← Lexeme.Kind.trivia.inj (isTrivia.symm.trans kindEq)] at isComment
    rcases isComment with isLine | isBlock
    · exact directive.triviaKind_ne_comment.1 isLine
    · exact directive.triviaKind_ne_comment.2 isBlock
  · intro front' back' misses
    obtain ⟨before, left, last, standsLast, isOpen, rfl, _⟩ :=
      exists_openComment_of_misses free misses
    rw [Text.byteSize_append]
    exact
      Nat.lt_add_right _ (byteSize_lt_of_openComment stands isTrivia standsLast isOpen)
  · rw [lineSpan, ← behindEq, ends]

/-- Where no literal can begin, no comment and no directive is missed. -/
theorem isComplete_extract : IsComplete text (extract text) where
  lineComments := fun _ => exists_lineComment
  blockComments := fun _ => exists_blockComment
  missed := fun _ _ => first_misses free
  directives := fun _ _ => mem_extract_iff_of_admits free
  noOthers := fun _ member _ => exists_admits free member

end Free

/-- A text in which comments and directives run into each other, up to a comment
that is never closed. -/
def crowded : Text :=
  "#region /* A\r\n #if x // b\r\r\n/* # */ //* c\n\t#endregion\n/ /*/ d // e\n#region".toList

theorem isComplete_extract_crowded :
    (∀ c ∈ crowded, c ≠ '"' ∧ c ≠ '\'' ∧ c ≠ '@') ∧
      IsComplete crowded (extract crowded) ∧
      extract crowded =
        [⟨.regionDirective, 0, 12⟩, ⟨.lineComment, 21, 26⟩, ⟨.blockComment, 28, 35⟩,
          ⟨.lineComment, 36, 41⟩, ⟨.endRegionDirective, 43, 53⟩] ∧
      Misses crowded (extract crowded) (crowded.take 56) (crowded.drop 56) := by
  have free : ∀ c ∈ crowded, c ≠ '"' ∧ c ≠ '\'' ∧ c ≠ '@' := by
    have allFree : crowded.all (fun c => c ≠ '"' ∧ c ≠ '\'' ∧ c ≠ '@') = true := by
      decide +kernel
    simpa only [List.all_eq_true, decide_eq_true_eq] using allFree
  have extractEq :
      extract crowded =
        [⟨.regionDirective, 0, 12⟩, ⟨.lineComment, 21, 26⟩, ⟨.blockComment, 28, 35⟩,
          ⟨.lineComment, 36, 41⟩, ⟨.endRegionDirective, 43, 53⟩] := by
    decide +kernel
  refine ⟨free, isComplete_extract free, extractEq, ?_⟩
  rw [extractEq]
  exact ⟨by decide +kernel, Or.inr (by decide +kernel), by decide +kernel⟩

end Trivia

end MacroRegions
