import Mathlib.Data.List.TakeWhile
import MacroRegions.Failure
import MacroRegions.Proofs.Marker.Displacement

/-!
Reading markers by slices.

A reader that works with offsets cuts parts out of a text where it holds them to be,
and cannot go on if a part leaves the text or cuts a character. Every part is there,
and the reader finds in a piece of trivia what is in it.
-/

namespace MacroRegions

/-- What stops parsing: a failure, or a part that a text does not have. -/
inductive Stop where
  | failed (failure : Failure)
  | badSlice (start stop : Nat)
deriving DecidableEq, Repr

namespace Slicing

def cut (start stop : Nat) (text : Text) : Except Stop Text :=
  match Text.slice? start stop text with
  | some part => .ok part
  | none => .error (.badSlice start stop)

def cutFrom (start : Nat) (text : Text) : Except Stop Text :=
  cut start (Text.byteSize text) text

/-- Whether a text begins with `keyword` as a whole word. Here `same` tells which
words are the same. -/
def beginsWith (same : Text → Text → Bool) (keyword text : Text) : Except Stop Bool :=
  match Text.slice? 0 (Text.byteSize keyword) text with
  | none => return false
  | some head =>
    if same head keyword then do
      let rest ← cutFrom (Text.byteSize keyword) text
      return Text.endsWord rest
    else
      return false

def sameWord (word keyword : Text) : Bool :=
  word = keyword

def sameWordInAnyCase (word keyword : Text) : Bool :=
  word.map Char.toLower = keyword.map Char.toLower

/-- The directive whose keyword begins at `start`, and where the keyword ends. -/
def keywordAt? (start : Nat) (text : Text) : Option (Directive × Nat) :=
  match Directive.closing.afterKeyword? text with
  | some _ => some (.closing, start + Text.byteSize Directive.closing.keyword)
  | none =>
    (Directive.opening.afterKeyword? text).map fun _ =>
      (.opening, start + Text.byteSize Directive.opening.keyword)

def directiveEnd? (line : Text) : Except Stop (Option (Directive × Nat)) :=
  if '\n' ∈ line then
    return none
  else do
    let leading := Text.byteSize line - Text.byteSize (Text.trimStart line)
    match Text.afterPrefix? ['#'] (← cutFrom leading line) with
    | none => return none
    | some rest =>
      let behind := rest.dropWhile fun c => c = ' ' || c = '\t'
      let start := leading + 1 + (Text.byteSize rest - Text.byteSize behind)
      return keywordAt? start (← cutFrom start line)

def trimmedSpan (piece : Piece) : Span :=
  if (Text.trim piece.text).isEmpty then
    ⟨piece.offset, piece.offset⟩
  else
    let start :=
      piece.offset + (Text.byteSize piece.text - Text.byteSize (Text.trimStart piece.text))
    ⟨start, start + Text.byteSize (Text.trim piece.text)⟩

def commentContent? (inner : Piece) : Except Stop (Option (CandidateKind × Span)) := do
  let trimmed := Text.trim inner.text
  if ← beginsWith sameWord startKeyword trimmed then
    return some (.commentStart, trimmedSpan inner)
  else if ← beginsWith sameWord endKeyword trimmed then
    let rest ← cutFrom (Text.byteSize endKeyword) trimmed
    return if isEndSuffix rest then some (.commentEnd, trimmedSpan inner) else none
  else
    return none

/-- What a piece of trivia looks like, and where its content is. -/
def content? (source : Text) (kind : TriviaKind) (whole : Piece) :
    Except Stop (Option (CandidateKind × Span)) :=
  match kind with
  | .lineComment =>
    let inner := whole.text.dropWhile (· = '/')
    commentContent? ⟨whole.offset + (Text.byteSize whole.text - Text.byteSize inner), inner⟩
  | .blockComment =>
    match (Text.afterPrefix? ['/', '*'] whole.text).bind (Text.beforeSuffix? ['*', '/']) with
    | none => return none
    | some inner => do
      let leading := Text.byteSize inner - Text.byteSize (inner.dropWhile (· = '*'))
      let rest ← cutFrom leading inner
      commentContent? ((⟨whole.offset + 2 + leading, rest⟩ : Piece).dropTrailing '*')
  | .regionDirective => do
    match ← directiveEnd? whole.text with
    | none => return none
    | some (_, keywordEnd) =>
      let after ← cutFrom keywordEnd whole.text
      let span := trimmedSpan ⟨whole.offset + keywordEnd, after⟩
      let tag ← cut span.start span.stop source
      let isMacro ← beginsWith sameWordInAnyCase startKeyword tag
      return some (if isMacro then .regionStart else .plainRegionStart, span)
  | .endRegionDirective => do
    match ← directiveEnd? whole.text with
    | none => return none
    | some (_, keywordEnd) =>
      let after ← cutFrom keywordEnd whole.text
      return some (.regionEnd, trimmedSpan ⟨whole.offset + keywordEnd, after⟩)

/-- The offset behind the last blank of a text, zero if it has none. -/
def lastBlankEnd (text : Text) : Nat :=
  Text.byteSize (text.reverse.dropWhile (!isBlank ·)).reverse

/-- What stands before the last word of a piece, and the word with its span. -/
def lastWord? (rest : Piece) : Except Stop (Option (Text × Text × Span)) :=
  let trimmed := Text.trimEnd rest.text
  if (Text.trimStart trimmed).isEmpty then
    return none
  else do
    let start := lastBlankEnd trimmed
    let front ← cut 0 start trimmed
    let word ← cutFrom start trimmed
    return some
      (front, word, ⟨rest.offset + start, rest.offset + Text.byteSize trimmed⟩)

def payload (rest : Piece) : Except Stop Payload := do
  match ← lastWord? rest with
  | none => return ⟨none, none, rest.text, false⟩
  | some (front, word, span) =>
    match LocationTag.parse? word with
    | some tag => return ⟨some tag, some span, front, false⟩
    | none => return ⟨none, none, rest.text, word.head? = some '#'⟩

def classify?
    (source : Text)
    (found : CandidateKind)
    (kind : TriviaKind)
    (position : Position)
    (span : Span) :
    Except Stop (Option Marker) := do
  let text ← cut span.start span.stop source
  match found.keyword? with
  | none => return none
  | some (keyword, word) =>
    let rest ← cutFrom (Text.byteSize word) text
    let payload ← payload ⟨span.start + Text.byteSize word, rest⟩
    let form := MarkerForm.ofTriviaKind kind
    return some {
      keyword := keyword
      form := form
      tag := payload.tag
      body := keyword.bodyOf? form payload.remainder
      position := position
      tagSpan := payload.tagSpan
      insertOffset := span.stop
      malformedTag := payload.malformedTag }

def read? (source : Source) (item : Trivia) : Except Stop (Option PairingItem) := do
  let text ← cut item.span.start item.span.stop source.text
  match ← content? source.text item.kind ⟨item.span.start, text⟩ with
  | none => return none
  | some (.plainRegionStart, _) => return some .plainRegion
  | some (found, span) =>
    let marker? ← classify? source.text found item.kind (source.positionOf item.span) span
    return marker?.map .marker

/-! ## Every part is there -/

private theorem byteSize_sub_dropWhile (test : Char → Bool) (text : Text) :
    Text.byteSize text - Text.byteSize (text.dropWhile test) =
      Text.byteSize (text.takeWhile test) := by
  have sizeEq := congrArg Text.byteSize
    (List.takeWhile_append_dropWhile (p := test) (l := text))
  rw [Text.byteSize_append] at sizeEq
  omega

theorem ok_bind {α β : Type} (value : α) (next : α → Except Stop β) :
    (Except.ok value >>= next) = next value := rfl

private theorem cut_append (front part back : Text) :
    cut (Text.byteSize front) (Text.byteSize front + Text.byteSize part) (front ++ part ++ back) =
      .ok part := by
  have sliced :
      Text.slice? (Text.byteSize front) (Text.byteSize front + Text.byteSize part)
        (front ++ part ++ back) = some part :=
    Text.slice?_eq_some_iff.2 ⟨front, back, rfl, rfl, rfl⟩
  rw [cut, sliced]

private theorem cutFrom_append (front rest : Text) :
    cutFrom (Text.byteSize front) (front ++ rest) = .ok rest := by
  have found := cut_append front rest []
  rwa [List.append_nil, ← Text.byteSize_append] at found

private theorem cut_zero_append (front rest : Text) :
    cut 0 (Text.byteSize front) (front ++ rest) = .ok front := by
  simpa using cut_append [] front rest

/-- A part of a text that has the bytes of a keyword is cut out if it is the same
word. -/
theorem beginsWith_eq
    {same : Text → Text → Bool}
    {keyword : Text}
    (sizes : ∀ word, same word keyword = true →
      word.length = keyword.length ∧ Text.byteSize word = Text.byteSize keyword)
    (text : Text) :
    beginsWith same keyword text =
      .ok (same (text.take keyword.length) keyword &&
        Text.endsWord (text.drop keyword.length)) := by
  have split : text.take keyword.length ++ text.drop keyword.length = text :=
    List.take_append_drop _ _
  by_cases isSame : same (text.take keyword.length) keyword = true
  · have sizeEq := (sizes _ isSame).2
    have headEq :
        Text.slice? 0 (Text.byteSize keyword) text = some (text.take keyword.length) :=
      Text.slice?_eq_some_iff.2 ⟨[], _, split.symm, rfl, by rw [Nat.zero_add, sizeEq]⟩
    have restEq := cutFrom_append (text.take keyword.length) (text.drop keyword.length)
    rw [split, sizeEq] at restEq
    simp only [beginsWith, headEq, restEq, isSame, Bool.true_and]
    rfl
  · have different : ∀ head, Text.slice? 0 (Text.byteSize keyword) text = some head →
        ¬ same head keyword = true := by
      intro head headEq headSame
      obtain ⟨front, rest, rfl, frontEmpty, _⟩ := Text.slice?_eq_some_iff.1 headEq
      obtain rfl : front = [] := by
        cases front with
        | nil => rfl
        | cons c front =>
            have positive := Char.utf8Size_pos c
            rw [Text.byteSize_cons] at frontEmpty
            omega
      rw [List.nil_append, ← (sizes head headSame).1, List.take_left] at isSame
      exact isSame headSame
    rw [beginsWith, Bool.eq_false_iff.2 isSame, Bool.false_and]
    split
    · rfl
    · next head headEq =>
        rw [if_neg (different head headEq)]
        rfl

private theorem beginsWith_sameWord (keyword text : Text) :
    beginsWith sameWord keyword text = .ok (beginsWithKeyword keyword text) := by
  refine beginsWith_eq ?_ text
  intro word same
  obtain rfl : word = keyword := of_decide_eq_true same
  exact ⟨rfl, rfl⟩

private theorem beginsWith_sameWordInAnyCase (text : Text) :
    beginsWith sameWordInAnyCase startKeyword text =
      .ok (beginsWithKeywordInAnyCase startKeyword text) := by
  refine beginsWith_eq ?_ text
  intro word same
  have lengthEq : word.length = startKeyword.length := by
    simpa using congrArg List.length (of_decide_eq_true same)
  have taken : word.take startKeyword.length = word := by rw [← lengthEq, List.take_length]
  have dropped : word.drop startKeyword.length = [] := by rw [← lengthEq, List.drop_length]
  have begins : beginsWithKeywordInAnyCase startKeyword word = true := by
    rw [beginsWithKeywordInAnyCase, taken, dropped, Bool.and_eq_true]
    exact ⟨same, rfl⟩
  have sizeEq := byteSize_take_startKeyword begins
  rw [taken] at sizeEq
  exact ⟨lengthEq, sizeEq⟩

private theorem keywordAt?_eq (front text : Text) :
    keywordAt? (Text.byteSize front) text =
      (match Directive.closing.afterKeyword? text with
        | some after => some (Directive.closing, after)
        | none => (Directive.opening.afterKeyword? text).map (Directive.opening, ·)).map
          fun (directive, after) =>
            (directive, Text.byteSize (front ++ text) - Text.byteSize after) := by
  have endEq : ∀ directive : Directive, ∀ after, directive.afterKeyword? text = some after →
      Text.byteSize front + Text.byteSize directive.keyword =
        Text.byteSize (front ++ text) - Text.byteSize after := by
    intro directive after found
    obtain ⟨rfl, _⟩ := Directive.afterKeyword?_eq_some found
    simp only [Text.byteSize_append]
    omega
  rw [keywordAt?]
  cases closing : Directive.closing.afterKeyword? text with
  | some after => simp [endEq _ after closing]
  | none =>
      cases opening : Directive.opening.afterKeyword? text with
      | none => rfl
      | some after => simp [endEq _ after opening]

/-- A directive is found, and its keyword ends before what follows. -/
theorem directiveEnd?_eq (line : Text) :
    directiveEnd? line =
      .ok ((Directive.read? line).map fun (directive, after) =>
        (directive, Text.byteSize line - Text.byteSize after)) := by
  rw [directiveEnd?, Directive.read?]
  split
  · rfl
  · have lineEq := Text.takeWhile_append_trimStart line
    have leadingEq :
        Text.byteSize line - Text.byteSize (Text.trimStart line) =
          Text.byteSize (line.takeWhile isBlank) :=
      byteSize_sub_dropWhile isBlank line
    have indented := cutFrom_append (line.takeWhile isBlank) (Text.trimStart line)
    rw [lineEq] at indented
    simp only [leadingEq, indented, ok_bind]
    cases trimmed : Text.trimStart line with
    | nil => rfl
    | cons c rest =>
        by_cases isHash : c = '#'
        · subst isHash
          have restEq :=
            List.takeWhile_append_dropWhile (p := fun c => c = ' ' || c = '\t') (l := rest)
          rw [trimmed] at lineEq
          generalize rest.takeWhile (fun c => c = ' ' || c = '\t') = gap at restEq
          simp only [Text.afterPrefix?, if_pos]
          generalize rest.dropWhile (fun c => c = ' ' || c = '\t') = behind at restEq ⊢
          have frontEq : line.takeWhile isBlank ++ '#' :: gap ++ behind = line := by
            simpa [← restEq] using lineEq
          have startEq :
              Text.byteSize (line.takeWhile isBlank) + 1 +
                  (Text.byteSize rest - Text.byteSize behind) =
                Text.byteSize (line.takeWhile isBlank ++ '#' :: gap) := by
            have hashSize : '#'.utf8Size = 1 := rfl
            rw [← restEq]
            simp only [Text.byteSize_append, Text.byteSize_cons, hashSize]
            omega
          have found := cutFrom_append (line.takeWhile isBlank ++ '#' :: gap) behind
          have keyword := keywordAt?_eq (line.takeWhile isBlank ++ '#' :: gap) behind
          rw [frontEq] at found keyword
          rw [startEq, found, ok_bind, keyword]
          rfl
        · have noHash : Text.afterPrefix? ['#'] (c :: rest) = none := by
            simp [Text.afterPrefix?, isHash]
          simp only [noHash]
          split
          · next equality => exact absurd (List.cons.inj equality).1 isHash
          · rfl

private theorem trimmedSpan_eq (piece : Piece) : trimmedSpan piece = piece.trim.span := by
  obtain ⟨offset, text⟩ := piece
  have indentEq :
      Text.byteSize text - Text.byteSize (Text.trimStart text) = Text.indentSize text :=
    byteSize_sub_dropWhile isBlank text
  simp only [trimmedSpan, Piece.trim, indentEq]
  cases trimmed : Text.trim text with
  | nil => rfl
  | cons c rest => rfl

private theorem commentContent?_eq (inner : Piece) :
    commentContent? inner =
      .ok (((commentKind? inner.trim.text).map (·, inner.trim)).map fun (found, content) =>
        (found, content.span)) := by
  simp only [commentContent?, beginsWith_sameWord, ok_bind, trimmedSpan_eq, Piece.text_trim,
    commentKind?]
  split
  · rfl
  · split
    · next begins =>
        obtain ⟨rest, trimEq, _⟩ := beginsWithKeyword_eq_true_iff.1 begins
        rw [trimEq, cutFrom_append, ok_bind, beginsWithKeyword_append, List.drop_left]
        rw [trimEq, beginsWithKeyword_append] at begins
        rw [begins, Bool.true_and]
        split <;> rfl
    · next begins =>
        simp only [begins]
        rfl

end Slicing

namespace Piece

def LiesIn (piece whole : Piece) : Prop :=
  ∃ front back,
    whole.text = front ++ piece.text ++ back ∧ piece.offset = whole.offset + Text.byteSize front

variable {piece whole outer : Piece}

theorem LiesIn.trans
    (inner : piece.LiesIn whole)
    (within : whole.LiesIn outer) :
    piece.LiesIn outer := by
  obtain ⟨front, back, wholeEq, offsetEq⟩ := inner
  obtain ⟨front', back', outerEq, offsetEq'⟩ := within
  refine ⟨front' ++ front, back ++ back', ?_, ?_⟩
  · simp [outerEq, wholeEq]
  · rw [offsetEq, offsetEq', Text.byteSize_append, Nat.add_assoc]

private theorem liesIn_trim (piece : Piece) : piece.trim.LiesIn piece := by
  obtain ⟨front, back, textEq, _, _, offsetEq⟩ := exists_trim_frame piece
  exact ⟨front, back, textEq, offsetEq⟩

private theorem liesIn_dropLeading (c : Char) (piece : Piece) :
    (piece.dropLeading c).LiesIn piece := by
  obtain ⟨marks, textEq, _, offsetEq⟩ := exists_dropLeading_frame c piece
  exact ⟨marks, [], by rwa [List.append_nil], offsetEq⟩

private theorem liesIn_dropTrailing (c : Char) (piece : Piece) :
    (piece.dropTrailing c).LiesIn piece := by
  obtain ⟨marks, textEq, _, offsetEq⟩ := exists_dropTrailing_frame c piece
  exact ⟨[], marks, textEq, offsetEq⟩

theorem liesIn_pieceBehind
    {directive : Directive}
    {after : Text}
    (reads : Directive.read? whole.text = some (directive, after)) :
    (Candidate.contentOf?.pieceBehind whole after).LiesIn whole := by
  obtain ⟨indent, gap, lineEq, _⟩ := Directive.read?_eq_some_iff.1 reads
  refine ⟨indent ++ '#' :: (gap ++ directive.keyword), [], ?_, ?_⟩
  · simpa [Candidate.contentOf?.pieceBehind] using lineEq
  · simp only [Candidate.contentOf?.pieceBehind, lineEq, Text.byteSize_append, Text.byteSize_cons]
    omega

theorem liesIn_of_slice?
    {source text : Text}
    {start stop : Nat}
    (sliced : Text.slice? start stop source = some text) :
    (⟨start, text⟩ : Piece).LiesIn ⟨0, source⟩ := by
  obtain ⟨front, back, sourceEq, startEq, _⟩ := Text.slice?_eq_some_iff.1 sliced
  exact ⟨front, back, sourceEq, by rw [startEq, Nat.zero_add]⟩

theorem LiesIn.slice?_eq
    {source : Text}
    (lies : piece.LiesIn ⟨0, source⟩) :
    Text.slice? piece.span.start piece.span.stop source = some piece.text := by
  obtain ⟨front, back, sourceEq, offsetEq⟩ := lies
  rw [Nat.zero_add] at offsetEq
  exact Text.slice?_eq_some_iff.2 ⟨front, back, sourceEq, offsetEq.symm, rfl⟩

private theorem LiesIn.cut_eq
    {source : Text}
    (lies : piece.LiesIn ⟨0, source⟩) :
    Slicing.cut piece.span.start piece.span.stop source = .ok piece.text := by
  rw [Slicing.cut, lies.slice?_eq]

end Piece

theorem Candidate.liesIn_inner?
    {kind : TriviaKind}
    {whole content : Piece}
    (found : inner? kind whole = some content) :
    content.LiesIn whole := by
  cases kind with
  | lineComment =>
      obtain rfl := Option.some.inj found
      exact (Piece.liesIn_trim _).trans (Piece.liesIn_dropLeading '/' whole)
  | blockComment =>
      obtain ⟨inner, innerEq, rfl⟩ := Option.map_eq_some_iff.1 found
      obtain ⟨opened, openedEq, rest⟩ := Option.bind_eq_some_iff.1 innerEq
      obtain ⟨held, heldEq, innerEq⟩ := Option.bind_eq_some_iff.1 rest
      obtain rfl := Option.some.inj innerEq
      have wholeEq := Text.afterPrefix?_eq_some_iff.1 openedEq
      rw [Text.beforeSuffix?_eq_some_iff.1 heldEq] at wholeEq
      have lies : (⟨whole.offset + 2, held⟩ : Piece).LiesIn whole :=
        ⟨['/', '*'], ['*', '/'], by simp [wholeEq], rfl⟩
      exact
        (Piece.liesIn_trim _).trans
          ((Piece.liesIn_dropTrailing '*' _).trans ((Piece.liesIn_dropLeading '*' _).trans lies))
  | regionDirective =>
      obtain ⟨⟨directive, after⟩, reads, rfl⟩ := Option.map_eq_some_iff.1 found
      exact (Piece.liesIn_trim _).trans (Piece.liesIn_pieceBehind reads)
  | endRegionDirective =>
      obtain ⟨⟨directive, after⟩, reads, rfl⟩ := Option.map_eq_some_iff.1 found
      exact (Piece.liesIn_trim _).trans (Piece.liesIn_pieceBehind reads)

namespace Slicing

private theorem cutFrom_directiveEnd
    {whole : Piece}
    {directive : Directive}
    {after : Text}
    (reads : Directive.read? whole.text = some (directive, after)) :
    cutFrom (Text.byteSize whole.text - Text.byteSize after) whole.text = .ok after := by
  obtain ⟨indent, gap, lineEq, _⟩ := Directive.read?_eq_some_iff.1 reads
  have split :
      whole.text = (indent ++ '#' :: (gap ++ directive.keyword)) ++ after := by simpa using lineEq
  have found := cutFrom_append (indent ++ '#' :: (gap ++ directive.keyword)) after
  rw [← split] at found
  have sizeEq :
      Text.byteSize whole.text - Text.byteSize after =
        Text.byteSize (indent ++ '#' :: (gap ++ directive.keyword)) := by
    rw [split, Text.byteSize_append]
    omega
  rwa [sizeEq]

/-- The content of a piece of trivia is found by slices. -/
theorem content?_eq
    {source : Text}
    {whole : Piece}
    (lies : whole.LiesIn ⟨0, source⟩)
    (kind : TriviaKind) :
    content? source kind whole =
      .ok ((Candidate.contentOf? kind whole).map fun (found, content) =>
        (found, content.span)) := by
  have behindLies : ∀ {directive : Directive} {after : Text},
      Directive.read? whole.text = some (directive, after) →
        (Candidate.contentOf?.pieceBehind whole after).trim.LiesIn ⟨0, source⟩ := fun reads =>
    (Piece.liesIn_trim _).trans ((Piece.liesIn_pieceBehind reads).trans lies)
  rw [Candidate.contentOf?_eq_bind]
  cases kind with
  | lineComment =>
      rw [content?, byteSize_sub_dropWhile]
      exact commentContent?_eq _
  | blockComment =>
      rw [content?, Candidate.inner?, commentInner?]
      cases opened : Text.afterPrefix? ['/', '*'] whole.text with
      | none => rfl
      | some rest =>
          cases closed : Text.beforeSuffix? ['*', '/'] rest with
          | none =>
              simp only [Option.bind_eq_bind, Option.bind_some, closed]
              rfl
          | some inner =>
              have found :=
                cutFrom_append (inner.takeWhile (· = '*')) (inner.dropWhile (· = '*'))
              rw [List.takeWhile_append_dropWhile] at found
              simp only [closed, Option.bind_some, byteSize_sub_dropWhile, found, ok_bind,
                Option.bind_eq_bind, Option.map_some]
              exact commentContent?_eq _
  | regionDirective =>
      rw [content?, directiveEnd?_eq, ok_bind, Candidate.inner?]
      cases reads : Directive.read? whole.text with
      | none => rfl
      | some pair =>
          obtain ⟨directive, after⟩ := pair
          have tagEq := (behindLies reads).cut_eq
          rw [Candidate.contentOf?.pieceBehind] at tagEq
          simp only [Option.map_some, cutFrom_directiveEnd reads, ok_bind, trimmedSpan_eq, tagEq,
            beginsWith_sameWordInAnyCase, Candidate.contentOf?.pieceBehind]
          rfl
  | endRegionDirective =>
      rw [content?, directiveEnd?_eq, ok_bind, Candidate.inner?]
      cases reads : Directive.read? whole.text with
      | none => rfl
      | some pair =>
          obtain ⟨directive, after⟩ := pair
          simp only [Option.map_some, cutFrom_directiveEnd reads, ok_bind, trimmedSpan_eq,
            Candidate.contentOf?.pieceBehind]
          rfl

/-- The text behind a keyword is told apart by slices. -/
theorem payload_eq (rest : Piece) : payload rest = .ok (Payload.ofPiece rest) := by
  have split := Text.splitLastWord_append (Text.trimEnd rest.text)
  rw [payload, lastWord?, Payload.ofPiece]
  split
  · next blank =>
      have trimmedEq : Text.trimEnd rest.text = [] := by
        have allBlank : Text.AllBlank (Text.trimEnd rest.text) := by
          rw [Text.trimStart, List.isEmpty_iff, List.dropWhile_eq_nil_iff] at blank
          exact blank
        exact allBlank.eq_nil (Text.endsVisible_trimEnd rest.text)
      rw [trimmedEq]
      rfl
  · have startEq :
        lastBlankEnd (Text.trimEnd rest.text) =
          Text.byteSize (Text.splitLastWord (Text.trimEnd rest.text)).1 := rfl
    have frontEq := cut_zero_append (Text.splitLastWord (Text.trimEnd rest.text)).1
      (Text.splitLastWord (Text.trimEnd rest.text)).2
    have wordEq := cutFrom_append (Text.splitLastWord (Text.trimEnd rest.text)).1
      (Text.splitLastWord (Text.trimEnd rest.text)).2
    have sizeEq := congrArg Text.byteSize split
    rw [Text.byteSize_append] at sizeEq
    rw [split] at frontEq wordEq
    simp only [startEq, frontEq, wordEq, ok_bind, pure_bind, ← sizeEq, ← Nat.add_assoc]
    cases LocationTag.parse? (Text.splitLastWord (Text.trimEnd rest.text)).2 <;> rfl

/-- A content is read by slices as the marker that it is. -/
theorem classify?_eq
    {source : Text}
    {kind : TriviaKind}
    {content : Piece}
    {found : CandidateKind}
    (lies : content.LiesIn ⟨0, source⟩)
    (kindEq : Candidate.kindOf? kind content.text = some found)
    (position : Position) :
    classify? source found kind position content.span =
      .ok (found.keyword?.map fun (keyword, word) =>
        Marker.ofContent keyword word kind position content) := by
  rw [classify?, lies.cut_eq, ok_bind]
  cases keywordEq : found.keyword? with
  | none => rfl
  | some pair =>
      obtain ⟨keyword, word⟩ := pair
      obtain ⟨lead, rest, leads, contentEq, _⟩ := Candidate.exists_leads kindEq keywordEq
      have restEq : cutFrom (Text.byteSize word) content.text = .ok rest := by
        rw [contentEq, ← leads.byteSize_eq]
        exact cutFrom_append lead rest
      have dropEq : content.text.drop word.length = rest := by
        rw [contentEq, ← leads.length_eq, List.drop_left]
      simp only [restEq, ok_bind, payload_eq, Option.map_some, Marker.ofContent, dropEq]
      rfl

/-- Accepted trivia is read by slices as what it is for pairing. -/
theorem read?_eq
    {source : Source}
    {item : Trivia}
    (holds : item.Holds source.text) :
    read? source item = .ok (PairingItem.ofTrivia? source item) := by
  obtain ⟨text, sliced, _⟩ := holds
  have lies := Piece.liesIn_of_slice? sliced
  have slicedEq : source.slice? item.span = some text := sliced
  rw [read?, cut, sliced]
  simp only [ok_bind, content?_eq lies, PairingItem.ofTrivia?_eq_bind, slicedEq, Option.bind_some,
    PairingItem.ofPiece?]
  cases found : Candidate.contentOf? item.kind ⟨item.span.start, text⟩ with
  | none => rfl
  | some pair =>
      obtain ⟨kind, content⟩ := pair
      rw [Candidate.contentOf?_eq_bind, Option.bind_eq_some_iff] at found
      obtain ⟨inner, innerEq, pairFound⟩ := found
      obtain ⟨kind', kindEq, pairEq⟩ := Option.map_eq_some_iff.1 pairFound
      obtain ⟨rfl, rfl⟩ := Prod.mk.inj pairEq
      have contentLies := (Candidate.liesIn_inner? innerEq).trans lies
      have markerEq := classify?_eq contentLies kindEq (source.positionOf item.span)
      simp only [Option.map_some, Option.bind_some, PairingItem.ofCandidate?_eq]
      cases kind' with
      | plainRegionStart => rfl
      | _ =>
        simp only [markerEq, ok_bind]
        rfl

end Slicing

end MacroRegions
