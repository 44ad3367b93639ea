import MacroRegions.Marker.Classification
import MacroRegions.Proofs.LocationTag.Writing
import MacroRegions.Proofs.Marker.Framing

/-!
Markers with other location tags.

When the location tag of a marker is written anew, or written behind a marker that had
none, the text that comes out is read as the same marker with the new tag.
-/

namespace MacroRegions

private theorem utf8Size_of_toLower
    {c d : Char}
    (lower : c.toLower = d)
    (ascii : d.val ≤ 0x7f) :
    c.utf8Size = 1 := by
  have small : c.val ≤ 0x7f := by
    unfold Char.toLower at lower
    split at lower
    next capital => exact UInt32.le_trans capital.2 (by decide)
    next =>
      rw [lower]
      exact ascii
  exact Char.utf8Size_eq_one_iff.2 small

private theorem byteSize_eq_length_of_ascii
    {text : Text}
    (ascii : ∀ c ∈ text, c.utf8Size = 1) :
    Text.byteSize text = text.length := by
  induction text with
  | nil => rfl
  | cons c rest inductionHypothesis =>
      have first := ascii c List.mem_cons_self
      have others := inductionHypothesis fun d member => ascii d (List.mem_cons_of_mem _ member)
      rw [Text.byteSize_cons, List.length_cons, first, others]
      omega

/-- The keyword that a text begins with has the bytes of the keyword, in
whatever case it is written. -/
theorem byteSize_take_startKeyword
    {text : Text}
    (begins : beginsWithKeywordInAnyCase startKeyword text = true) :
    Text.byteSize (text.take startKeyword.length) = Text.byteSize startKeyword := by
  have lowered :
      (text.take startKeyword.length).map Char.toLower = startKeyword.map Char.toLower := by
    have takenEq := (Bool.and_eq_true_iff.1 begins).1
    simpa using takenEq
  have length := congrArg List.length lowered
  rw [List.length_map, List.length_map] at length
  have ascii : ∀ c ∈ text.take startKeyword.length, c.utf8Size = 1 := by
    intro c member
    have loweredMember : c.toLower ∈ startKeyword.map Char.toLower := by
      rw [← lowered]
      exact List.mem_map_of_mem member
    have allAscii : (startKeyword.map Char.toLower).all (·.val ≤ 0x7f) = true := by decide
    exact utf8Size_of_toLower rfl (of_decide_eq_true (List.all_eq_true.1 allAscii _ loweredMember))
  rw [byteSize_eq_length_of_ascii ascii, length]
  rfl

def CandidateKind.Admits (kind : CandidateKind) (rest : Text) : Prop :=
  match kind with
  | .regionStart | .commentStart => Text.endsWord rest = true
  | .commentEnd => Text.endsWord rest = true ∧ isEndSuffix rest = true
  | .regionEnd => True
  | .plainRegionStart => False

def CandidateKind.IsSpelledAs (kind : CandidateKind) (lead : Text) : Prop :=
  match kind with
  | .regionStart => lead.map Char.toLower = startKeyword.map Char.toLower
  | .commentStart => lead = startKeyword
  | .commentEnd => lead = endKeyword
  | .regionEnd => lead = []
  | .plainRegionStart => False

theorem beginsWithKeyword_append (keyword other : Text) :
    beginsWithKeyword keyword (keyword ++ other) = Text.endsWord other := by
  simp [beginsWithKeyword]

theorem beginsWithKeywordInAnyCase_append (keyword other : Text) :
    beginsWithKeywordInAnyCase keyword (keyword ++ other) = Text.endsWord other := by
  simp [beginsWithKeywordInAnyCase]

theorem beginsWithKeyword_eq_true_iff {keyword text : Text} :
    beginsWithKeyword keyword text = true ↔
      ∃ rest, text = keyword ++ rest ∧ Text.endsWord rest = true := by
  constructor
  · intro begins
    obtain ⟨takeEq, ended⟩ := Bool.and_eq_true_iff.1 begins
    refine ⟨text.drop keyword.length, ?_, ended⟩
    have split := List.take_append_drop keyword.length text
    rw [of_decide_eq_true takeEq] at split
    exact split.symm
  · rintro ⟨rest, rfl, ended⟩
    rw [beginsWithKeyword_append, ended]

/-- How the keyword of a candidate is written at the beginning of its content,
so that other text may come behind it. -/
structure CandidateKind.Leads
    (found : CandidateKind)
    (kind : TriviaKind)
    (word lead : Text) : Prop where
  spelled : found.IsSpelledAs lead
  length_eq : lead.length = word.length
  byteSize_eq : Text.byteSize lead = Text.byteSize word
  kindOf?_eq : ∀ rest, found.Admits rest → Candidate.kindOf? kind (lead ++ rest) = some found
  nonempty : found ≠ .regionEnd → lead ≠ []
  letter : kind = .lineComment ∨ kind = .blockComment →
    lead.head? = some 'M' ∨ lead.head? = some 'E'

theorem commentKind?_startKeyword_append
    {rest : Text}
    (ended : Text.endsWord rest = true) :
    commentKind? (startKeyword ++ rest) = some .commentStart := by
  rw [commentKind?, beginsWithKeyword_append, ended, if_pos rfl]

theorem commentKind?_endKeyword_append
    {rest : Text}
    (ended : Text.endsWord rest = true)
    (isSuffix : isEndSuffix rest = true) :
    commentKind? (endKeyword ++ rest) = some .commentEnd := by
  have notStart : beginsWithKeyword startKeyword (endKeyword ++ rest) = false := rfl
  have dropped : (endKeyword ++ rest).drop endKeyword.length = rest := List.drop_left
  rw [commentKind?, notStart, beginsWithKeyword_append, ended, dropped, isSuffix]
  rfl

private theorem exists_leads_of_commentKind?
    {kind : TriviaKind}
    {content : Text}
    {found : CandidateKind}
    (isComment : kind = .lineComment ∨ kind = .blockComment)
    (kindEq : commentKind? content = some found) :
    ∃ keyword word rest,
      found.keyword? = some (keyword, word) ∧
        found.Leads kind word word ∧ content = word ++ rest ∧ found.Admits rest := by
  have kindOf?_eq : ∀ text, Candidate.kindOf? kind text = commentKind? text := by
    rcases isComment with rfl | rfl <;> exact fun _ => rfl
  unfold commentKind? at kindEq
  split at kindEq
  next begins =>
    obtain rfl := Option.some.inj kindEq
    obtain ⟨rest, rfl, ended⟩ := beginsWithKeyword_eq_true_iff.1 begins
    refine ⟨.macroStart, startKeyword, rest, rfl, ⟨rfl, rfl, rfl, ?_, ?_, ?_⟩, rfl, ended⟩
    · intro other admits
      rw [kindOf?_eq]
      exact commentKind?_startKeyword_append admits
    · exact fun _ => List.cons_ne_nil _ _
    · exact fun _ => Or.inl rfl
  next =>
    split at kindEq
    next ends =>
      obtain rfl := Option.some.inj kindEq
      obtain ⟨begins, isSuffix⟩ := Bool.and_eq_true_iff.1 ends
      obtain ⟨rest, rfl, ended⟩ := beginsWithKeyword_eq_true_iff.1 begins
      rw [List.drop_left] at isSuffix
      refine ⟨.macroEnd, endKeyword, rest, rfl, ⟨rfl, rfl, rfl, ?_, ?_, ?_⟩, rfl, ended, isSuffix⟩
      · intro other admits
        rw [kindOf?_eq]
        exact commentKind?_endKeyword_append admits.1 admits.2
      · exact fun _ => List.cons_ne_nil _ _
      · exact fun _ => Or.inr rfl
    next => simp at kindEq

/-- A content begins with a keyword, and would be of the same kind with other
text behind it. -/
theorem Candidate.exists_leads
    {kind : TriviaKind}
    {content : Text}
    {found : CandidateKind}
    {keyword : MarkerKeyword}
    {word : Text}
    (kindEq : kindOf? kind content = some found)
    (keywordEq : found.keyword? = some (keyword, word)) :
    ∃ lead rest,
      found.Leads kind word lead ∧ content = lead ++ rest ∧ found.Admits rest := by
  cases kind with
  | lineComment =>
      obtain ⟨keyword', word', rest, keywordEq', leads, contentEq, admits⟩ :=
        exists_leads_of_commentKind? (Or.inl rfl) kindEq
      obtain ⟨rfl, rfl⟩ : keyword' = keyword ∧ word' = word := by
        simpa [keywordEq] using keywordEq'.symm
      exact ⟨word', rest, leads, contentEq, admits⟩
  | blockComment =>
      obtain ⟨keyword', word', rest, keywordEq', leads, contentEq, admits⟩ :=
        exists_leads_of_commentKind? (Or.inr rfl) kindEq
      obtain ⟨rfl, rfl⟩ : keyword' = keyword ∧ word' = word := by
        simpa [keywordEq] using keywordEq'.symm
      exact ⟨word', rest, leads, contentEq, admits⟩
  | regionDirective =>
      simp only [kindOf?, directiveKind, Option.some.injEq] at kindEq
      split at kindEq
      next begins =>
        subst kindEq
        obtain ⟨rfl, rfl⟩ : MarkerKeyword.macroStart = keyword ∧ startKeyword = word := by
          simpa [CandidateKind.keyword?] using keywordEq
        obtain ⟨lowered, ended⟩ := Bool.and_eq_true_iff.1 begins
        have loweredEq := of_decide_eq_true lowered
        have lengthEq : (content.take startKeyword.length).length = startKeyword.length := by
          simpa using congrArg List.length loweredEq
        refine
          ⟨content.take startKeyword.length, content.drop startKeyword.length,
            ⟨loweredEq, lengthEq, byteSize_take_startKeyword begins, ?_, ?_, by simp⟩,
            (List.take_append_drop _ _).symm, ended⟩
        · intro other admits
          have begins' :
              beginsWithKeywordInAnyCase startKeyword
                  (content.take startKeyword.length ++ other) = true := by
            rw [beginsWithKeywordInAnyCase, List.take_left' lengthEq, List.drop_left' lengthEq,
              lowered]
            exact admits
          rw [kindOf?, directiveKind, if_pos begins']
        · intro _ none
          rw [none] at lengthEq
          exact absurd lengthEq (by decide)
      next =>
        subst kindEq
        simp [CandidateKind.keyword?] at keywordEq
  | endRegionDirective =>
      obtain rfl : CandidateKind.regionEnd = found := Option.some.inj kindEq
      obtain ⟨rfl, rfl⟩ : MarkerKeyword.macroEnd = keyword ∧ [] = word := by
        simpa [CandidateKind.keyword?] using keywordEq
      exact ⟨[], content, ⟨rfl, rfl, rfl, fun _ _ => rfl, by simp, by simp⟩, rfl, trivial⟩

/-! ## Tag slots -/

/-- Where a location tag goes in the text behind a keyword: in the place of the
tag `old` behind `body`, or behind everything after a space. -/
inductive TagSlot : (rest body old gap : Text) → Prop where
  | tagged (body word : Text) (tag : LocationTag)
      (wordFree : Text.BlankFree word)
      (bodyBlank : ∀ c, body.getLast? = some c → isBlank c = true)
      (reads : LocationTag.parse? word = some tag) :
      TagSlot (body ++ word) body word []
  | untagged (rest : Text)
      (ends : Text.EndsVisible rest)
      (noTag : LocationTag.parse? (Text.splitLastWord rest).2 = none) :
      TagSlot rest rest [] [' ']

theorem exists_tagSlot {rest : Text} (ends : Text.EndsVisible rest) :
    ∃ body old gap, TagSlot rest body old gap := by
  have split := Text.splitLastWord_append rest
  cases reads : LocationTag.parse? (Text.splitLastWord rest).2 with
  | none => exact ⟨rest, [], [' '], .untagged rest ends reads⟩
  | some tag =>
      have slot :=
        TagSlot.tagged (Text.splitLastWord rest).1 (Text.splitLastWord rest).2 tag
          (Text.blankFree_splitLastWord rest) (Text.splitLastWord_front rest) reads
      rw [split] at slot
      exact ⟨_, _, _, slot⟩

theorem LocationTag.head?_of_parse?
    {word : Text}
    {tag : LocationTag}
    (reads : parse? word = some tag) :
    word.head? = some '#' := by
  rcases parse?_eq_some_cases reads with ⟨_, _, rfl, _⟩ | ⟨_, _, _, rfl, _⟩ <;> rfl

theorem Payload.ofPiece_append
    {body word : Text}
    {tag : LocationTag}
    (wordFree : Text.BlankFree word)
    (bodyBlank : ∀ c, body.getLast? = some c → isBlank c = true)
    (reads : LocationTag.parse? word = some tag)
    (offset : Nat) :
    Payload.ofPiece ⟨offset, body ++ word⟩ =
      ⟨some tag,
        some ⟨offset + Text.byteSize body, offset + Text.byteSize body + Text.byteSize word⟩,
        body, false⟩ := by
  have nonempty : word ≠ [] := by
    rintro rfl
    simp [LocationTag.parse?] at reads
  have trimmed : Text.trimEnd (body ++ word) = body ++ word :=
    Text.trimEnd_eq_self (wordFree.endsVisible.append body nonempty)
  simp only [Payload.ofPiece, trimmed, Text.splitLastWord_append_word wordFree bodyBlank, reads]

theorem Payload.ofPiece_eq_untagged
    {rest : Text}
    (ends : Text.EndsVisible rest)
    (noTag : LocationTag.parse? (Text.splitLastWord rest).2 = none)
    (offset : Nat) :
    Payload.ofPiece ⟨offset, rest⟩ =
      ⟨none, none, rest, (Text.splitLastWord rest).2.head? = some '#'⟩ := by
  simp only [Payload.ofPiece, Text.trimEnd_eq_self ends, noTag]

/-- A comment end may go on with a written tag behind blanks. -/
theorem isEndSuffix_append_render
    {front : Text}
    {tag : LocationTag}
    (frontBlank : Text.AllBlank front)
    (writable : tag.IsWritable) :
    isEndSuffix (front ++ tag.render) = true := by
  have renderFree := LocationTag.blankFree_render writable
  have trimmed :=
    Text.trim_append_append frontBlank renderFree.startsVisible renderFree.endsVisible
      (show Text.AllBlank [] by simp [Text.AllBlank])
  rw [List.append_nil] at trimmed
  have noBlank : tag.render.any isBlank = false := by
    rw [List.any_eq_false]
    intro c member
    simp [renderFree c member]
  simp only [isEndSuffix, trimmed, noBlank, LocationTag.parse?_render writable]
  simp

namespace TagSlot

variable {rest body old gap : Text}

theorem rest_eq (slot : TagSlot rest body old gap) : rest = body ++ old := by
  cases slot with
  | tagged => rfl
  | untagged => simp

/-- What is before a tag ends with a blank. -/
theorem blank_before
    (slot : TagSlot rest body old gap)
    (c : Char)
    (lastEq : (body ++ gap).getLast? = some c) :
    isBlank c = true := by
  cases slot with
  | tagged _ _ tag wordFree bodyBlank reads => exact bodyBlank c (by simpa using lastEq)
  | untagged _ ends noTag =>
      obtain rfl : ' ' = c := by simpa using lastEq
      decide

theorem newline_notMem_old (slot : TagSlot rest body old gap) : '\n' ∉ old := by
  cases slot with
  | tagged _ _ tag wordFree bodyBlank reads => exact wordFree.newline_notMem
  | untagged => simp

theorem bodyOf?_written
    (slot : TagSlot rest body old gap)
    (form : MarkerForm)
    (offset : Nat) :
    bodyOf? form (body ++ gap) = bodyOf? form (Payload.ofPiece ⟨offset, rest⟩).remainder := by
  cases slot with
  | tagged _ _ tag wordFree bodyBlank reads =>
      rw [Payload.ofPiece_append wordFree bodyBlank reads, List.append_nil]
  | untagged _ ends noTag =>
      rw [Payload.ofPiece_eq_untagged ends noTag, bodyOf?,
        Text.trim_append_of_allBlank _ Text.allBlank_space, bodyOf?]

private theorem endsWord_written
    (slot : TagSlot rest body old gap)
    (ended : Text.endsWord rest = true)
    (tail : Text) :
    Text.endsWord (body ++ gap ++ tail) = true := by
  cases slot with
  | tagged _ _ tag wordFree bodyBlank reads =>
      cases body with
      | nil =>
          have headEq := LocationTag.head?_of_parse? reads
          cases old with
          | nil => simp at headEq
          | cons c word =>
              obtain rfl : c = '#' := by simpa using headEq
              have hashBlank : isBlank '#' = true := ended
              exact absurd hashBlank (by decide)
      | cons c body => exact ended
  | untagged _ ends noTag =>
      cases rest with
      | nil => rfl
      | cons c rest => exact ended

/-- Before the tag of an end marker there are only blanks. -/
theorem allBlank_of_isEndSuffix
    (slot : TagSlot rest body old gap)
    (isSuffix : isEndSuffix rest = true) :
    Text.AllBlank (body ++ gap) := by
  obtain ⟨front, back, restEq, frontBlank, backBlank⟩ := Text.exists_frame rest
  have ends : Text.EndsVisible rest := by
    cases slot with
    | tagged _ _ tag wordFree bodyBlank reads =>
        refine wordFree.endsVisible.append body ?_
        rintro rfl
        simp [LocationTag.parse?] at reads
    | untagged _ ends noTag => exact ends
  have backNil : back = [] :=
    backBlank.eq_nil (Text.EndsVisible.of_append (by rwa [← restEq]))
  rw [backNil, List.append_nil] at restEq
  have suffixCases :
      Text.trim rest = [] ∨
        Text.BlankFree (Text.trim rest) ∧ (LocationTag.parse? (Text.trim rest)).isSome := by
    simpa [isEndSuffix, Text.BlankFree] using isSuffix
  have frontLast : ∀ c, front.getLast? = some c → isBlank c = true :=
    fun c lastEq => frontBlank c (List.mem_of_getLast? lastEq)
  rcases suffixCases with none | ⟨wordFree, isTag⟩
  · -- With nothing but blanks behind the keyword, there is nothing at all.
    have restNil : rest = [] := by
      rw [none, List.append_nil] at restEq
      exact Text.AllBlank.eq_nil (restEq ▸ frontBlank) ends
    cases slot with
    | tagged _ _ tag wordFree bodyBlank reads =>
        obtain ⟨_, rfl⟩ := List.append_eq_nil_iff.1 restNil
        simp [LocationTag.parse?] at reads
    | untagged _ _ noTag =>
        rw [restNil]
        intro c member
        obtain rfl := List.mem_singleton.1 member
        decide
  · have splitEq := Text.splitLastWord_append_word wordFree frontLast
    rw [← restEq] at splitEq
    cases slot with
    | tagged _ _ tag oldFree bodyBlank reads =>
        have splitEq' := Text.splitLastWord_append_word oldFree bodyBlank
        obtain ⟨rfl, _⟩ := Prod.mk.inj (splitEq'.symm.trans splitEq)
        rw [List.append_nil]
        exact frontBlank
    | untagged _ _ noTag =>
        rw [splitEq] at noTag
        simp [noTag] at isTag

/-- A candidate admits a written tag where it admitted what was there. -/
theorem admits_written
    {tag : LocationTag}
    {found : CandidateKind}
    (slot : TagSlot rest body old gap)
    (writable : tag.IsWritable)
    (admits : found.Admits rest) :
    found.Admits (body ++ gap ++ tag.render) := by
  cases found with
  | regionStart => exact slot.endsWord_written admits _
  | commentStart => exact slot.endsWord_written admits _
  | regionEnd => trivial
  | plainRegionStart => exact admits
  | commentEnd =>
      refine ⟨slot.endsWord_written admits.1 _, ?_⟩
      exact isEndSuffix_append_render (slot.allBlank_of_isEndSuffix admits.2) writable

end TagSlot

end MacroRegions
