import MacroRegions.Document.Parse
import MacroRegions.Proofs.Marker.Slicing
import MacroRegions.Proofs.Nesting.Staging
import MacroRegions.Proofs.Trivia.Faults

/-!
What makes parsing fail.

A parser that works with offsets and builders could fail in many places: wherever it
cuts a part out of a text, and wherever it adds a builder to another one. It is shown
here that nothing but supplied trivia at fault stops it. The first piece at fault is
reported, and without one the document is that of parsing.
-/

namespace MacroRegions

namespace Slicing

def fits (kind : TriviaKind) (text : Text) : Except Stop Bool :=
  match kind with
  | .lineComment => return (Text.afterPrefix? ['/', '/'] text).isSome && '\n' ∉ text
  | .blockComment =>
    return 4 ≤ Text.byteSize text && (Text.afterPrefix? ['/', '*'] text).isSome &&
      (Text.beforeSuffix? ['*', '/'] text).isSome
  | .regionDirective => return (← directiveEnd? text).any (·.1 = .opening)
  | .endRegionDirective => return (← directiveEnd? text).any (·.1 = .closing)

def checkFrom (text : Text) (previousStop index : Nat) : List Trivia → Except Stop Unit
  | [] => return ()
  | item :: rest =>
    let malformed := fun fault => Except.error (Stop.failed (.malformedTrivia index fault))
    if item.span.stop < item.span.start then
      malformed .reversed
    else
      match Text.slice? item.span.start item.span.stop text with
      | none => malformed .outOfBounds
      | some piece =>
        if item.span.start < previousStop then
          malformed .overlapping
        else do
          if ← fits item.kind piece then
            checkFrom text item.span.stop (index + 1) rest
          else
            malformed (.misshapen item.kind)

private theorem fits_eq (kind : TriviaKind) (text : Text) :
    fits kind text = .ok (kind.fits text) := by
  cases kind with
  | lineComment => rfl
  | blockComment => rfl
  | regionDirective | endRegionDirective =>
      rw [fits, directiveEnd?_eq, ok_bind, Option.any_map]
      rfl

/-- Checking by slices stops at the first fault and nowhere else. -/
theorem checkFrom_eq (text : Text) (previousStop index : Nat) (trivia : List Trivia) :
    checkFrom text previousStop index trivia =
      match Trivia.firstFaultFrom text previousStop index trivia with
      | some (number, fault) => .error (.failed (.malformedTrivia number fault))
      | none => .ok () := by
  induction trivia generalizing previousStop index with
  | nil => rfl
  | cons item rest inductionHypothesis =>
      rw [checkFrom, Trivia.firstFaultFrom, Trivia.fault?]
      by_cases backwards : item.span.stop < item.span.start
      · simp only [if_pos backwards]
      · simp only [if_neg backwards]
        cases Text.slice? item.span.start item.span.stop text with
        | none => rfl
        | some piece =>
            by_cases early : item.span.start < previousStop
            · simp only [if_pos early]
            · simp only [if_neg early, fits_eq, ok_bind]
              cases item.kind.fits piece with
              | true => exact inductionHypothesis item.span.stop (index + 1)
              | false => rfl

end Slicing

namespace Document

def takeTrivia (strict : Bool) (source : Source) (staging : Staging) (item : Trivia) :
    Except Stop Staging := do
  match ← Slicing.read? source item with
  | none => return staging
  | some found => (staging.step strict found).mapError .failed

def assemble
    (filePath : Text)
    (source : Source)
    (trivia : List Trivia)
    (options : ParseOptions) :
    Except Stop Document := do
  let staging ← trivia.foldlM (takeTrivia options.strictLocationTags source) Staging.empty
  let (tree, problems) := staging.finish
  return ⟨filePath, tree, problems⟩

def assembleWithTrivia
    (filePath : Text)
    (source : Source)
    (trivia : List Trivia)
    (options : ParseOptions) :
    Except Stop Document := do
  Slicing.checkFrom source.text 0 0 trivia
  assemble filePath source trivia options

private theorem foldlM_takeTrivia
    {source : Source}
    {trivia : List Trivia}
    (holds : ∀ item ∈ trivia, item.Holds source.text)
    (strict : Bool)
    (staging : Staging) :
    trivia.foldlM (takeTrivia strict source) staging =
      ((trivia.filterMap (PairingItem.ofTrivia? source)).foldlM (Staging.step strict)
        staging).mapError .failed := by
  induction trivia generalizing staging with
  | nil => rfl
  | cons item rest inductionHypothesis =>
      have itemHolds := holds item List.mem_cons_self
      have restHolds : ∀ later ∈ rest, later.Holds source.text := fun later member =>
        holds later (List.mem_cons_of_mem item member)
      have readEq := Slicing.read?_eq itemHolds
      rw [List.foldlM_cons, takeTrivia, readEq, Slicing.ok_bind, List.filterMap_cons]
      cases PairingItem.ofTrivia? source item with
      | none => exact inductionHypothesis restHolds staging
      | some found =>
          simp only [List.foldlM_cons]
          cases staging.step strict found with
          | error failure => rfl
          | ok next => exact inductionHypothesis restHolds next

/-- Trivia that lies in a text makes up a document, and nothing is refused. -/
theorem assemble_eq
    {source : Source}
    {trivia : List Trivia}
    (holds : ∀ item ∈ trivia, item.Holds source.text)
    (filePath : Text)
    (options : ParseOptions) :
    assemble filePath source trivia options = .ok (ofTrivia filePath source trivia options) := by
  have built := Staging.build_eq options.strictLocationTags (pairingItems source trivia)
  rw [assemble, foldlM_takeTrivia holds, ← pairingItems_eq_filterMap]
  cases run : (pairingItems source trivia).foldlM (Staging.step options.strictLocationTags)
      Staging.empty with
  | error failure =>
      rw [run] at built
      cases built
  | ok last =>
      rw [run] at built
      have finishEq := Except.ok.inj built
      simp only [Except.mapError, Slicing.ok_bind, finishEq]
      rfl

/-- Checking and assembling is parsing: no part is missing and no builder is refused. -/
theorem assembleWithTrivia_eq
    (filePath : Text)
    (source : Source)
    (trivia : List Trivia)
    (options : ParseOptions) :
    assembleWithTrivia filePath source trivia options =
      (parseWithTrivia filePath source trivia options).mapError .failed := by
  rw [assembleWithTrivia, Slicing.checkFrom_eq, parseWithTrivia, Trivia.firstFault?]
  cases accepted : Trivia.firstFaultFrom source.text 0 0 trivia with
  | some found => rfl
  | none =>
      have holds := (Trivia.firstFault?_eq_none_iff.1 accepted).1
      exact assemble_eq holds filePath options

theorem parseWithTrivia_eq_error_iff
    (filePath : Text)
    (source : Source)
    (trivia : List Trivia)
    (options : ParseOptions)
    (failure : Failure) :
    parseWithTrivia filePath source trivia options = .error failure ↔
      ∃ number fault, failure = .malformedTrivia number fault ∧
        Trivia.IsFirstFault source.text 0 trivia number fault := by
  simp only [← Trivia.firstFault?_eq_some_iff]
  rw [parseWithTrivia]
  cases Trivia.firstFault? source.text trivia with
  | none => simp
  | some found =>
      obtain ⟨number, fault⟩ := found
      simp [eq_comm]

/-- Only trivia at fault can make parsing fail, and the first piece at fault does,
whatever comes behind it. Otherwise parsing comes to a document: every part of the
text that it cuts out is there, and no builder is refused. -/
theorem fails_exactly_on_faulty_trivia
    (filePath : Text)
    (source : Source)
    (trivia : List Trivia)
    (options : ParseOptions) :
    ((∃ failure, parseWithTrivia filePath source trivia options = .error failure) ↔
        ∃ front item rest, trivia = front ++ item :: rest ∧
          item.IsFaulty source.text (Trivia.stopBehind 0 front)) ∧
      (∀ failure, parseWithTrivia filePath source trivia options = .error failure ↔
        ∃ number fault, failure = .malformedTrivia number fault ∧
          Trivia.IsFirstFault source.text 0 trivia number fault) ∧
      assembleWithTrivia filePath source trivia options =
        (parseWithTrivia filePath source trivia options).mapError .failed ∧
      assemble filePath source (Trivia.extract source.text) options =
        .ok (parse filePath source options) := by
  refine ⟨?_, parseWithTrivia_eq_error_iff filePath source trivia options,
    assembleWithTrivia_eq filePath source trivia options, ?_⟩
  · rw [← Trivia.firstFault?_ne_none_iff, parseWithTrivia]
    cases Trivia.firstFault? source.text trivia with
    | none => simp
    | some found => simp
  · have holds := (Trivia.firstFault?_eq_none_iff.1 (Trivia.firstFault?_extract source.text)).1
    exact assemble_eq holds filePath options

end Document

end MacroRegions
