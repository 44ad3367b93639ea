import MacroRegions.Document.Nesting
import MacroRegions.Proofs.Marker.Order

/-!
What one step of pairing does.

`close_cases` says all that an end marker can do. What is open is told by the
list of openers, on which every step has a plain effect. What holds after some
items is shown by `PairingItem.takingInduction`, one item after the other.
-/

namespace MacroRegions

def Block.markers (block : Block) : List Marker :=
  block.start.toList ++ block.stop.toList

theorem Block.mem_markers_iff {block : Block} {found : Marker} :
    found ∈ block.markers ↔ block.start = some found ∨ block.stop = some found := by
  simp [markers]

namespace OpenEntry

def opener : OpenEntry → Option Marker
  | plainRegion => none
  | block opened => some opened.start

end OpenEntry

/-- The family of the end that closes what an opener opens. -/
def openerFamily (opener : Option Marker) : MarkerFamily :=
  opener.elim .region Marker.family

namespace OpenEntry

@[simp]
theorem openerFamily_opener (entry : OpenEntry) : openerFamily entry.opener = entry.family := by
  cases entry <;> rfl

end OpenEntry

namespace Nesting

/-- The openers of what is open, the innermost first. -/
def openers (nesting : Nesting) : List (Option Marker) :=
  nesting.entries.map OpenEntry.opener

def openersOf (family : MarkerFamily) (nesting : Nesting) : List (Option Marker) :=
  nesting.openers.filter (openerFamily · = family)

theorem openers_attach
    (done : BlockForest)
    (entries : List OpenEntry)
    (finished : BlockForest) :
    (attach done entries finished).openers = entries.map OpenEntry.opener := by
  induction entries with
  | nil => rfl
  | cons entry rest inductionHypothesis =>
      cases entry with
      | plainRegion =>
          simp only [openers] at inductionHypothesis
          simp [attach, openers, inductionHypothesis]
      | block opened => rfl

theorem flatMap_plainRegions
    {α : Type}
    {listing : OpenEntry → List α}
    (ofPlain : listing .plainRegion = [])
    (entries : List OpenEntry) :
    (entries.filter (·.block?.isNone)).flatMap listing = [] := by
  rw [List.flatMap_eq_nil_iff]
  intro entry member
  have isPlain := (List.mem_filter.1 member).2
  cases entry with
  | plainRegion => exact ofPlain
  | block opened => simp [OpenEntry.block?] at isPlain

/-- The block that an end marker makes of an open one, with what was opened
within it. -/
def closed
    (strict : Bool)
    (stop : Marker)
    (inner : List OpenEntry)
    (block : OpenBlock) :
    BlockForest :=
  block.finish (some stop) (errorWith block.error (tagProblem strict stop))
    (collapse .outOfOrder .nil inner)

theorem exists_innermost_or (family : MarkerFamily) (entries : List OpenEntry) :
    (∀ entry ∈ entries, entry.family ≠ family) ∨
      ∃ inner entry outer,
        entries = inner ++ entry :: outer ∧
          (∀ other ∈ inner, other.family ≠ family) ∧
          entry.family = family := by
  induction entries with
  | nil => exact Or.inl (by simp)
  | cons first rest inductionHypothesis =>
      by_cases own : first.family = family
      · exact Or.inr ⟨[], first, rest, rfl, by simp, own⟩
      · rcases inductionHypothesis with apart | ⟨inner, entry, outer, rfl, apart, entryEq⟩
        · exact Or.inl (List.forall_mem_cons.2 ⟨own, apart⟩)
        · exact
            Or.inr ⟨first :: inner, entry, outer, rfl, List.forall_mem_cons.2 ⟨own, apart⟩,
              entryEq⟩

section Close

variable
  {strict : Bool}
  {stop : Marker}
  {inner outer : List OpenEntry}
  {finished : BlockForest}

theorem close_of_apart
    {entries : List OpenEntry}
    (apart : ∀ entry ∈ entries, entry.family ≠ stop.family) :
    close strict ⟨entries, finished⟩ stop =
      (⟨entries, finished⟩, [.ofMarker .unmatchedEnd stop]) := by
  have nothing : entries.dropWhile (·.family ≠ stop.family) = [] := by
    rw [← List.append_nil entries, List.dropWhile_append_of_pos (by simpa using apart),
      List.dropWhile_nil]
  simp only [close, nothing]

private theorem takeWhile_family
    {entry : OpenEntry}
    (apart : ∀ other ∈ inner, other.family ≠ stop.family)
    (own : entry.family = stop.family) :
    (inner ++ entry :: outer).takeWhile (·.family ≠ stop.family) = inner := by
  rw [List.takeWhile_append_of_pos (by simpa using apart),
    List.takeWhile_cons_of_neg (by simpa using own), List.append_nil]

private theorem dropWhile_family
    {entry : OpenEntry}
    (apart : ∀ other ∈ inner, other.family ≠ stop.family)
    (own : entry.family = stop.family) :
    (inner ++ entry :: outer).dropWhile (·.family ≠ stop.family) = entry :: outer := by
  rw [List.dropWhile_append_of_pos (by simpa using apart),
    List.dropWhile_cons_of_neg (by simpa using own)]

theorem close_of_plainRegion
    (apart : ∀ other ∈ inner, other.family ≠ stop.family)
    (own : OpenEntry.plainRegion.family = stop.family) :
    close strict ⟨inner ++ .plainRegion :: outer, finished⟩ stop =
      (⟨inner ++ outer, finished⟩, []) := by
  simp only [close, takeWhile_family apart own, dropWhile_family apart own]

theorem close_of_block
    {block : OpenBlock}
    (apart : ∀ other ∈ inner, other.family ≠ stop.family)
    (own : (OpenEntry.block block).family = stop.family) :
    close strict ⟨inner ++ .block block :: outer, finished⟩ stop =
      (⟨inner.filter (·.block?.isNone) ++
          (attach (closed strict stop inner block) outer finished).entries,
        (attach (closed strict stop inner block) outer finished).finished⟩,
        report .outOfOrder inner ++ tagProblem strict stop) := by
  simp only [close, takeWhile_family apart own, dropWhile_family apart own]
  rfl

end Close

/-- Everything that an end marker can do: it is reported, it closes a plain
region, or it closes a block and ends those within it. -/
theorem close_cases (strict : Bool) (nesting : Nesting) (stop : Marker) :
    (∀ entry ∈ nesting.entries, entry.family ≠ stop.family) ∧
        nesting.close strict stop = (nesting, [.ofMarker .unmatchedEnd stop]) ∨
      (∃ inner outer,
        nesting.entries = inner ++ .plainRegion :: outer ∧
          stop.family = .region ∧
          (∀ entry ∈ inner, entry.family ≠ stop.family) ∧
          nesting.close strict stop = (⟨inner ++ outer, nesting.finished⟩, [])) ∨
      ∃ inner block outer,
        nesting.entries = inner ++ .block block :: outer ∧
          block.start.family = stop.family ∧
          (∀ entry ∈ inner, entry.family ≠ stop.family) ∧
          nesting.close strict stop =
            (⟨inner.filter (·.block?.isNone) ++
                (attach (closed strict stop inner block) outer nesting.finished).entries,
              (attach (closed strict stop inner block) outer nesting.finished).finished⟩,
              report .outOfOrder inner ++ tagProblem strict stop) := by
  obtain ⟨entries, finished⟩ := nesting
  rcases exists_innermost_or stop.family entries with apart | ⟨inner, entry, outer, rfl, apart, own⟩
  · exact Or.inl ⟨apart, close_of_apart apart⟩
  · cases entry with
    | plainRegion =>
        exact
          Or.inr (Or.inl ⟨inner, outer, rfl, own.symm, apart, close_of_plainRegion apart own⟩)
    | block block =>
        exact
          Or.inr (Or.inr ⟨inner, block, outer, rfl, own, apart, close_of_block apart own⟩)

def after (strict : Bool) (items : List PairingItem) : Nesting :=
  (empty.run strict items).1

def problemsOf (strict : Bool) (items : List PairingItem) : List ParseProblem :=
  (empty.run strict items).2.flatMap (·.2)

theorem run_append
    (strict : Bool)
    (nesting : Nesting)
    (first second : List PairingItem) :
    nesting.run strict (first ++ second) =
      (((nesting.run strict first).1.run strict second).1,
        (nesting.run strict first).2 ++ ((nesting.run strict first).1.run strict second).2) := by
  induction first generalizing nesting with
  | nil => rfl
  | cons item rest inductionHypothesis =>
      simp [run, inductionHypothesis]

@[simp]
theorem after_nil (strict : Bool) : after strict [] = empty := rfl

theorem after_concat (strict : Bool) (taken : List PairingItem) (item : PairingItem) :
    after strict (taken ++ [item]) = ((after strict taken).step strict item).1 := by
  simp [after, run_append, run]

theorem problemsOf_concat (strict : Bool) (taken : List PairingItem) (item : PairingItem) :
    problemsOf strict (taken ++ [item]) =
      problemsOf strict taken ++ ((after strict taken).step strict item).2 := by
  simp [problemsOf, after, run_append, run]

end Nesting

/-- What holds of some first items and stays when one more is taken holds of all
items. -/
theorem PairingItem.takingInductionFrom
    {P : List PairingItem → Prop}
    (first rest : List PairingItem)
    (initial : P first)
    (kept : ∀ middle item back,
      middle ++ item :: back = rest →
        P (first ++ middle) →
          P (first ++ middle ++ [item])) :
    P (first ++ rest) := by
  induction rest generalizing first with
  | nil => simpa using initial
  | cons item rest inductionHypothesis =>
      have next : P (first ++ [item]) := by
        simpa using kept [] item rest rfl (by simpa using initial)
      have last :=
        inductionHypothesis (first ++ [item]) next
          (by
            intro middle other back split holds
            have later := kept (item :: middle) other back (by rw [← split, List.cons_append])
            simpa using later (by simpa using holds))
      simpa using last

theorem PairingItem.takingInduction
    {P : List PairingItem → Prop}
    (items : List PairingItem)
    (initial : P [])
    (kept : ∀ taken item back, taken ++ item :: back = items → P taken → P (taken ++ [item])) :
    P items :=
  takingInductionFrom [] items initial kept

end MacroRegions
