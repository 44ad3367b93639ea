import MacroRegions.Proofs.Builder.Runs

/-!
One outcome for every call.

A call is told by a relation between heaps, which leaves no choice: neither for one
call nor for all calls one after the other.
-/

namespace MacroRegions

namespace BuilderHeap

variable {heap next next' : BuilderHeap} {owner child id : Nat} {call : BuilderCall}
  {calls calls' : List BuilderCall} {answer answer' : Option Failure}
  {answers answers' : List (Option Failure)}

theorem Climbs.unique
    {met met' : Bool}
    (climbs : heap.Climbs child id met)
    (climbs' : heap.Climbs child id met') :
    met = met' := by
  rw [Bool.eq_iff_iff, climbs.met_iff, climbs'.met_iff]

theorem AddsChild.unique
    {result result' : Except Failure BuilderHeap}
    (adds : heap.AddsChild owner child result)
    (adds' : heap.AddsChild owner child result') :
    result = result' := by
  cases adds with
  | attached isParent =>
      cases adds' with
      | attached => rfl
      | cycle alone => exact absurd isParent (alone _)
      | added alone => exact absurd isParent (alone _)
  | cycle alone climbs =>
      cases adds' with
      | attached isParent => exact absurd isParent (alone _)
      | cycle => rfl
      | added _ climbs' => cases climbs.unique climbs'
  | added alone climbs =>
      cases adds' with
      | attached isParent => exact absurd isParent (alone _)
      | cycle _ climbs' => cases climbs'.unique climbs
      | added => rfl

/-- A call has one outcome. -/
theorem Takes.unique
    (takes : heap.Takes call next answer)
    (takes' : heap.Takes call next' answer') :
    next = next' ∧ answer = answer' := by
  cases takes with
  | create =>
      cases takes'
      exact ⟨rfl, rfl⟩
  | hold =>
      cases takes'
      exact ⟨rfl, rfl⟩
  | drop =>
      cases takes'
      exact ⟨rfl, rfl⟩
  | setStart =>
      cases takes'
      exact ⟨rfl, rfl⟩
  | setStop =>
      cases takes'
      exact ⟨rfl, rfl⟩
  | setError =>
      cases takes'
      exact ⟨rfl, rfl⟩
  | added _ _ adds =>
      cases takes' with
      | added _ _ adds' =>
          cases adds.unique adds'
          exact ⟨rfl, rfl⟩
      | refused _ _ adds' => cases adds.unique adds'
  | refused _ _ adds =>
      cases takes' with
      | added _ _ adds' => cases adds.unique adds'
      | refused _ _ adds' =>
          cases adds.unique adds'
          exact ⟨rfl, rfl⟩
  | withAdded _ _ adds =>
      cases takes' with
      | withAdded _ _ adds' =>
          cases adds.unique adds'
          exact ⟨rfl, rfl⟩
      | withRefused _ _ adds' => cases adds.unique adds'
  | withRefused _ _ adds =>
      cases takes' with
      | withAdded _ _ adds' => cases adds.unique adds'
      | withRefused _ _ adds' =>
          cases adds.unique adds'
          exact ⟨rfl, rfl⟩
  | updateTags _ updates =>
      cases takes' with
      | updateTags _ updates' => exact ⟨updates.unique updates', rfl⟩

theorem Runs.unique
    (runs : Runs heap calls next answers)
    (runs' : Runs heap calls next' answers') :
    next = next' ∧ answers = answers' := by
  induction runs generalizing next' answers' with
  | nil =>
      cases runs'
      exact ⟨rfl, rfl⟩
  | cons takes _ inductionHypothesis =>
      cases runs' with
      | cons takes' rest' =>
          obtain ⟨rfl, rfl⟩ := takes.unique takes'
          obtain ⟨rfl, rfl⟩ := inductionHypothesis rest'
          exact ⟨rfl, rfl⟩

theorem Runs.append
    (runs : Runs heap calls next answers)
    (runs' : Runs next calls' next' answers') :
    Runs heap (calls ++ calls') next' (answers ++ answers') := by
  induction runs with
  | nil => exact runs'
  | cons takes _ inductionHypothesis => exact .cons takes (inductionHypothesis runs')

/-- Calls that have come to one end come to no other. -/
theorem Runs.runs_iff
    (runs : Runs heap calls next answers) :
    Runs heap calls next' answers' ↔ next' = next ∧ answers' = answers := by
  constructor
  · intro runs'
    exact runs'.unique runs
  · intro same
    rw [same.1, same.2]
    exact runs

end BuilderHeap

end MacroRegions
