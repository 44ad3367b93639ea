import MacroRegions.Trivia.Validation

/-!
Failures: what stops an operation, with the texts that are shown for it.
-/

namespace MacroRegions

/-- What stops an operation. -/
inductive Failure where
  | unreadableFile
  | malformedConfig
  | malformedTrivia (index : Nat) (fault : TriviaFault)
  | builderCycle
  | builderAlreadyAttached
deriving DecidableEq, Repr, Inhabited

namespace Failure

def name : Failure → String
  | unreadableFile => "Io"
  | malformedConfig => "ConfigParse"
  | malformedTrivia _ _ => "MalformedTrivia"
  | builderCycle => "BuilderCycle"
  | builderAlreadyAttached => "BuilderAlreadyAttached"

def code : Failure → String
  | unreadableFile => "regmacro::io_error"
  | malformedConfig => "regmacro::config_parse"
  | malformedTrivia _ _ => "regmacro::malformed_trivia"
  | builderCycle => "regmacro::builder_cycle"
  | builderAlreadyAttached => "regmacro::builder_already_attached"

def help : Failure → Option String
  | unreadableFile => none
  | malformedConfig =>
    some
      ("check that regmacro.toml is valid TOML with [location_tag], [parse] and/or " ++
        "[diagnostics] sections")
  | malformedTrivia _ _ =>
    some "trivia spans must be in bounds, sorted, non-overlapping and match their kind"
  | builderCycle => none
  | builderAlreadyAttached =>
    some "create a fresh builder for each child, a builder has exactly one parent"

/-- A failure in a sentence. The two kinds of failure that only pass on what
another reader says have none. -/
def message : Failure → Option String
  | unreadableFile => none
  | malformedConfig => none
  | malformedTrivia index fault =>
    some ("malformed trivia at index " ++ toString index ++ ": " ++ fault.reason)
  | builderCycle => some "builder cannot be added as a child of its own descendant"
  | builderAlreadyAttached => some "builder is already a child of another builder"

end Failure

end MacroRegions
