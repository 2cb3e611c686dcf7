/-!
# Failures of a run

A `Failure` is what the operator is told: a kind, which fixes the opening words and the exit code
of the process, and a message.
-/

namespace SecretStore

/-- The kinds of failure an operator can tell apart. -/
inductive Failure.Kind where
  | notFound
  | validation
  | config
  | forbidden
  | internal
  | externalService
  | failedPrecondition
  deriving DecidableEq, Repr

/-- Why a run stopped. -/
structure Failure where
  kind : Failure.Kind
  message : String
  deriving DecidableEq, Repr

namespace Failure

/-- The words in front of the message. -/
def Kind.opening : Kind → String
  | notFound => "Not found: "
  | validation => "Validation error: "
  | config => "Configuration error: "
  | forbidden => "Forbidden: "
  | internal => "Internal error: "
  | externalService => "External service error: "
  | failedPrecondition => "Failed precondition: "

/-- The exit code of the process, after the `sysexits` convention. -/
def Kind.exitCode : Kind → UInt8
  | validation => 65
  | notFound => 66
  | externalService => 69
  | internal => 70
  | failedPrecondition => 75
  | forbidden => 77
  | config => 78

/-- The text of the failure. -/
def text (f : Failure) : String := f.kind.opening ++ f.message

/-- The exit code of the process. -/
def exitCode (f : Failure) : UInt8 := f.kind.exitCode

/-- No failure ends the process as a success does. -/
theorem exitCode_ne_zero (f : Failure) : f.exitCode ≠ 0 := by
  unfold exitCode
  cases f.kind <;> decide

end Failure

end SecretStore
