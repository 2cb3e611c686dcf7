import SecretStore.Failure

/-!
# Errors of the client

A `ClientError` is what an administrative operation ends with when it does not succeed: the request
got no response, an unexpected status or an undecodable body, or it was refused before anything was
sent. `ClientError.toFailure` classifies an error for the operator by its cause alone.
-/

namespace SecretStore

/-- Why an operation of the client failed. -/
inductive ClientError where
  /-- No response arrived. -/
  | noResponse (operation source : String)
  /-- A response arrived with another status than the operation declares. -/
  | unexpectedStatus (operation : String) (expected actual : UInt16) (errors : List String)
  /-- The body of a response could not be decoded. -/
  | decode (operation : String) (status : UInt16) (message : String)
  /-- The body of a request could not be encoded. -/
  | encode (operation reason : String)
  /-- Every key share was applied and the store is still sealed. -/
  | thresholdNotReached (applied : Nat) (progress threshold : UInt32)
  /-- The operation was called with unusable arguments. -/
  | invalidArgument (message : String)
  /-- The connection could not be set up. -/
  | setup (message : String)
  deriving DecidableEq, Repr

namespace ClientError

/-- The errors that the store itself reported, in parentheses. -/
def reported : List String → String
  | [] => ""
  | errors => " (" ++ String.intercalate ", " errors ++ ")"

/-- The text of the error. -/
def message : ClientError → String
  | noResponse operation source =>
    operation ++ " failed: no response from secret store: " ++ source
  | unexpectedStatus operation expected actual errors =>
    operation ++ s!" failed: expected HTTP status {expected}, got {actual}" ++ reported errors
  | decode operation status message =>
    operation ++ s!" failed: cannot decode HTTP {status} response: " ++ message
  | encode operation reason => operation ++ " failed: cannot encode request body: " ++ reason
  | thresholdNotReached applied progress threshold =>
    s!"unseal threshold not reached after {applied} key share(s) (progress {progress}/{threshold})"
  | invalidArgument message => "invalid argument: " ++ message
  | setup message => "cannot build HTTP client: " ++ message

/-- The status of the response that the error is about, if there was one. -/
def status? : ClientError → Option UInt16
  | unexpectedStatus _ _ actual _ => some actual
  | decode _ status _ => some status
  | _ => none

/-- What the operator is told about an unexpected status. -/
def kindOfStatus (status : UInt16) : Failure.Kind :=
  if status = 401 ∨ status = 403 then .forbidden
  else if status = 404 then .notFound
  else .externalService

/-- The kind of failure that the error amounts to. -/
def kind : ClientError → Failure.Kind
  | unexpectedStatus _ _ actual _ => kindOfStatus actual
  | noResponse .. => .externalService
  | decode .. | encode .. => .internal
  | thresholdNotReached .. => .failedPrecondition
  | invalidArgument _ => .validation
  | setup _ => .config

/-- The error as a failure of the run. -/
def toFailure (e : ClientError) : Failure := ⟨e.kind, e.message⟩

end ClientError

end SecretStore
