import SecretStore.ClientError
import SecretStore.Json.Document
import SecretStore.Json.Printer

/-!
# Requests and exchanges

A `Request` is one administrative call. It is built in steps: a token, then a body, each replacing
what an earlier step of its kind set. An `Exchange` is a response together with the operation that
asked for it, and a `Reply` is an exchange or the error that took its place.
-/

namespace SecretStore

/-- What a request carries. -/
inductive Body where
  | empty
  | json (v : Json.Value)
  | raw (bytes : Bytes)
  deriving Repr

/-- A value to be sent as a JSON body. -/
inductive Payload where
  /-- A document. -/
  | document (v : Json.Value)
  /-- A map given by its entries, whose keys have to be texts. -/
  | entries (es : List (Json.Value × Json.Value))

namespace Payload

/-- The entries as members of an object, if every key is a text. -/
def members? : List (Json.Value × Json.Value) → Option (List (String × Json.Value))
  | [] => some []
  | (.string name, v) :: rest => (members? rest).map ((name, v) :: ·)
  | _ :: _ => none

/-- The document of a payload, or why there is none. -/
def encode : Payload → Except String Json.Value
  | document v => .ok v
  | entries es =>
    match members? es with
    | some ms => .ok (.object (Json.Value.sorted ms))
    | none => .error "key must be a string"

end Payload

/-- One administrative call. -/
structure Request where
  /-- Without a token the request is not authenticated. -/
  token : Option String
  method : String
  path : String
  body : Body
  /-- What the call does, for log lines and errors. -/
  operation : String
  /-- The status of success. -/
  expectedStatus : UInt16
  deriving Repr

namespace Request

/-- A call without token and body. -/
def new (method path operation : String) (expectedStatus : UInt16) : Request :=
  ⟨none, method, path, .empty, operation, expectedStatus⟩

/-- The call with a token. The empty token leaves it unauthenticated. -/
def withToken (token : String) (r : Request) : Request :=
  { r with token := if token = "" then none else some token }

/-- The call with a document as its body. -/
def withJson (v : Json.Value) (r : Request) : Request := { r with body := .json v }

/-- The call with bytes as its body. -/
def withRaw (bytes : Bytes) (r : Request) : Request := { r with body := .raw bytes }

/-- The call with a payload as its body, if the payload can be encoded. -/
def withPayload (p : Payload) (r : Request) : Except ClientError Request :=
  match p.encode with
  | .ok v => .ok (r.withJson v)
  | .error reason => .error (.encode r.operation reason)

/-- A step of building a call. -/
inductive Step where
  | token (t : String)
  | payload (p : Payload)
  | raw (bytes : Bytes)
  | keep

/-- The call after one step. -/
def step (r : Request) : Step → Except ClientError Request
  | .token t => .ok (r.withToken t)
  | .payload p => r.withPayload p
  | .raw bytes => .ok (r.withRaw bytes)
  | .keep => .ok r

/-- The call after some steps, of which the first that fails is the result. -/
def steps (r : Request) : List Step → Except ClientError Request
  | [] => .ok r
  | s :: rest =>
    match r.step s with
    | .ok r => r.steps rest
    | .error e => .error e

end Request

/-- A response to a call. -/
structure Exchange where
  operation : String
  status : UInt16
  body : Bytes
  deriving DecidableEq, Repr

/-- Takes the body with a reader. The error reports the operation and status of the exchange. -/
def Exchange.decode (r : Json.Reader α) (x : Exchange) : Except ClientError α :=
  match Json.whole r x.body with
  | .ok a => .ok a
  | .error e => .error (.decode x.operation x.status e.message)

/-- What an executor answers to a call. -/
abbrev Reply := Except ClientError Exchange

end SecretStore
