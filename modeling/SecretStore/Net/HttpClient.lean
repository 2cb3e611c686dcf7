import SecretStore.Connection
import SecretStore.Files
import SecretStore.Net.Wire
import SecretStore.Request
import SecretStore.Text.Base64
import SecretStore.Text.Slashes

/-!
# Calls over HTTP

An `HttpClient` turns a `Request` into messages: `HttpClient.message` forms the message,
`HttpClient.execute` sends it and judges the final response. A reply is an exchange only if the
status is the expected one and the body arrived to its end. What is done with the help of others,
reading names of hosts and files of certificates and getting ready to send, is a parameter,
`Primitives`.
-/

namespace SecretStore.Net

/-- What is left to others. -/
structure Primitives where
  /-- The names of hosts that are not plain. -/
  names : Host.Names
  /-- Whether a file holds a certificate, or in words why it does not. -/
  certificate : Bytes → Except String Unit
  /-- Whether messages can be sent while such a file is trusted, if one is given, or in words why
  they cannot. -/
  transport : Option Bytes → Except String Unit

/-- Where requests go and what each of them carries. -/
structure HttpClient where
  names : Host.Names
  /-- What request paths are joined to, without slashes at the end. -/
  base : String
  nameSpace : Option String

namespace HttpClient

/-- How the program introduces itself. -/
def userAgent : String := "vaultadm/0.1.0"

/-- A text without the slashes at its end. -/
def trimEnd (s : String) : String := String.ofList (Slashes.trimEnd s.toList)

/-- A text without the slashes at its start. -/
def trimStart (s : String) : String := String.ofList (Slashes.trimStart s.toList)

/-- The file of certificates to trust, if one is given. -/
def trusted (p : Primitives) (files : Files) : Option String → Except ClientError (Option Bytes)
  | none => .ok none
  | some path =>
    match files path with
    | .error e => .error (.setup ("cannot read CA certificate " ++ path ++ ": " ++ e.message))
    | .ok bytes =>
      match p.certificate bytes with
      | .ok _ => .ok (some bytes)
      | .error reason => .error (.setup ("invalid CA certificate " ++ path ++ ": " ++ reason))

/-- The client of a connection. -/
def ofConnection (p : Primitives) (files : Files) (c : Connection) :
    Except ClientError HttpClient :=
  match trusted p files c.rootCertificate with
  | .error e => .error e
  | .ok file =>
    match p.transport file with
    | .ok _ => .ok ⟨p.names, trimEnd c.baseUrl, c.nameSpace⟩
    | .error reason => .error (.setup reason)

/-! ### Forming messages -/

/-- The text of the address of a path: one slash between base and path. -/
def address (client : HttpClient) (path : String) : String :=
  client.base ++ "/" ++ trimStart path

/-- Whether a byte may stand in the value of a header. -/
def inHeader (b : UInt8) : Bool := (0x20 ≤ b && b != 0x7F) || b = 9

/-- The header of an optional value, if the value can be one. -/
def header? (name : String) : Option String → Option (List (String × Bytes))
  | none => some []
  | some value =>
    let bytes := Bytes.ofString value
    if bytes.all inHeader then some [(name, bytes)] else none

/-- The bytes of a body. -/
def bytesOf : Body → Bytes
  | .empty => []
  | .json v => Bytes.ofString v.compact
  | .raw bytes => bytes

/-- The headers that every message has. -/
def commonHeaders : List (String × Bytes) :=
  [("user-agent", Bytes.ofString userAgent), ("accept", Bytes.ofString "*/*")]

/-- The headers of a body. -/
def headersOf (body : Body) : List (String × Bytes) :=
  (match body with
    | .json _ => [("content-type", Bytes.ofString "application/json")]
    | _ => []) ++
  (match bytesOf body with
    | [] => []
    | bytes => [("content-length", Bytes.ofString (toString bytes.length))])

/-- The header of the user information of an address: the name and the password, which may be left
out, as one text in base 64. A name that is no text is not sent. -/
def authorization (user : Option (List Char)) : List (String × Bytes) :=
  match user with
  | none => []
  | some cs =>
    let name := Percent.decodeText (cs.takeWhile (· ≠ ':'))
    let password := Percent.decodeText ((cs.dropWhile (· ≠ ':')).drop 1)
    let password := if (Utf8.decode? password).isSome then password else []
    if (Utf8.decode? name).isNone ∨ (name.isEmpty ∧ password.isEmpty) then []
    else
      [("authorization", Bytes.ofString ("Basic " ++
        String.ofList (Base64.encode (name ++ Bytes.ofString ":" ++ password))))]

/-- Whether an address can be requested. -/
def isUsable (url : Url) : Bool := Url.isWeb url.scheme && url.isUri

/-- The message of a call. -/
def message (client : HttpClient) (r : Request) : Except SendError Message :=
  let address := client.address r.path
  match Url.parse? client.names address with
  | none => .error .malformed
  | some url =>
    if url.host.isNone ∨ url.host = some [] then .error (.unusable url)
    else
      match header? "x-vault-token" r.token, header? "x-vault-namespace" client.nameSpace with
      | some token, some nameSpace =>
        if isUsable url then
          .ok ⟨r.method, url, authorization (Url.userInfo? address) ++ token ++ nameSpace ++
            commonHeaders ++ headersOf r.body, bytesOf r.body⟩
        else .error (.unusable url)
      | _, _ => .error .malformed

/-! ### Judging responses -/

/-- The texts in a list of values. -/
def texts : List Json.Value → List String
  | [] => []
  | .string s :: rest => s :: texts rest
  | _ :: rest => texts rest

/-- The errors that the body of a response reports. -/
def reportedErrors (content : Option Bytes) : List String :=
  match content with
  | none => []
  | some body =>
    match Json.Value.parse body with
    | .error _ => []
    | .ok v =>
      match v.member? "errors" with
      | some (.array vs) => texts vs
      | _ => []

/-- What a final response means for a call. -/
def judge (r : Request) (a : Response) : Reply :=
  let content := a.content? r.method
  if a.status ≠ r.expectedStatus then
    .error (.unexpectedStatus r.operation r.expectedStatus a.status (reportedErrors content))
  else
    match content with
    | some body => .ok ⟨r.operation, a.status, body⟩
    | none =>
      .error (.decode r.operation a.status
        "cannot read response body: error decoding response body")

/-- The reply without a response. -/
def unanswered (r : Request) (e : SendError) : Reply := .error (.noResponse r.operation e.message)

/-- Carries out one call. -/
def execute (client : HttpClient) (r : Request) : Traffic Reply :=
  match client.message r with
  | .error e => .done (unanswered r e)
  | .ok m =>
    (send client.names m).bind fun
      | .error e => .done (unanswered r e)
      | .ok a => .note (.requestCompleted r.operation r.method r.path a.status) (.done (judge r a))

/-- Carries out a procedure over calls. -/
def carryOut (client : HttpClient) (t : Interaction Request Reply Log.Event α) : Traffic α :=
  t.expand client.execute

end HttpClient

end SecretStore.Net
