import SecretStore.Interaction
import SecretStore.Log.Event
import SecretStore.Net.Url

/-!
# What goes over the wire

A `Message` is asked of a server and answered by a `Response`, or by none when the connection fails.
`send` asks one message and follows redirects, ten at most. `Response.redirect?` says what is asked
next: on 303 a `GET`, or a `HEAD` if it was one, without a body, on 301 and 302 the same if it was a
`POST`, and anything else again as it is. A message that follows another one names its address, and
leaves out what is meant for the server of the first one only.
-/

namespace SecretStore.Net

/-- A request as a server receives it. -/
structure Message where
  method : String
  url : Url
  /-- Names in lower case. -/
  headers : List (String × Bytes)
  body : Bytes
  deriving DecidableEq, Repr

/-- What a server answers. -/
structure Response where
  status : UInt16
  headers : List (String × Bytes)
  body : Bytes
  /-- Whether the body arrived to its end. -/
  whole : Bool
  deriving DecidableEq, Repr

/-- A procedure that exchanges messages. -/
abbrev Traffic := Interaction Message (Option Response) Log.Event

/-- Why a message got no response. -/
inductive SendError where
  /-- The message cannot be formed. -/
  | malformed
  /-- The address cannot be requested. -/
  | unusable (url : Url)
  /-- The connection was refused or closed without an answer. -/
  | unanswered (url : Url)
  /-- The server redirected too often. -/
  | endless (url : Url)
  deriving DecidableEq, Repr

/-- The text of an error. -/
def SendError.message : SendError → String
  | malformed => "builder error"
  | unusable url => "builder error for url (" ++ url.text ++ ")"
  | unanswered url => "error sending request for url (" ++ url.text ++ ")"
  | endless url => "error following redirect for url (" ++ url.text ++ ")"

/-! ### Redirects -/

/-- The headers that describe a body. -/
def bodyHeaders : List String :=
  ["content-type", "content-length", "content-encoding", "transfer-encoding"]

/-- The headers that are meant for one server only. -/
def privateHeaders : List String :=
  ["authorization", "cookie", "cookie2", "proxy-authorization", "www-authenticate"]

/-- The message without some headers. -/
def Message.without (names : List String) (m : Message) : Message :=
  { m with headers := m.headers.filter fun h => !names.contains h.1 }

/-- The message with another method and no body. -/
def Message.bare (method : String) (m : Message) : Message :=
  { m.without bodyHeaders with method := method, body := [] }

/-- The message that a redirect of some status asks for, before it gets its address. -/
def Message.redirected (status : UInt16) (m : Message) : Message :=
  if status = 303 then m.bare (if m.method = "HEAD" then "HEAD" else "GET")
  else if (status = 301 ∨ status = 302) ∧ m.method = "POST" then m.bare "GET"
  else m

/-- The message at another address, to which it was referred. -/
def Message.referredTo (url : Url) (m : Message) : Message :=
  let shared := if m.url.isSameServer url then m else m.without privateHeaders
  { shared with
    url := url
    headers := (shared.without ["referer"]).headers ++
      (m.url.referrer? url).toList.map fun text => ("referer", Bytes.ofString text) }

/-- The address that a response refers to, relative to the one that was asked. -/
def Response.location? (names : Host.Names) (a : Response) (url : Url) : Option Url := do
  let (_, value) ← a.headers.find? fun h => h.1 == "location"
  let text ← value.toString?
  let next ← url.join? names text
  if next.isUri then some next else none

/-- What is to be asked next. A response without a usable address is final. -/
def Response.redirect? (names : Host.Names) (a : Response) (m : Message) : Option Message :=
  if a.status = 301 ∨ a.status = 302 ∨ a.status = 303 ∨ a.status = 307 ∨ a.status = 308 then
    (a.location? names m.url).map fun url => (m.redirected a.status).referredTo url
  else none

/-- How many redirects are followed. -/
def maxRedirects : Nat := 10

/-- Asks a message and follows up to `left` redirects. -/
def sendWithin (names : Host.Names) (left : Nat) (m : Message) :
    Traffic (Except SendError Response) :=
  .ask m fun
    | none => .done (.error (.unanswered m.url))
    | some a =>
      match a.redirect? names m with
      | none => .done (.ok a)
      | some next =>
        match left with
        | 0 => .done (.error (.endless m.url))
        | left + 1 =>
          if Url.isWeb next.url.scheme then sendWithin names left next
          else .done (.error (.unusable next.url))

/-- Asks a message and answers the final response. -/
def send (names : Host.Names) (m : Message) : Traffic (Except SendError Response) :=
  sendWithin names maxRedirects m

/-- The body of a final response, unless it is cut off. Some responses never have one. -/
def Response.content? (method : String) (a : Response) : Option Bytes :=
  if method = "HEAD" ∨ a.status = 204 ∨ a.status = 304 then some []
  else if a.whole then some a.body
  else none

end SecretStore.Net
