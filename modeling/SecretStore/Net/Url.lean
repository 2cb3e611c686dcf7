import SecretStore.Net.Host

/-!
# Web addresses

`Url.parse?` reads an address the way browsers do: blanks around it and line breaks inside it are
dropped, a backslash counts as a slash, dot segments are resolved, and characters that may not stand
in their part are percent-encoded. `Url.join?` reads an address relative to another one. User
information is no part of what is read; `Url.userInfo?` takes it off the text. `Url.isUri` says
which addresses can be requested at all.
-/

namespace SecretStore.Net

/-- The path of an address. -/
inductive UrlPath where
  /-- Segments with a slash in front of each. -/
  | segments (ss : List (List Char))
  /-- A text without structure. -/
  | opaqueText (cs : List Char)
  deriving DecidableEq, Repr

/-- An address. -/
structure Url where
  scheme : List Char
  host : Option (List Char)
  port : Option Nat
  path : UrlPath
  query : Option (List Char)
  fragment : Option (List Char)
  deriving DecidableEq, Repr

namespace Url

/-! ### What stays unescaped -/

/-- Whether a byte stays in an opaque path. -/
def keepOpaque (b : UInt8) : Bool := 0x20 ≤ b && b < 0x7F

/-- Whether a byte stays in a path. -/
def keepPath (b : UInt8) : Bool :=
  0x20 < b && b < 0x7F && !([0x22, 0x23, 0x3C, 0x3E, 0x3F, 0x60, 0x7B, 0x7D].contains b)

/-- Whether a byte stays in a query. -/
def keepQuery (special : Bool) (b : UInt8) : Bool :=
  0x20 < b && b < 0x7F && !([0x22, 0x23, 0x3C, 0x3E].contains b) && !(special && b == 0x27)

/-- Whether a byte stays in a fragment. -/
def keepFragment (b : UInt8) : Bool :=
  0x20 < b && b < 0x7F && !([0x22, 0x3C, 0x3E, 0x60].contains b)

/-- A part of an address with the bytes that may not stand there escaped. -/
def escape (keep : UInt8 → Bool) (cs : List Char) : List Char :=
  Percent.encode keep (Utf8.encode cs)

/-! ### Schemes -/

/-- The schemes whose addresses always have a host and a path, with their usual ports. -/
def defaultPort? (scheme : List Char) : Option Nat :=
  if scheme = "http".toList ∨ scheme = "ws".toList then some 80
  else if scheme = "https".toList ∨ scheme = "wss".toList then some 443
  else if scheme = "ftp".toList then some 21
  else none

/-- Whether the scheme is one of those, or that of files. -/
def isSpecial (scheme : List Char) : Bool :=
  (defaultPort? scheme).isSome || scheme = "file".toList

/-- Whether a scheme can be requested. -/
def isWeb (scheme : List Char) : Bool := scheme = "http".toList || scheme = "https".toList

/-- The scheme of an address in lower case, and what follows its colon. -/
def scheme? (cs : List Char) : Option (List Char × List Char) :=
  match cs with
  | [] => none
  | c :: _ =>
    if !c.isAlpha then none
    else
      let isPart := fun c : Char => c.isAlphanum || c = '+' || c = '-' || c = '.'
      match cs.dropWhile isPart with
      | ':' :: rest => some ((cs.takeWhile isPart).map Char.toLower, rest)
      | _ => none

/-! ### Parts -/

/-- Whether a character counts as a slash. -/
def isSlash (special : Bool) (c : Char) : Bool := c = '/' || (special && c = '\\')

/-- Splits a fragment off. -/
def splitFragment (cs : List Char) : List Char × Option (List Char) :=
  match cs.dropWhile (· ≠ '#') with
  | [] => (cs, none)
  | _ :: fragment => (cs.takeWhile (· ≠ '#'), some (escape keepFragment fragment))

/-- Splits a query off. -/
def splitQuery (special : Bool) (cs : List Char) : List Char × Option (List Char) :=
  match cs.dropWhile (· ≠ '?') with
  | [] => (cs, none)
  | _ :: query => (cs.takeWhile (· ≠ '?'), some (escape (keepQuery special) query))

/-- Whether a segment is a dot, also when the dot is escaped. -/
def isDot (s : List Char) : Bool := s = ['.'] || s.map Char.toLower = ['%', '2', 'e']

/-- Whether a segment is two dots, also when they are escaped. -/
def isDoubleDot (s : List Char) : Bool :=
  let s := s.map Char.toLower
  s = ['.', '.'] || s = ['.', '%', '2', 'e'] || s = ['%', '2', 'e', '.'] ||
    s = ['%', '2', 'e', '%', '2', 'e']

/-- Resolves dot segments: `done` holds the segments so far, the last one first. -/
def resolve (done : List (List Char)) : List (List Char) → List (List Char)
  | [] => done.reverse
  | [s] =>
    (if isDoubleDot s then [] :: done.tail
      else if isDot s then [] :: done
      else s :: done).reverse
  | s :: rest =>
    if isDoubleDot s then resolve done.tail rest
    else if isDot s then resolve done rest
    else resolve (s :: done) rest

/-- The segments between slashes. -/
def splitSegments (special : Bool) (cs : List Char) : List (List Char) :=
  (cs.map fun c => if isSlash special c then '/' else c).splitOn '/'

/-- The segments of a path behind those in `done`, the last of which stands first. -/
def segmentsFrom (special : Bool) (done : List (List Char)) (cs : List Char) :
    List (List Char) :=
  resolve done ((splitSegments special cs).map (escape keepPath))

/-- The segments of a path that follows a host. -/
def absoluteSegments (special : Bool) (cs : List Char) : List (List Char) :=
  match cs with
  | [] => if special then [[]] else []
  | c :: rest => segmentsFrom special [] (if isSlash special c then rest else c :: rest)

/-- The port behind a host, without the usual one of the scheme. -/
def port? (scheme cs : List Char) : Option (Option Nat) :=
  if cs.isEmpty then some none
  else do
    let n ← if cs.all Char.isDigit then Host.numeral? 10 cs else none
    if n > 65535 then none
    else some (if defaultPort? scheme = some n then none else some n)

/-- Splits host and port at the first colon outside brackets. -/
def splitPort (inBrackets : Bool) : List Char → List Char × Option (List Char)
  | [] => ([], none)
  | c :: rest =>
    if c = ':' ∧ !inBrackets then ([], some rest)
    else
      let (host, port) := splitPort (if c = '[' then true else if c = ']' then false
        else inBrackets) rest
      (c :: host, port)

/-- The text without blanks around it and without line breaks and tabs inside it. -/
def clean (cs : List Char) : List Char :=
  let isBlank := fun c : Char => c.toNat ≤ 0x20
  let cs := ((cs.dropWhile isBlank).reverse.dropWhile isBlank).reverse
  cs.filter fun c => c ≠ '\t' ∧ c ≠ '\n' ∧ c ≠ '\r'

/-- Splits user information off, which ends at the last at sign. -/
def splitUser (cs : List Char) : Option (List Char) × List Char :=
  let behind := (cs.reverse.takeWhile (· ≠ '@')).reverse
  (if '@' ∈ cs then some (cs.take (cs.length - behind.length - 1)) else none, behind)

section

variable (names : Host.Names)

/-- Host and port. -/
def authority? (scheme cs : List Char) : Option (List Char × Option Nat) := do
  let (host, port) := splitPort false (splitUser cs).2
  let special := isSpecial scheme
  if host.isEmpty then
    if special ∨ port.isSome then none else some ([], none)
  else do
    let host ← if special then Host.parse? names host else Host.parseOpaque? host
    let port ← port? scheme (port.getD [])
    pure (host, port)

/-- An address from the part behind its slashes. -/
def afterSlashes? (scheme cs : List Char) (query fragment : Option (List Char)) : Option Url := do
  let special := isSpecial scheme
  let authority := cs.takeWhile (!isSlash special ·)
  let path := cs.dropWhile (!isSlash special ·)
  let (host, port) ← authority? names scheme authority
  pure ⟨scheme, some host, port, .segments (absoluteSegments special path), query, fragment⟩

/-- An address of a file, which may leave the host out. -/
def file? (cs : List Char) (query fragment : Option (List Char)) : Option Url :=
  let scheme := "file".toList
  match cs with
  | a :: b :: rest =>
    if isSlash true a ∧ isSlash true b then do
      let host := rest.takeWhile (!isSlash true ·)
      let path := rest.dropWhile (!isSlash true ·)
      let host ← if host.isEmpty then some none else (Host.parse? names host).map some
      let host := if host = some "localhost".toList then none else host
      pure ⟨scheme, host, none, .segments (absoluteSegments true path), query, fragment⟩
    else some ⟨scheme, none, none, .segments (absoluteSegments true cs), query, fragment⟩
  | _ => some ⟨scheme, none, none, .segments (absoluteSegments true cs), query, fragment⟩

/-- An address from its scheme and the rest of its text. -/
def ofScheme? (scheme rest : List Char) : Option Url :=
  let special := isSpecial scheme
  let (rest, fragment) := splitFragment rest
  let (rest, query) := splitQuery special rest
  if scheme = "file".toList then file? names rest query fragment
  else if special then
    afterSlashes? names scheme (rest.dropWhile (isSlash true)) query fragment
  else
    match rest with
    | '/' :: '/' :: rest => afterSlashes? names scheme rest query fragment
    | '/' :: rest =>
      some ⟨scheme, none, none, .segments (segmentsFrom false [] rest), query, fragment⟩
    | rest => some ⟨scheme, none, none, .opaqueText (escape keepOpaque rest), query, fragment⟩

/-- The address that a text spells. -/
def parse? (s : String) : Option Url := do
  let (scheme, rest) ← scheme? (clean s.toList)
  ofScheme? names scheme rest

/-- The segments of a path in front of which another one is put: all but the last. -/
def UrlPath.parents : UrlPath → List (List Char)
  | .segments ss => ss.dropLast
  | .opaqueText _ => []

/-- An address without a scheme, relative to a base. -/
def relative? (base : Url) (cs : List Char) : Option Url :=
  let special := isSpecial base.scheme
  let (cs, fragment) := splitFragment cs
  let (path, query) := splitQuery special cs
  match path with
  | [] =>
    some { base with query := if query.isSome then query else base.query, fragment := fragment }
  | c :: rest =>
    if isSlash special c then
      if (rest.head?.map (isSlash special)).getD false then
        afterSlashes? names base.scheme (rest.dropWhile (isSlash special)) query fragment
      else
        some { base with
          path := .segments (absoluteSegments special path), query := query
          fragment := fragment }
    else
      some { base with
        path := .segments (segmentsFrom special (UrlPath.parents base.path).reverse path)
        query := query, fragment := fragment }

/-- The address that a text spells relative to a base. -/
def join? (base : Url) (s : String) : Option Url :=
  let cs := clean s.toList
  match scheme? cs with
  | none => relative? names base cs
  | some (scheme, rest) =>
    let slashes := (rest.takeWhile (isSlash true)).length
    if isSpecial scheme ∧ scheme = base.scheme ∧ slashes < 2 then relative? names base rest
    else ofScheme? names scheme rest

end

/-- The user information of the text of a web address. -/
def userInfo? (s : String) : Option (List Char) := do
  let (_, rest) ← scheme? (clean s.toList)
  let rest := (splitQuery true (splitFragment rest).1).1
  (splitUser ((rest.dropWhile (isSlash true)).takeWhile (!isSlash true ·))).1

/-! ### Writing -/

/-- The text of a path. -/
def pathText : UrlPath → List Char
  | .segments ss => ss.flatMap ('/' :: ·)
  | .opaqueText cs => cs

/-- What a request asks a server for: path and query. -/
def target (u : Url) : String :=
  String.ofList (pathText u.path ++
    match u.query with
    | some q => '?' :: q
    | none => [])

/-- Host and port. -/
def authorityText (u : Url) : List Char :=
  match u.host with
  | none => if u.scheme = "file".toList then ['/', '/'] else []
  | some host =>
    ['/', '/'] ++ host ++
      match u.port with
      | some n => ':' :: Nat.toDigits 10 n
      | none => []

/-- The text of an address. -/
def text (u : Url) : String :=
  String.ofList (u.scheme ++ ':' :: u.authorityText) ++ u.target ++
    match u.fragment with
    | some f => String.ofList ('#' :: f)
    | none => ""

/-! ### Addresses that can be requested -/

/-- Whether a character may stand in the part of an address that names its server. -/
def inAuthority (c : Char) : Bool :=
  c.isAlphanum || c ∈ ['!', '$', '&', '\'', '(', ')', '*', '+', ',', ';', '=', '-', '.', '_', '~',
    ':', '@', '[', ']']

/-- Whether a text may stand in the place where an address names its server. -/
def isAuthority (cs : List Char) : Bool :=
  let port := (cs.reverse.takeWhile fun c => c ≠ '@' && c ≠ ']').reverse
  !cs.isEmpty && cs.all inAuthority && port.count ':' ≤ 1 && cs.getLast? != some '@'

/-- The longest text of an address that can be requested. -/
def maxLength : Nat := 65534

/-- Whether the part of an address that names its server is one that can be asked. Without a host
nothing but that part can be there. -/
def namesServer (u : Url) : Bool :=
  match u.host with
  | some host => !host.isEmpty && isAuthority (u.authorityText.drop 2)
  | none => isAuthority u.text.toList

/-- Whether an address can be handed to a connection. -/
def isUri (u : Url) : Bool := decide (u.text.utf8ByteSize ≤ maxLength) && u.namesServer

/-- The port that is asked, if the scheme has a usual one or the address has its own. -/
def serverPort? (u : Url) : Option Nat := u.port.orElse fun _ => defaultPort? u.scheme

/-- Whether two addresses are those of one server. -/
def isSameServer (u v : Url) : Bool := u.host == v.host && u.serverPort? == v.serverPort?

/-- The text by which a message to one address names the address that referred to it. A plain
connection is not told of an encrypted one. -/
def referrer? (u next : Url) : Option String :=
  if u.scheme = "https".toList ∧ next.scheme = "http".toList then none
  else some { u with fragment := none }.text

end Url

end SecretStore.Net
