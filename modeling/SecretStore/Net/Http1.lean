import SecretStore.Net.Wire
import SecretStore.Number.Text

/-!
# Messages and responses as bytes

`Message.bytes` is what is sent for a message, and `Response.read?` reads a response off all the
bytes that a server sends until it closes the connection. A body ends where its declared length or
its last chunk says, and is cut off if the bytes end sooner.
-/

namespace SecretStore.Net

namespace Http1

/-- The end of a line. -/
def lineEnd : Bytes := [13, 10]

/-- A header as a line. -/
def headerLine (h : String × Bytes) : Bytes :=
  Bytes.ofString h.1 ++ Bytes.ofString ": " ++ h.2 ++ lineEnd

/-- The first line and what follows it. -/
def line? : Bytes → Option (Bytes × Bytes)
  | [] => none
  | 10 :: rest => some ([], rest)
  | 13 :: 10 :: rest => some ([], rest)
  | b :: rest => (line? rest).map fun (line, rest) => (b :: line, rest)

/-- Whether a byte is blank around the value of a header. -/
def isBlank (b : UInt8) : Bool := b = 0x20 || b = 9

/-- Bytes without blanks around them. -/
def trim (bs : Bytes) : Bytes :=
  ((bs.dropWhile isBlank).reverse.dropWhile isBlank).reverse

/-- The header on a line. -/
def header? (line : Bytes) : Option (String × Bytes) :=
  match line.dropWhile (· ≠ 0x3A) with
  | [] => none
  | _ :: value => do
    let name ← Bytes.toString? (line.takeWhile (· ≠ 0x3A))
    pure (String.ofList (name.toList.map Char.toLower), trim value)

/-- The headers up to the empty line, and what follows it. At most `fuel` lines are read. -/
def headers? (fuel : Nat) (bs : Bytes) : Option (List (String × Bytes) × Bytes) :=
  match fuel with
  | 0 => none
  | fuel + 1 =>
    match line? bs with
    | none => none
    | some ([], rest) => some ([], rest)
    | some (line, rest) => do
      let h ← header? line
      let (hs, rest) ← headers? fuel rest
      pure (h :: hs, rest)

/-- The status on the first line of a response. -/
def status? (line : Bytes) : Option UInt16 :=
  match line.dropWhile (· ≠ 0x20) with
  | 0x20 :: a :: b :: c :: rest =>
    let digits := [a, b, c].map fun d => d.toNat - 0x30
    if (Bytes.ofString "HTTP/1.").isPrefixOf line ∧ [a, b, c].all (fun d => 0x30 ≤ d && d ≤ 0x39) ∧
        (rest.head?.getD 0x20) = 0x20 then
      some (UInt16.ofNat (digits.foldl (fun n d => n * 10 + d) 0))
    else none
  | _ => none

/-- The size on the line in front of a chunk. -/
def chunkSize? (line : Bytes) : Option Nat :=
  let digits := trim (line.takeWhile (· ≠ 0x3B))
  if digits.isEmpty then none
  else digits.foldl (fun acc b => do
    let n ← acc
    let d ← Number.hexValue? (Char.ofNat b.toNat)
    pure (n * 16 + d)) (some 0)

/-- The body of chunks, and whether its last chunk has come. There are at most `fuel` chunks. -/
def chunks (fuel : Nat) (bs : Bytes) : Bytes × Bool :=
  match fuel with
  | 0 => ([], false)
  | fuel + 1 =>
    match line? bs with
    | none => ([], false)
    | some (line, rest) =>
      match chunkSize? line with
      | none => ([], false)
      | some 0 => ([], true)
      | some n =>
        if rest.length < n then (rest, false)
        else
          match line? (rest.drop n) with
          | some ([], behind) =>
            let (body, whole) := chunks fuel behind
            (rest.take n ++ body, whole)
          | _ => (rest.take n, false)

/-- The value of a header. -/
def value? (headers : List (String × Bytes)) (name : String) : Option Bytes :=
  (headers.find? fun h => h.1 == name).map (·.2)

/-- The body of a response, and whether it is whole. -/
def body? (headers : List (String × Bytes)) (bs : Bytes) : Option (Bytes × Bool) :=
  match value? headers "transfer-encoding", value? headers "content-length" with
  | some _, _ => some (chunks (bs.length + 1) bs)
  | none, some length => do
    let s ← Bytes.toString? length
    let n ← Number.natural? s.toList
    pure (bs.take n, decide (n ≤ bs.length))
  | none, none => some (bs, true)

end Http1

/-- What is sent for a message. The server is asked to close the connection behind its response. -/
def Message.bytes (m : Message) : Bytes :=
  Bytes.ofString (m.method ++ " " ++ m.url.target ++ " HTTP/1.1") ++ Http1.lineEnd ++
    Http1.headerLine ("host", Bytes.ofString (String.ofList (m.url.authorityText.drop 2))) ++
    m.headers.flatMap Http1.headerLine ++
    Http1.headerLine ("connection", Bytes.ofString "close") ++ Http1.lineEnd ++ m.body

/-- Reads a response behind up to `interim` ones that only announce it. -/
def Response.readBehind (interim : Nat) (bs : Bytes) : Option Response := do
  let (line, rest) ← Http1.line? bs
  let status ← Http1.status? line
  let (headers, rest) ← Http1.headers? (rest.length + 1) rest
  if status < 200 then
    match interim with
    | 0 => none
    | interim + 1 => readBehind interim rest
  else
    let (body, whole) ← Http1.body? headers rest
    pure ⟨status, headers, body, whole⟩

/-- The response that the bytes of a connection hold, if it gets as far as its body. -/
def Response.read? (bs : Bytes) : Option Response := readBehind 8 bs

end SecretStore.Net
