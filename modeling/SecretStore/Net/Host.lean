import SecretStore.Number.Power
import SecretStore.Percent

/-!
# Hosts

The host of a web address is a name, an address of four numbers or a bracketed address of eight.
`Host.parse?` brings each into its normal form: names in lower case, four numbers in dotted decimal
however they were written, eight numbers with the longest run of zeros left out. Names with other
than ASCII characters have a form in ASCII by tables that are not part of the program; what these
say is a parameter, `Host.Names`.
-/

namespace SecretStore.Net

namespace Host

/-- The forms in lower-case ASCII of the names that are not plain. A name has none when the tables
do not allow it. -/
abbrev Names := List Char → Option (List Char)

/-- Whether a character may not stand in the host of any address. -/
def isForbidden (c : Char) : Bool :=
  c ∈ ['\x00', '\t', '\n', '\r', ' ', '#', '/', ':', '<', '>', '?', '@', '[', '\\', ']', '^', '|']

/-- Whether a character may not stand in a name. -/
def isForbiddenInName (c : Char) : Bool :=
  isForbidden c || c.toNat < 0x20 || c.toNat ≥ 0x7F || c = '%'

/-- The value of digits in some base, none for a digit that is too large. -/
def numeral? (base : Nat) (cs : List Char) : Option Nat :=
  cs.foldl (fun acc c => do
    let n ← acc
    let d ← Number.hexValue? c
    if d < base then some (n * base + d) else none) (some 0)

/-- The value of one part of an address of four numbers: decimal, octal behind `0`, hexadecimal
behind `0x`. -/
def part? : List Char → Option Nat
  | [] => none
  | '0' :: 'x' :: rest => numeral? 16 rest
  | ['0'] => some 0
  | '0' :: rest => numeral? 8 rest
  | cs => numeral? 10 cs

/-- The parts of a name, without an empty last one. -/
def labels (cs : List Char) : List (List Char) :=
  let parts := cs.splitOn '.'
  if parts.length > 1 ∧ parts.getLast? = some [] then parts.dropLast else parts

/-- Whether the last part of a name is a number, so that all of it has to be an address. -/
def endsInNumber (cs : List Char) : Bool :=
  match (labels cs).getLast? with
  | none => false
  | some last =>
    (!last.isEmpty && last.all Char.isDigit) ||
      (match last with
        | '0' :: 'x' :: rest => (numeral? 16 rest).isSome
        | _ => false)

/-- The value of an address of up to four parts, the last one filling what is left. -/
def address? (parts : List Nat) : Option Nat :=
  match parts.reverse with
  | [] => none
  | last :: initial =>
    if parts.length > 4 ∨ initial.any (· > 255) ∨ last ≥ 256 ^ (5 - parts.length) then none
    else
      some ((initial.reverse.foldl (fun (acc : Nat × Nat) n =>
        (acc.1 + n * 256 ^ acc.2, acc.2 - 1)) (0, 3)).1 + last)

/-- An address of four numbers in dotted decimal. -/
def dotted (n : Nat) : List Char :=
  let part := fun k => Nat.toDigits 10 (n / 256 ^ k % 256)
  part 3 ++ '.' :: part 2 ++ '.' :: part 1 ++ '.' :: part 0

/-- The normal form of a name that is an address of four numbers. -/
def parseDotted? (cs : List Char) : Option (List Char) := do
  let parts ← (labels cs).mapM part?
  let n ← address? parts
  pure (dotted n)

/-! ### Addresses of eight numbers -/

/-- One of the eight numbers: one to four digits of base sixteen. -/
def group? (cs : List Char) : Option Nat :=
  if 1 ≤ cs.length ∧ cs.length ≤ 4 then numeral? 16 cs else none

/-- One of the four numbers at the end of an address of eight: decimal, without leading zeros. -/
def octet? (cs : List Char) : Option Nat :=
  if cs.isEmpty ∨ cs.length > 3 ∨ (cs.length > 1 ∧ cs.head? = some '0') then none
  else do
    let n ← numeral? 10 cs
    if n < 256 then some n else none

/-- The numbers between colons; the last part may be four numbers in dotted decimal. -/
def groups? : List (List Char) → Option (List Nat)
  | [] => some []
  | [last] =>
    if '.' ∈ last then do
      match ← (last.splitOn '.').mapM octet? with
      | [a, b, c, d] => some [a * 256 + b, c * 256 + d]
      | _ => none
    else do
      let n ← group? last
      pure [n]
  | part :: rest => do
    let n ← group? part
    let ns ← groups? rest
    pure (n :: ns)

/-- The numbers of a part of an address, none when it is empty. -/
def side? (cs : List Char) : Option (List Nat) :=
  if cs.isEmpty then some [] else groups? (cs.splitOn ':')

/-- Splits at the first double colon. -/
def splitDouble : List Char → Option (List Char × List Char)
  | ':' :: ':' :: rest => some ([], rest)
  | c :: rest => (splitDouble rest).map fun (a, b) => (c :: a, b)
  | [] => none

/-- The eight numbers of an address. -/
def eight? (cs : List Char) : Option (List Nat) :=
  match splitDouble cs with
  | none => do
    let ns ← side? cs
    if ns.length = 8 then some ns else none
  | some (left, right) => do
    if '.' ∈ left then none
    let a ← side? left
    let b ← side? right
    if a.length + b.length ≤ 7 then
      some (a ++ List.replicate (8 - a.length - b.length) 0 ++ b)
    else none

/-- The start and length of the first longest run of zeros. -/
def longestZeros (ns : List Nat) : Nat × Nat :=
  let runs := (List.range ns.length).map fun i => (i, ((ns.drop i).takeWhile (· = 0)).length)
  runs.foldl (fun best run => if run.2 > best.2 then run else best) (0, 0)

/-- Numbers in base sixteen with colons between them. -/
def colons (ns : List Nat) : List Char :=
  List.intercalate [':'] (ns.map (Nat.toDigits 16))

/-- The eight numbers with their longest run of zeros left out. -/
def bracketed (ns : List Nat) : List Char :=
  let (start, length) := longestZeros ns
  let body :=
    if length < 2 then colons ns
    else colons (ns.take start) ++ [':', ':'] ++ colons (ns.drop (start + length))
  '[' :: body ++ [']']

/-- Whether a name has ASCII characters only, and no part that stands for other ones. -/
def isPlain (name : List Char) : Bool :=
  name.all (·.toNat < 0x80) &&
    ((name.map Char.toLower).splitOn '.').all fun part => !"xn--".toList.isPrefixOf part

/-- The form of a name in lower-case ASCII. -/
def toAscii? (names : Names) (name : List Char) : Option (List Char) :=
  if isPlain name then some (name.map Char.toLower) else names name

/-- The normal form of the host of a web address. -/
def parse? (names : Names) (cs : List Char) : Option (List Char) :=
  match cs with
  | '[' :: rest =>
    if rest.getLast? = some ']' then (eight? rest.dropLast).map bracketed else none
  | _ => do
    let name ← Utf8.decode? (Percent.decodeText cs)
    let name ← toAscii? names name
    if name.isEmpty ∨ name.any isForbiddenInName then none
    else if endsInNumber name then parseDotted? name
    else some name

/-- The normal form of the host of another address. -/
def parseOpaque? (cs : List Char) : Option (List Char) :=
  match cs with
  | '[' :: rest =>
    if rest.getLast? = some ']' then (eight? rest.dropLast).map bracketed else none
  | _ =>
    if cs.any isForbidden then none
    else some (Percent.encode (fun b => 0x20 ≤ b && b < 0x7F) (Utf8.encode cs))

end Host

end SecretStore.Net
