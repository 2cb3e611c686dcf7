import SecretStore.Text.Utf8

/-!
# Blanks, keys and strings of TOML

Readers take something from the front of the remaining characters and answer it with what follows,
or nothing when it is not there. The configuration does not say what is wrong with a file, so one
kind of failure is enough.
-/

namespace SecretStore.Config.Toml

/-- Takes something from the front of the remaining characters. -/
abbrev Reader (α : Type) := List Char → Option (α × List Char)

/-- Whether a character is blank within a line. -/
def isBlank (c : Char) : Bool := c = ' ' || c = '\t'

/-- What follows the blanks of a line. -/
def skipBlanks (cs : List Char) : List Char := cs.dropWhile isBlank

/-- Whether a character may stand in a comment. -/
def inComment (c : Char) : Bool := c = '\t' || (c.toNat ≥ 0x20 && c.toNat ≠ 0x7F)

/-- What follows a line break. -/
def newline? : List Char → Option (List Char)
  | '\n' :: rest => some rest
  | '\r' :: '\n' :: rest => some rest
  | _ => none

/-- What follows a comment, if there is one. -/
def skipComment : List Char → List Char
  | '#' :: rest => rest.dropWhile inComment
  | cs => cs

/-- What follows blanks, comments and line breaks. -/
def skipLines (fuel : Nat) (cs : List Char) : List Char :=
  match fuel with
  | 0 => cs
  | fuel + 1 =>
    let cs := skipComment (skipBlanks cs)
    match newline? cs with
    | some rest => skipLines fuel rest
    | none => cs

/-- What follows the end of a line that says no more. -/
def endLine? (cs : List Char) : Option (List Char) :=
  match skipComment (skipBlanks cs) with
  | [] => some []
  | cs => newline? cs

/-! ### Strings -/

/-- The value of digits of base sixteen, if there are `n` of them in front. -/
def hexDigits (n : Nat) (cs : List Char) : Option (Nat × List Char) :=
  let digits := cs.take n
  if digits.length = n ∧ digits.all (fun c => c.isDigit || ('a' ≤ c && c ≤ 'f') ||
      ('A' ≤ c && c ≤ 'F')) then
    some (digits.foldl (fun acc c =>
      acc * 16 + (if c.isDigit then c.toNat - 48 else c.toLower.toNat - 87)) 0, cs.drop n)
  else none

/-- The character of a code that is a scalar value. -/
def scalar? (n : Nat) : Option Char := if n.isValidChar then some (Char.ofNat n) else none

/-- The character of an escape whose backslash has been taken. -/
def escape? : Reader Char
  | '"' :: rest => some ('"', rest)
  | '\\' :: rest => some ('\\', rest)
  | 'b' :: rest => some ('\x08', rest)
  | 't' :: rest => some ('\t', rest)
  | 'n' :: rest => some ('\n', rest)
  | 'f' :: rest => some ('\x0c', rest)
  | 'r' :: rest => some ('\r', rest)
  | 'u' :: rest => do
    let (n, rest) ← hexDigits 4 rest
    let c ← scalar? n
    pure (c, rest)
  | 'U' :: rest => do
    let (n, rest) ← hexDigits 8 rest
    let c ← scalar? n
    pure (c, rest)
  | _ => none

/-- Whether a character stands for itself in a string. -/
def inString (c : Char) : Bool := inComment c

/-- The rest of a string in double quotes. -/
def basic (fuel : Nat) (cs : List Char) : Option (List Char × List Char) :=
  match fuel with
  | 0 => none
  | fuel + 1 =>
    match cs with
    | '"' :: rest => some ([], rest)
    | '\\' :: rest => do
      let (c, rest) ← escape? rest
      let (s, rest) ← basic fuel rest
      pure (c :: s, rest)
    | c :: rest =>
      if inString c then (basic fuel rest).map fun (s, r) => (c :: s, r) else none
    | [] => none

/-- The rest of a string in single quotes. -/
def literal : Reader (List Char)
  | '\'' :: rest => some ([], rest)
  | c :: rest => if inString c then (literal rest).map fun (s, r) => (c :: s, r) else none
  | [] => none

/-- The end of a string of several lines whose quote is `q`: three quotes, with up to two more of
the text in front of them. -/
def closing? (q : Char) (cs : List Char) : Option (List Char × List Char) :=
  let n := (cs.takeWhile (· = q)).length
  if n < 3 ∨ n > 5 then none else some (List.replicate (n - 3) q, cs.drop n)

/-- What follows blanks and line breaks. -/
def skipSpace (fuel : Nat) (cs : List Char) : List Char :=
  match fuel with
  | 0 => cs
  | fuel + 1 =>
    let cs := skipBlanks cs
    match newline? cs with
    | some rest => skipSpace fuel rest
    | none => cs

/-- The rest of a string of several lines in double quotes. A backslash at the end of a line drops
the line break and the blanks behind it. -/
def basicLines (fuel : Nat) (cs : List Char) : Option (List Char × List Char) :=
  match fuel with
  | 0 => none
  | fuel + 1 =>
    match newline? cs with
    | some rest => (basicLines fuel rest).map fun (s, r) => ('\n' :: s, r)
    | none =>
      match cs with
      | '"' :: rest =>
        match closing? '"' cs with
        | some r => some r
        | none =>
          if (cs.takeWhile (· = '"')).length > 5 then none
          else (basicLines fuel rest).map fun (s, r) => ('"' :: s, r)
      | '\\' :: rest =>
        match newline? (skipBlanks rest) with
        | some after => basicLines fuel (skipSpace after.length after)
        | none => do
          let (c, rest) ← escape? rest
          let (s, rest) ← basicLines fuel rest
          pure (c :: s, rest)
      | c :: rest =>
        if inString c then (basicLines fuel rest).map fun (s, r) => (c :: s, r) else none
      | [] => none

/-- The rest of a string of several lines in single quotes. -/
def literalLines (fuel : Nat) (cs : List Char) : Option (List Char × List Char) :=
  match fuel with
  | 0 => none
  | fuel + 1 =>
    match newline? cs with
    | some rest => (literalLines fuel rest).map fun (s, r) => ('\n' :: s, r)
    | none =>
      match cs with
      | '\'' :: rest =>
        match closing? '\'' cs with
        | some r => some r
        | none =>
          if (cs.takeWhile (· = '\'')).length > 5 then none
          else (literalLines fuel rest).map fun (s, r) => ('\'' :: s, r)
      | c :: rest =>
        if inString c then (literalLines fuel rest).map fun (s, r) => (c :: s, r) else none
      | [] => none

/-- What follows the line break behind three opening quotes. -/
def dropFirstBreak (cs : List Char) : List Char := (newline? cs).getD cs

/-- A string on one line. -/
def shortString? : Reader String
  | '"' :: rest => (basic (rest.length + 1) rest).map fun (s, r) => (String.ofList s, r)
  | '\'' :: rest => (literal rest).map fun (s, r) => (String.ofList s, r)
  | _ => none

/-- A string of any kind. -/
def string? : Reader String
  | '"' :: '"' :: '"' :: rest =>
    let rest := dropFirstBreak rest
    (basicLines (rest.length + 1) rest).map fun (s, r) => (String.ofList s, r)
  | '\'' :: '\'' :: '\'' :: rest =>
    let rest := dropFirstBreak rest
    (literalLines (rest.length + 1) rest).map fun (s, r) => (String.ofList s, r)
  | cs => shortString? cs

/-! ### Keys -/

/-- Whether a character may stand in a key without quotes. -/
def inKey (c : Char) : Bool := c.isAlphanum || c = '_' || c = '-'

/-- One part of a key. -/
def simpleKey? (cs : List Char) : Option (String × List Char) :=
  match cs with
  | '"' :: _ | '\'' :: _ => shortString? cs
  | _ =>
    let bare := cs.takeWhile inKey
    if bare.isEmpty then none else some (String.ofList bare, cs.dropWhile inKey)

/-- The greatest depth of keys, arrays and inline tables. -/
def maxDepth : Nat := 80

/-- A key: parts with points between them, of which at most `fuel`. -/
def key? (fuel : Nat) (cs : List Char) : Option (List String × List Char) :=
  match fuel with
  | 0 => none
  | fuel + 1 => do
    let (k, rest) ← simpleKey? (skipBlanks cs)
    match skipBlanks rest with
    | '.' :: rest => (key? fuel rest).map fun (ks, r) => (k :: ks, r)
    | rest => pure ([k], rest)

end SecretStore.Config.Toml
