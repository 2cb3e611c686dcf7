import SecretStore.Number

/-!
# Numbers in plain text

How a text outside of documents is read as a number: natural numbers and integers with an optional
sign, and numbers with a point in which either side of the point may be empty.
-/

namespace SecretStore.Number

/-- The value of decimal digits, of which there is at least one. -/
def digits? (cs : List Char) : Option Nat :=
  if !cs.isEmpty ∧ cs.all Char.isDigit then
    some (cs.foldl (fun acc c => acc * 10 + (c.toNat - 48)) 0)
  else none

/-- A natural number of 64 bits, with or without a plus sign. -/
def natural? (cs : List Char) : Option Nat := do
  let n ← digits? (match cs with
    | '+' :: rest => rest
    | _ => cs)
  if n < 2 ^ 64 then some n else none

/-- An integer of 64 bits, with or without a sign. -/
def integer? (cs : List Char) : Option Int := do
  let i : Int ← match cs with
    | '-' :: rest => (digits? rest).map fun n => -(n : Int)
    | '+' :: rest => (digits? rest).map (↑·)
    | _ => (digits? cs).map (↑·)
  if -(2 ^ 63) ≤ i ∧ i < 2 ^ 63 then some i else none

/-- An exponent behind its mark. -/
def exponent? : List Char → Option Int
  | '-' :: rest => (digits? rest).map fun n => -(n : Int)
  | '+' :: rest => (digits? rest).map (↑·)
  | cs => (digits? cs).map (↑·)

/-- A number with a sign, a point and an exponent, each of which may be absent. -/
def float? (cs : List Char) : Option Binary64 := do
  let (negative, cs) := match cs with
    | '-' :: rest => (true, rest)
    | '+' :: rest => (false, rest)
    | _ => (false, cs)
  let isMark := fun c : Char => c = 'e' || c = 'E'
  let mantissa := cs.takeWhile (!isMark ·)
  let exponent : Int ← match cs.dropWhile (!isMark ·) with
    | [] => some 0
    | _ :: rest => exponent? rest
  let whole := mantissa.takeWhile (· ≠ '.')
  let fraction := (mantissa.dropWhile (· ≠ '.')).drop 1
  let n ← digits? (whole ++ fraction)
  pure (Binary64.ofDecimal negative n (exponent - fraction.length))

end SecretStore.Number
