/-!
# Digits of base sixteen

A digit is a character, written in one letter case and read in either.
-/

namespace SecretStore.Number

/-- A digit of base sixteen, in lower case. -/
def hexDigit (n : Nat) : Char := Nat.digitChar n

/-- A digit of base sixteen, in upper case. -/
def upperHexDigit (n : Nat) : Char := (hexDigit n).toUpper

/-- The value of a digit of base sixteen, of either case. -/
def hexValue? (c : Char) : Option Nat :=
  let n := c.toNat
  if 0x30 ≤ n ∧ n ≤ 0x39 then some (n - 0x30)
  else if 0x41 ≤ n ∧ n ≤ 0x46 then some (n - 0x41 + 10)
  else if 0x61 ≤ n ∧ n ≤ 0x66 then some (n - 0x61 + 10)
  else none

/-- Digits are read back, whatever their case. -/
theorem hexValue?_hexDigit :
    ∀ n < 16, hexValue? (hexDigit n) = some n ∧ hexValue? (upperHexDigit n) = some n := by
  decide

end SecretStore.Number
