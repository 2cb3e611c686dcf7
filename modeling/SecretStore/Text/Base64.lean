import SecretStore.Text.Utf8

/-!
# Bytes as text in base 64

Three bytes are written as four characters; up to two equals signs fill the last four.
-/

namespace SecretStore.Base64

/-- The character of a value below 64. -/
def character (n : Nat) : Char :=
  if n < 26 then Char.ofNat (n + 0x41)
  else if n < 52 then Char.ofNat (n - 26 + 0x61)
  else if n < 62 then Char.ofNat (n - 52 + 0x30)
  else if n = 62 then '+'
  else '/'

/-- The text of some bytes. -/
def encode : Bytes → List Char
  | [] => []
  | [a] => [character (a.toNat / 4), character (a.toNat % 4 * 16), '=', '=']
  | [a, b] =>
    [character (a.toNat / 4), character (a.toNat % 4 * 16 + b.toNat / 16),
      character (b.toNat % 16 * 4), '=']
  | a :: b :: c :: rest =>
    [character (a.toNat / 4), character (a.toNat % 4 * 16 + b.toNat / 16),
      character (b.toNat % 16 * 4 + c.toNat / 64), character (c.toNat % 64)] ++ encode rest

end SecretStore.Base64
