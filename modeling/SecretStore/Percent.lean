import SecretStore.Number.Hex
import SecretStore.Text.Utf8

/-!
# Percent encoding

`Percent.encode` writes every byte that a predicate does not keep as `%` and two digits of base
sixteen in upper case, and `Percent.decode` reads such escapes back. `Percent.segment` is the
encoding of one segment of a path: only letters, digits and `-._~` stay.
-/

namespace SecretStore.Percent

open Number (hexValue? upperHexDigit)

/-- One byte as an escape. -/
def escape (b : UInt8) : List Char :=
  ['%', upperHexDigit (b.toNat / 16), upperHexDigit (b.toNat % 16)]

/-- The bytes with those that are not kept escaped. -/
def encode (keep : UInt8 → Bool) (bs : Bytes) : List Char :=
  bs.flatMap fun b => if keep b then [Char.ofNat b.toNat] else escape b

/-- The bytes that a text of ASCII characters and escapes stands for. -/
def decode : List Char → Bytes
  | '%' :: a :: b :: rest =>
    match hexValue? a, hexValue? b with
    | some x, some y => (x * 16 + y).toUInt8 :: decode rest
    | _, _ => byteOf '%' :: decode (a :: b :: rest)
  | c :: rest => byteOf c :: decode rest
  | [] => []
where
  /-- The byte of an ASCII character. -/
  byteOf (c : Char) : UInt8 := c.toNat.toUInt8

/-- The bytes that any text stands for once its escapes are read. -/
def decodeText (cs : List Char) : Bytes := decode (encode (· < 0x80) (Utf8.encode cs))

/-- Whether a byte stays as it is in a segment of a path. -/
def unreserved (b : UInt8) : Bool :=
  (0x30 ≤ b && b ≤ 0x39) || (0x41 ≤ b && b ≤ 0x5A) || (0x61 ≤ b && b ≤ 0x7A) ||
    b = 0x2D || b = 0x2E || b = 0x5F || b = 0x7E

/-- A text as one segment of a path. -/
def segment (s : String) : String := String.ofList (encode unreserved (Bytes.ofString s))

end SecretStore.Percent
