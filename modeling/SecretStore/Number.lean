import SecretStore.Number.Layout

/-!
# Numbers of documents

A number that stands in a document is a natural number, an integer with a sign, or a number with a
fraction or an exponent.
-/

namespace SecretStore

/-- A number of a document. -/
inductive Number where
  | unsigned (n : Nat)
  | signed (i : Int)
  | float (x : Binary64)
  deriving DecidableEq, Repr, Inhabited

namespace Number

/-- JSON writes a number without an exponent from `10 ^ (-5)` to below `10 ^ 16` and keeps the
point of a whole number. -/
def json : Layout := ⟨some (-5, 15), ".0", "e+", "e-"⟩

/-- The text of a number in JSON. -/
def render : Number → String
  | .unsigned n => String.ofList (Nat.toDigits 10 n)
  | .signed i =>
    if i < 0 then String.ofList ('-' :: Nat.toDigits 10 i.natAbs)
    else String.ofList (Nat.toDigits 10 i.natAbs)
  | .float x => json.render x

end Number

end SecretStore
