import SecretStore.Number.Shortest

/-!
# The layout of a number's text

`Layout` records the decisions of a format: which numbers are written without an exponent, whether
a whole number keeps `.0`, and how an exponent and the numbers that are not finite are spelled.
`Layout.render` writes the shortest digits in a layout.
-/

namespace SecretStore

/-- How a number's digits are set out. -/
structure Layout where
  /-- Exponents of the first digit for which no exponent is written; `none` is all of them. -/
  positional : Option (Int × Int)
  /-- What follows a whole number written without an exponent. -/
  wholeSuffix : String
  /-- The mark in front of an exponent that is not negative. -/
  exponentMark : String
  /-- The mark in front of the magnitude of a negative exponent. -/
  negativeExponentMark : String

namespace Layout

/-- `n` times the digit zero. -/
def zeros (n : Nat) : String := String.ofList (List.replicate n '0')

/-- Digits `ds` with the first one at the place of `10 ^ lead`, without an exponent. -/
def fixed (l : Layout) (ds : List Char) (lead : Int) : String :=
  if lead < 0 then "0." ++ zeros (lead.natAbs - 1) ++ String.ofList ds
  else
    let whole := lead.natAbs + 1
    if ds.length ≤ whole then String.ofList ds ++ zeros (whole - ds.length) ++ l.wholeSuffix
    else String.ofList (ds.take whole) ++ "." ++ String.ofList (ds.drop whole)

/-- Digits `ds` with the first one at the place of `10 ^ lead`, with an exponent. -/
def scientific (l : Layout) (ds : List Char) (lead : Int) : String :=
  let fraction := ds.drop 1
  String.ofList (ds.take 1) ++ (if fraction.isEmpty then "" else "." ++ String.ofList fraction) ++
    (if lead < 0 then l.negativeExponentMark else l.exponentMark) ++ toString lead.natAbs

/-- The text of a number. -/
def render (l : Layout) : Binary64 → String
  | .nan => "NaN"
  | .infinite negative => if negative then "-inf" else "inf"
  | .finite negative m e =>
    let sign := if negative then "-" else ""
    if m = 0 then sign ++ "0" ++ l.wholeSuffix
    else
      let d := Shortest.digits m e
      let ds := Nat.toDigits 10 d.coefficient
      let lead := d.exponent + (ds.length : Int) - 1
      let isFixed := match l.positional with
        | none => true
        | some (least, most) => least ≤ lead ∧ lead ≤ most
      sign ++ (if isFixed then l.fixed ds lead else l.scientific ds lead)

/-- Every number is written without an exponent, and a whole one without a point. -/
def plain : Layout := ⟨none, "", "e", "e-"⟩

end Layout

end SecretStore
