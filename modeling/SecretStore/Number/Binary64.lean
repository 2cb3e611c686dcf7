import SecretStore.Number.Power

/-!
# Binary floating point with 64 bits

A finite number is `± mantissa · 2 ^ exponent` with a mantissa below `2 ^ 53` and an exponent of
at least `-1074`. All arithmetic is exact arithmetic on natural numbers followed by one rounding:

* `Binary64.ofRatio` rounds a quotient to the nearest number, a tie to the even mantissa;
* `Binary64.ofDecimal` reads `digits · 10 ^ exponent` with a single rounding;
* `Binary64.ofScaled` reads the same text in steps: the digits are rounded, and then multiplied or
  divided by powers of ten that are themselves rounded.

The two readings differ in the last place for some texts, which is why both exist.
-/

namespace SecretStore

/-- A number of 64 bits: finite, infinite, or none at all. -/
inductive Binary64 where
  | finite (negative : Bool) (mantissa : Nat) (exponent : Int)
  | infinite (negative : Bool)
  | nan
  deriving DecidableEq, Repr, Inhabited

namespace Binary64

/-- The exponent of the smallest positive number. -/
def minExponent : Int := -1074

/-- The largest exponent of a finite number. -/
def maxExponent : Int := 971

/-- Zero, with a sign. -/
def zero (negative : Bool) : Binary64 := .finite negative 0 minExponent

/-- Whether the number is zero, of either sign. -/
def isZero : Binary64 → Bool
  | .finite _ m _ => m = 0
  | _ => false

/-- Whether the number is infinite. -/
def isInfinite : Binary64 → Bool
  | .infinite _ => true
  | _ => false

/-- The number with the given sign. -/
def withSign (negative : Bool) : Binary64 → Binary64
  | .finite _ m e => .finite negative m e
  | .infinite _ => .infinite negative
  | .nan => .nan

/-- `num / den · 2 ^ (-e)` as a pair of natural numbers. -/
def shiftRatio (num den : Nat) (e : Int) : Nat × Nat :=
  if e ≤ 0 then (num * 2 ^ e.natAbs, den) else (num, den * 2 ^ e.natAbs)

/-- The natural number nearest to `num / den`, a tie going to the even one. -/
def roundHalfEven (num den : Nat) : Nat :=
  let q := num / den
  let r := num % den
  if 2 * r > den ∨ (2 * r = den ∧ q % 2 = 1) then q + 1 else q

/-- The number nearest to `num / den`. -/
def ofRatio (negative : Bool) (num den : Nat) : Binary64 :=
  if num = 0 ∨ den = 0 then zero negative
  else
    let guess : Int := max ((num.log2 : Int) - (den.log2 : Int) - 53) minExponent
    let (n, d) := shiftRatio num den guess
    let e := if n / d < 2 ^ 53 then guess else guess + 1
    let (n, d) := shiftRatio num den e
    let m := roundHalfEven n d
    let (m, e) := if m = 2 ^ 53 then (2 ^ 52, e + 1) else (m, e)
    if e > maxExponent then .infinite negative else .finite negative m e

/-- The number nearest to a natural number. -/
def ofNat (n : Nat) : Binary64 := ofRatio false n 1

/-- The magnitude of a finite number as a quotient. -/
def magnitude (mantissa : Nat) (exponent : Int) : Nat × Nat :=
  if exponent ≥ 0 then (mantissa * 2 ^ exponent.natAbs, 1) else (mantissa, 2 ^ exponent.natAbs)

/-- The rounded product of two magnitudes. -/
def mul : Binary64 → Binary64 → Binary64
  | .finite s m e, .finite s' m' e' =>
    let (n, d) := magnitude m e
    let (n', d') := magnitude m' e'
    ofRatio (s != s') (n * n') (d * d')
  | .nan, _ => .nan
  | _, .nan => .nan
  | .infinite s, .finite s' m' _ => if m' = 0 then .nan else .infinite (s != s')
  | .finite s m _, .infinite s' => if m = 0 then .nan else .infinite (s != s')
  | .infinite s, .infinite s' => .infinite (s != s')

/-- The rounded quotient of two magnitudes, the divisor being finite and not zero. -/
def div : Binary64 → Binary64 → Binary64
  | .finite s m e, .finite s' m' e' =>
    let (n, d) := magnitude m e
    let (n', d') := magnitude m' e'
    if m' = 0 then (if m = 0 then .nan else .infinite (s != s'))
    else ofRatio (s != s') (n * d') (d * n')
  | .nan, _ => .nan
  | _, .nan => .nan
  | .infinite s, .finite s' _ _ => .infinite (s != s')
  | .finite s _ _, .infinite s' => zero (s != s')
  | .infinite _, .infinite _ => .nan

/-- The number of decimal digits of a natural number. -/
def digitCount (n : Nat) : Nat := (Nat.toDigits 10 n).length

/-- The number nearest to `digits · 10 ^ exponent`. An exponent far outside the range is answered
before any power is built. -/
def ofDecimal (negative : Bool) (digits : Nat) (exponent : Int) : Binary64 :=
  if digits = 0 then zero negative
  else if exponent + digitCount digits < -330 then zero negative
  else if exponent + digitCount digits > 320 then .infinite negative
  else if exponent ≥ 0 then ofRatio negative (digits * 10 ^ exponent.natAbs) 1
  else ofRatio negative digits (10 ^ exponent.natAbs)

/-- The rounded power of ten with an exponent of at most 308. -/
def powerOfTen (k : Nat) : Binary64 := ofRatio false (10 ^ k) 1

/-- Divides by `10 ^ k` in steps of `10 ^ 308`, stopping at zero. -/
def scaleDown (x : Binary64) (k : Nat) : Binary64 :=
  if k ≤ 308 then x.div (powerOfTen k)
  else if x.isZero then x
  else scaleDown (x.div (powerOfTen 308)) (k - 308)
termination_by k

/-- The number read from `digits · 10 ^ exponent` in steps, or `none` when it exceeds the
range. -/
def ofScaled (negative : Bool) (digits : Nat) (exponent : Int) : Option Binary64 :=
  let x := ofNat digits
  if exponent < 0 then some ((scaleDown x exponent.natAbs).withSign negative)
  else if exponent ≤ 308 then
    let y := x.mul (powerOfTen exponent.natAbs)
    if y.isInfinite then none else some (y.withSign negative)
  else if x.isZero then some (x.withSign negative)
  else none

end Binary64

end SecretStore
