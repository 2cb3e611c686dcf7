import SecretStore.Number.Binary64

/-!
# Shortest decimal digits

`Shortest.digits` gives the fewest decimal digits that read back as a given number, and of the
shortest candidates the one nearest to it. The reals that read back as `m · 2 ^ e` form an
interval around it, closed exactly when `m` is even. On the grid of decimals with `k` digits only
the two neighbours of the number can be the nearest point, so the search looks at those two for
`k = 1, 2, …, 17` and takes the first grid with a point in the interval.
-/

namespace SecretStore.Shortest

/-- Digits `d` and an exponent `k`, standing for `d · 10 ^ k`. -/
structure Digits where
  coefficient : Nat
  exponent : Int
  deriving DecidableEq, Repr

/-- The reals that read back as `m · 2 ^ e`, as numerators over one denominator: the lower end,
the number itself, the upper end. -/
structure Interval where
  low : Nat
  value : Nat
  high : Nat
  denominator : Nat
  closed : Bool

/-- The interval of `m · 2 ^ e`. Below a power of two the numbers lie twice as dense. -/
def interval (m : Nat) (e : Int) : Interval :=
  let narrow := m = 2 ^ 52 ∧ e > Binary64.minExponent
  let scale := fun n : Nat => if e ≥ 0 then n * 2 ^ e.natAbs else n
  { low := scale (if narrow then 4 * m - 1 else 4 * m - 2)
    value := scale (4 * m)
    high := scale (4 * m + 2)
    denominator := if e ≥ 0 then 4 else 4 * 2 ^ e.natAbs
    closed := m % 2 = 0 }

/-- Whether `c · 10 ^ k` lies in the interval. -/
def Interval.contains (i : Interval) (c : Nat) (k : Int) : Bool :=
  let point := if k ≥ 0 then c * 10 ^ k.natAbs * i.denominator else c * i.denominator
  let low := if k ≥ 0 then i.low else i.low * 10 ^ k.natAbs
  let high := if k ≥ 0 then i.high else i.high * 10 ^ k.natAbs
  if i.closed then low ≤ point ∧ point ≤ high else low < point ∧ point < high

/-- The least `j ≤ fuel` from `j` on with `num · 10 ^ j ≥ den`. -/
def leadingZeros (num den : Nat) : Nat → Nat → Nat
  | 0, j => j
  | fuel + 1, j => if num * 10 ^ j ≥ den then j else leadingZeros num den fuel (j + 1)

/-- The exponent of the first decimal digit of `num / den`. -/
def leadingExponent (num den : Nat) : Int :=
  if num ≥ den then (Binary64.digitCount (num / den) : Int) - 1
  else -(leadingZeros num den 400 0 : Int)

/-- The nearer neighbour of the number on the grid of multiples of `10 ^ k`, if one of the two lies
in the interval; a tie goes to the even one. -/
def onGrid (i : Interval) (k : Int) : Option Nat :=
  let num := if k ≥ 0 then i.value else i.value * 10 ^ k.natAbs
  let den := if k ≥ 0 then i.denominator * 10 ^ k.natAbs else i.denominator
  let c := num / den
  let r := num % den
  let up := 2 * r > den ∨ (2 * r = den ∧ c % 2 = 1)
  match i.contains c k && c != 0, i.contains (c + 1) k with
  | true, true => some (if up then c + 1 else c)
  | true, false => some c
  | false, true => some (c + 1)
  | false, false => none

/-- The first grid that has a point in the interval, trying `n` digits and more. -/
def search (i : Interval) (lead : Int) : Nat → Nat → Digits
  | 0, n => ⟨i.value / i.denominator, lead - n⟩
  | fuel + 1, n =>
    let k := lead - n + 1
    match onGrid i k with
    | some c => ⟨c, k⟩
    | none => search i lead fuel (n + 1)

/-- The same decimal without trailing zeros in the coefficient. -/
def trim (fuel : Nat) (d : Digits) : Digits :=
  match fuel with
  | 0 => d
  | fuel + 1 =>
    if d.coefficient ≠ 0 ∧ d.coefficient % 10 = 0 then
      trim fuel ⟨d.coefficient / 10, d.exponent + 1⟩
    else d

/-- The shortest digits of `m · 2 ^ e`, where `m` is not zero. -/
def digits (m : Nat) (e : Int) : Digits :=
  let i := interval m e
  trim 20 (search i (leadingExponent i.value i.denominator) 18 1)

end SecretStore.Shortest
