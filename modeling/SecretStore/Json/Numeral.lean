import SecretStore.Json.Fault

/-!
# Numbers of a JSON text

Digits are gathered into a coefficient of 64 bits; digits that no longer fit only move the decimal
point. A number without fraction and exponent whose value fits into 64 bits stays an integer, all
others become floating point.
-/

namespace SecretStore.Json

/-- The largest coefficient. -/
def maxCoefficient : Nat := 2 ^ 64 - 1

/-- A coefficient, how many digits went into it, and whether a digit did not fit. -/
structure Gathered where
  coefficient : Nat
  taken : Nat
  full : Bool

/-- Adds digits to a coefficient until one does not fit. -/
def gather (start : Nat) (digits : Bytes) : Gathered :=
  digits.foldl (fun g b =>
    let n := g.coefficient * 10 + (b.toNat - 0x30)
    if g.full then g
    else if n > maxCoefficient then { g with full := true }
    else { g with coefficient := n, taken := g.taken + 1 }) ⟨start, 0, false⟩

/-- The largest magnitude of a written exponent. -/
def maxExponent : Nat := 2 ^ 31 - 1

/-- The value of exponent digits, or what remains behind the digit that exceeds the limit. -/
def gatherExponent (start : Nat) : Bytes → Except Bytes (Nat × Bytes)
  | [] => .ok (start, [])
  | b :: rest =>
    if isDigit b then
      let n := start * 10 + (b.toNat - 0x30)
      if n > maxExponent then .error rest else gatherExponent n rest
    else .ok (start, b :: rest)

/-- The number `coefficient · 10 ^ exponent`, or the fault of one that is too large. -/
def scaled (negative : Bool) (coefficient : Nat) (exponent : Int) (rest : Bytes) :
    Except Fault (Number × Bytes) :=
  match Binary64.ofScaled negative coefficient exponent with
  | some x => .ok (.float x, rest)
  | none => .error ⟨.numberOutOfRange, rest⟩

/-- A number whose exponent mark has been taken. -/
def readExponent (negative : Bool) (coefficient : Nat) (shift : Int) (bs : Bytes) :
    Except Fault (Number × Bytes) :=
  let (down, bs) := match bs with
    | b :: rest => if b = byte '+' then (false, rest) else if b = byte '-' then (true, rest)
      else (false, bs)
    | [] => (false, [])
  match bs with
  | [] => .error ⟨.valueEnded, []⟩
  | b :: rest =>
    if isDigit b then
      match gatherExponent (b.toNat - 0x30) rest with
      | .ok (n, rest) =>
        scaled negative coefficient (if down then shift - n else shift + n) rest
      | .error rest =>
        if coefficient ≠ 0 ∧ !down then .error ⟨.numberOutOfRange, rest⟩
        else .ok (.float (Binary64.zero negative), rest.dropWhile isDigit)
    else .error ⟨.invalidNumber, rest⟩

/-- Whether a byte marks an exponent. -/
def isExponentMark (b : UInt8) : Bool := b = byte 'e' || b = byte 'E'

/-- A number whose decimal point has been taken. -/
def readFraction (negative : Bool) (coefficient : Nat) (shift : Int) (bs : Bytes) :
    Except Fault (Number × Bytes) :=
  let g := gather coefficient (bs.takeWhile isDigit)
  let rest := bs.dropWhile isDigit
  if g.taken = 0 ∧ !g.full then
    match bs with
    | [] => .error ⟨.valueEnded, []⟩
    | _ :: rest => .error ⟨.invalidNumber, rest⟩
  else
    let shift := shift - g.taken
    match rest with
    | b :: rest' =>
      if isExponentMark b then readExponent negative g.coefficient shift rest'
      else scaled negative g.coefficient shift rest
    | [] => scaled negative g.coefficient shift rest

/-- An integer as the number it is read as. -/
def integer (negative : Bool) (n : Nat) : Number :=
  if !negative then .unsigned n
  else if n = 0 ∨ n > 2 ^ 63 then .float ((Binary64.ofNat n).withSign true)
  else .signed (-n)

/-- A number whose integral digits have been gathered, `shift` of them without a place. -/
def readRest (negative : Bool) (coefficient shift : Nat) (full : Bool) (bs : Bytes) :
    Except Fault (Number × Bytes) :=
  let whole := if full then scaled negative coefficient shift bs
    else .ok (integer negative coefficient, bs)
  match bs with
  | b :: rest =>
    if b = byte '.' then readFraction negative coefficient shift rest
    else if isExponentMark b then readExponent negative coefficient shift rest
    else whole
  | [] => whole

/-- A number whose sign has been taken. -/
def readNumber (negative : Bool) : Reader Number
  | [] => .error ⟨.valueEnded, []⟩
  | b :: rest =>
    if b = byte '0' then
      match rest with
      | d :: rest' =>
        if isDigit d then .error ⟨.invalidNumber, rest'⟩ else readRest negative 0 0 false rest
      | [] => readRest negative 0 0 false rest
    else if isDigit b then
      let digits := (b :: rest).takeWhile isDigit
      let g := gather 0 digits
      readRest negative g.coefficient (digits.length - g.taken) g.full
        ((b :: rest).dropWhile isDigit)
    else .error ⟨.invalidNumber, rest⟩

/-- What follows the exponent of a number that is passed over, its mark taken. -/
def skipExponent (bs : Bytes) : Except Fault Bytes :=
  let bs := match bs with
    | b :: rest => if b = byte '+' || b = byte '-' then rest else bs
    | [] => []
  match bs with
  | b :: rest => if isDigit b then .ok (rest.dropWhile isDigit) else .error ⟨.invalidNumber, rest⟩
  | [] => .error ⟨.invalidNumber, []⟩

/-- What follows the fraction of a number that is passed over, its point taken. -/
def skipFraction (bs : Bytes) : Except Fault Bytes :=
  match bs with
  | b :: rest =>
    if isDigit b then
      match rest.dropWhile isDigit with
      | e :: rest => if isExponentMark e then skipExponent rest else .ok (e :: rest)
      | [] => .ok []
    else .error ⟨.invalidNumber, rest⟩
  | [] => .error ⟨.invalidNumber, []⟩

/-- What follows the integral digits of a number that is passed over. -/
def skipRest (bs : Bytes) : Except Fault Bytes :=
  match bs with
  | b :: rest =>
    if b = byte '.' then skipFraction rest
    else if isExponentMark b then skipExponent rest
    else .ok bs
  | [] => .ok []

/-- What follows a number that is passed over, its sign taken. Its size does not matter. -/
def skipNumber (bs : Bytes) : Except Fault Bytes :=
  match bs with
  | b :: rest =>
    if b = byte '0' then
      match rest with
      | d :: rest' => if isDigit d then .error ⟨.invalidNumber, rest'⟩ else skipRest rest
      | [] => .ok []
    else if isDigit b then skipRest (rest.dropWhile isDigit)
    else .error ⟨.invalidNumber, rest⟩
  | [] => .error ⟨.invalidNumber, []⟩

end SecretStore.Json
