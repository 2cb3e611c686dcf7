import SecretStore.Config.Toml.Text
import SecretStore.Number

/-!
# Numbers and times of TOML

Integers have 64 bits. A date, a time or both is a table with one entry whose text is the normal
form of the moment.
-/

namespace SecretStore.Config.Toml

/-- Whether underscores stand only between other characters, one at a time. -/
def wellSpaced : List Char → Bool
  | [] => false
  | ['_'] => false
  | [_] => true
  | '_' :: _ :: _ => false
  | _ :: '_' :: '_' :: _ => false
  | _ :: '_' :: c :: rest => wellSpaced (c :: rest)
  | _ :: c :: rest => wellSpaced (c :: rest)

/-- Digits of a kind with single underscores between them; at least one digit. -/
def digits? (isDigit : Char → Bool) (cs : List Char) : Option (List Char × List Char) :=
  let run := cs.takeWhile fun c => isDigit c || c = '_'
  if wellSpaced run then
    some (run.filter (· ≠ '_'), cs.dropWhile fun c => isDigit c || c = '_')
  else none

/-- The value of digits in some base. -/
def valueOf (base : Nat) (ds : List Char) : Nat :=
  ds.foldl (fun acc c =>
    acc * base + (if c.isDigit then c.toNat - 48 else c.toLower.toNat - 87)) 0

/-- An integer, if it has 64 bits. -/
def fit? (i : Int) : Option Number :=
  if -(2 ^ 63) ≤ i ∧ i < 2 ^ 63 then some (.signed i) else none

/-- A sign, if there is one. -/
def sign : List Char → Bool × List Char
  | '+' :: rest => (false, rest)
  | '-' :: rest => (true, rest)
  | cs => (false, cs)

/-- The digits of a decimal integer, without a leading zero. -/
def decimal? (cs : List Char) : Option (List Char × List Char) :=
  match cs with
  | '0' :: rest => some (['0'], rest)
  | _ => digits? Char.isDigit cs

/-- Whether a character is a digit of base sixteen. -/
def isHexDigit (c : Char) : Bool :=
  c.isDigit || ('a' ≤ c && c ≤ 'f') || ('A' ≤ c && c ≤ 'F')

/-- An integer. -/
def integer? : Reader Number
  | '0' :: 'x' :: rest => do
    let (ds, r) ← digits? isHexDigit rest
    let n ← fit? (valueOf 16 ds)
    pure (n, r)
  | '0' :: 'o' :: rest => do
    let (ds, r) ← digits? (fun c => '0' ≤ c && c ≤ '7') rest
    let n ← fit? (valueOf 8 ds)
    pure (n, r)
  | '0' :: 'b' :: rest => do
    let (ds, r) ← digits? (fun c => c = '0' || c = '1') rest
    let n ← fit? (valueOf 2 ds)
    pure (n, r)
  | cs => do
    let (negative, cs) := sign cs
    let (ds, r) ← decimal? cs
    let n : Int := valueOf 10 ds
    let n ← fit? (if negative then -n else n)
    pure (n, r)

/-- An exponent with its mark, if there is one. -/
def exponent? (cs : List Char) : Option (Option Int × List Char) :=
  match cs with
  | c :: rest =>
    if c = 'e' ∨ c = 'E' then do
      let (negative, rest) := sign rest
      let (ds, r) ← digits? Char.isDigit rest
      let n : Int := valueOf 10 ds
      pure (some (if negative then -n else n), r)
    else some (none, cs)
  | [] => some (none, [])

/-- A number with a fraction or an exponent. One that is too large and positive is refused. -/
def float? (cs : List Char) : Option (Number × List Char) := do
  let (negative, cs) := sign cs
  match cs with
  | 'i' :: 'n' :: 'f' :: rest => pure (.float (.infinite negative), rest)
  | 'n' :: 'a' :: 'n' :: rest => pure (.float .nan, rest)
  | _ =>
    let (whole, rest) ← decimal? cs
    let (fraction, rest') ← match rest with
      | '.' :: after => (digits? Char.isDigit after)
      | _ => some ([], rest)
    let (exponent, r) ← exponent? rest'
    if fraction.isEmpty ∧ exponent.isNone then none
    else
      let x := Binary64.ofDecimal negative (valueOf 10 (whole ++ fraction))
        (exponent.getD 0 - fraction.length)
      if x = .infinite false then none else pure (.float x, r)

/-! ### Times -/

/-- The value of exactly `n` decimal digits. -/
def fixed? (n : Nat) (cs : List Char) : Option (Nat × List Char) :=
  let ds := cs.take n
  if ds.length = n ∧ ds.all Char.isDigit then some (valueOf 10 ds, cs.drop n) else none

/-- The number of days of a month. -/
def daysOf (year month : Nat) : Nat :=
  if month = 2 then
    if year % 4 = 0 ∧ (year % 100 ≠ 0 ∨ year % 400 = 0) then 29 else 28
  else if month ∈ [4, 6, 9, 11] then 30
  else 31

/-- A number with two digits. -/
def two (n : Nat) : String := (if n < 10 then "0" else "") ++ toString n

/-- A number with four digits. -/
def four (n : Nat) : String := two (n / 100) ++ two (n % 100)

/-- What follows an expected character. -/
def eat? (c : Char) : List Char → Option (List Char)
  | d :: rest => if d = c then some rest else none
  | [] => none

/-- A date in its normal form. -/
def date? (cs : List Char) : Option (String × List Char) := do
  let (year, cs) ← fixed? 4 cs
  let cs ← eat? '-' cs
  let (month, cs) ← fixed? 2 cs
  let cs ← eat? '-' cs
  let (day, cs) ← fixed? 2 cs
  if 1 ≤ month ∧ month ≤ 12 ∧ 1 ≤ day ∧ day ≤ daysOf year month then
    pure (four year ++ "-" ++ two month ++ "-" ++ two day, cs)
  else none

/-- The digits of a fraction of a second without trailing zeros, nine at most. -/
def fraction (ds : List Char) : String :=
  String.ofList ((ds.take 9).reverse.dropWhile (· = '0')).reverse

/-- A time of day in its normal form. -/
def time? (cs : List Char) : Option (String × List Char) := do
  let (hour, cs) ← fixed? 2 cs
  let cs ← eat? ':' cs
  let (minute, cs) ← fixed? 2 cs
  let cs ← eat? ':' cs
  let (second, cs) ← fixed? 2 cs
  if hour > 23 ∨ minute > 59 ∨ second > 60 then none
  else
    let text := two hour ++ ":" ++ two minute ++ ":" ++ two second
    match cs with
    | '.' :: after =>
      let ds := after.takeWhile Char.isDigit
      if ds.isEmpty then none
      else pure (text ++ "." ++ fraction ds, after.dropWhile Char.isDigit)
    | _ => pure (text, cs)

/-- An offset from universal time in its normal form, or nothing. -/
def offset (cs : List Char) : Option (String × List Char) :=
  match cs with
  | 'Z' :: rest | 'z' :: rest => some ("Z", rest)
  | c :: rest =>
    if c = '+' ∨ c = '-' then do
      let (hour, rest) ← fixed? 2 rest
      let rest ← eat? ':' rest
      let (minute, rest) ← fixed? 2 rest
      if hour > 23 ∨ minute > 59 then none
      else pure (c.toString ++ two hour ++ ":" ++ two minute, rest)
    else some ("", cs)
  | [] => some ("", [])

/-- A date, a time or both in normal form. -/
def moment? (cs : List Char) : Option (String × List Char) :=
  match date? cs with
  | some (date, rest) =>
    let behind := match rest with
      | c :: after => if c = 'T' ∨ c = 't' ∨ c = ' ' then time? after else none
      | [] => none
    match behind with
    | some (time, rest) => (offset rest).map fun (o, r) => (date ++ "T" ++ time ++ o, r)
    | none => some (date, rest)
  | none => time? cs

end SecretStore.Config.Toml
