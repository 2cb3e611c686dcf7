import SecretStore.Log.Event

/-!
# Log lines with their time

A `Moment` counts microseconds from the first of January 1970 on. `Moment.text` writes it as a date
and a time of day, and `Record.written` puts it in front of a log line.
-/

namespace SecretStore.Log

/-- A point in time. -/
structure Moment where
  microseconds : Nat
  deriving DecidableEq, Repr

namespace Moment

/-- A number with zeros in front of it. -/
def padded (width n : Nat) : String :=
  let digits := Nat.toDigits 10 n
  String.ofList (List.replicate (width - digits.length) '0' ++ digits)

/-- Year, month and day, counting days from the first of March of the year zero: a year of that
calendar ends with its leap day, and its months have 31 and 30 days by turns, five to 153 days. -/
def civil (days : Nat) : Nat × Nat × Nat :=
  let cycle := days / 146097
  let inCycle := days % 146097
  let year := (inCycle - inCycle / 1460 + inCycle / 36524 - inCycle / 146096) / 365
  let inYear := inCycle - (365 * year + year / 4 - year / 100)
  let month := (5 * inYear + 2) / 153
  let day := inYear - (153 * month + 2) / 5 + 1
  let year := year + 400 * cycle
  if month < 10 then (year, month + 3, day) else (year + 1, month - 9, day)

/-- How many days lie between the first of March of the year zero and the first of January 1970. -/
def epoch : Nat := 719468

/-- The moment in universal time. -/
def text (m : Moment) : String :=
  let seconds := m.microseconds / 1000000
  let (year, month, day) := civil (seconds / 86400 + epoch)
  padded 4 year ++ "-" ++ padded 2 month ++ "-" ++ padded 2 day ++ "T" ++
    padded 2 (seconds / 3600 % 24) ++ ":" ++ padded 2 (seconds / 60 % 60) ++ ":" ++
    padded 2 (seconds % 60) ++ "." ++ padded 6 (m.microseconds % 1000000) ++ "Z"

example : (Moment.mk 0).text = "1970-01-01T00:00:00.000000Z" := by decide +kernel

example : (Moment.mk 1709210096007000).text = "2024-02-29T12:34:56.007000Z" := by decide +kernel

end Moment

/-- The log line of a record at some moment. -/
def Record.written (forMachines : Bool) (now : Moment) (r : Record) : String :=
  if forMachines then
    match r.toJson with
    | .object members => (Json.Value.object (("timestamp", .string now.text) :: members)).compact
    | v => v.compact
  else
    now.text ++ String.ofList (List.replicate (6 - r.level.name.length) ' ') ++ r.line

end SecretStore.Log
