import SecretStore.ClientError
import SecretStore.Json.Record

/-!
# Seal status

After each key share a store reports whether it is still sealed and how far it has come. An
`UnsealProgress` follows a sequence of such reports.
-/

namespace SecretStore

/-- What a store reports after a key share. -/
structure SealStatus where
  isSealed : Bool
  /-- How many shares are needed. -/
  threshold : UInt32
  /-- How many shares there are. -/
  shares : UInt32
  /-- How many shares have been taken. -/
  progress : UInt32
  deriving DecidableEq, Repr

namespace SealStatus

/-- The parts of a report that have been read. -/
structure Parts where
  isSealed : Option Bool
  threshold : Option UInt32
  shares : Option UInt32
  progress : Option UInt32

/-- The report as a record: only `sealed` is required. -/
def shape : Json.Shape Parts SealStatus where
  expected := "struct UnsealResponse"
  fields :=
    [{ name := "sealed", isSet := (·.isSealed.isSome), optional := false
       read := fun p bs =>
        (Json.readBool bs).map fun (b, r) => ({ p with isSealed := some b }, r) },
     { name := "t", isSet := (·.threshold.isSome), optional := true
       read := fun p bs =>
        (Json.readUInt32 bs).map fun (n, r) => ({ p with threshold := some n }, r) },
     { name := "n", isSet := (·.shares.isSome), optional := true
       read := fun p bs =>
        (Json.readUInt32 bs).map fun (n, r) => ({ p with shares := some n }, r) },
     { name := "progress", isSet := (·.progress.isSome), optional := true
       read := fun p bs =>
        (Json.readUInt32 bs).map fun (n, r) => ({ p with progress := some n }, r) }]
  empty := ⟨none, none, none, none⟩
  finish := fun p =>
    match p.isSealed with
    | some b => .ok ⟨b, p.threshold.getD 0, p.shares.getD 0, p.progress.getD 0⟩
    | none => .error (.missingField "sealed")

end SealStatus

/-- Where a sequence of key shares stands. -/
inductive UnsealProgress where
  | sealed (applied : Nat) (progress threshold : UInt32)
  | unsealed (applied : Nat) (report : SealStatus)
  deriving DecidableEq, Repr

namespace UnsealProgress

/-- No share has been applied. -/
def start : UnsealProgress := sealed 0 0 0

/-- How many shares have been applied. -/
def applied : UnsealProgress → Nat
  | sealed n _ _ => n
  | unsealed n _ => n

/-- The store has accepted one more share. -/
def advance (p : UnsealProgress) (report : SealStatus) : UnsealProgress :=
  if report.isSealed then sealed (p.applied + 1) report.progress report.threshold
  else unsealed (p.applied + 1) report

/-- The error of a sequence that runs out of shares. -/
def exhausted : UnsealProgress → ClientError
  | sealed n progress threshold => .thresholdNotReached n progress threshold
  | unsealed n report => .thresholdNotReached n report.progress report.threshold

end UnsealProgress

end SecretStore
