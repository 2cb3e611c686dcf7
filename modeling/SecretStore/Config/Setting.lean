import SecretStore.Json.Value
import SecretStore.Mismatch

/-!
# Settings

A `Setting` is a value of the configuration before its shape is known, with the source it came
from. `Setting.merge` lays one value over another: tables are joined entry by entry, everything else
is replaced as a whole.
-/

namespace SecretStore.Config

/-- Where a setting comes from. -/
inductive Source where
  /-- A document that stands for itself. -/
  | document
  /-- A configuration file, as its path is shown. -/
  | file (path : String)
  /-- The variables of the environment. -/
  | environment
  deriving DecidableEq, Repr

/-- A value of the configuration. The entries of a table are sorted by name. -/
inductive Setting where
  | null (source : Source)
  | flag (source : Source) (b : Bool)
  | number (source : Source) (n : Number)
  | text (source : Source) (s : String)
  | list (source : Source) (items : List Setting)
  | table (source : Source) (entries : List (String × Setting))
  deriving Repr

namespace Setting

/-- Where the value comes from. -/
def source : Setting → Source
  | null s | flag s _ | number s _ | text s _ | list s _ | table s _ => s

/-- What stands in the place of another value. -/
def found : Setting → Found
  | null _ => .null
  | flag _ b => .boolean b
  | number _ n => .number n
  | text _ s => .text s
  | list .. => .sequence
  | table .. => .map

/-- The entry of that name. -/
def lookup (name : String) (entries : List (String × α)) : Option α :=
  (entries.find? fun e => e.1 == name).map (·.2)

mutual

/-- The second value laid over the first. -/
def merge : Setting → Setting → Setting
  | table _ lower, table s upper => table s (mergeEntries lower upper)
  | _, upper => upper

/-- The entries of a table laid over others. -/
def mergeEntries (lower : List (String × Setting)) :
    List (String × Setting) → List (String × Setting)
  | [] => lower
  | (name, v) :: rest =>
    let merged := match lookup name lower with
      | some w => merge w v
      | none => v
    mergeEntries (Json.Value.insert name merged lower) rest

end

mutual

/-- A document as a setting. -/
def ofJson : Json.Value → Setting
  | .null => null .document
  | .bool b => flag .document b
  | .number n => number .document n
  | .string s => text .document s
  | .array items => list .document (ofItems items)
  | .object members => table .document (Json.Value.sorted (ofMembers members))

/-- The items of an array as settings. -/
def ofItems : List Json.Value → List Setting
  | [] => []
  | v :: rest => ofJson v :: ofItems rest

/-- The members of an object as settings. -/
def ofMembers : List (String × Json.Value) → List (String × Setting)
  | [] => []
  | (name, v) :: rest => (name, ofJson v) :: ofMembers rest

end

end Setting

end SecretStore.Config
