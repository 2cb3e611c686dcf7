import SecretStore.Number
import SecretStore.Text.Quoted

/-!
# Values of the wrong shape

A `Mismatch` says why a value of a document or of the configuration cannot be taken for what is
expected there. Documents and configuration word the same causes differently: `Mismatch.inDocument`
and `Mismatch.inConfiguration` are the two wordings.
-/

namespace SecretStore

/-- What stands in the place of an expected value. -/
inductive Found where
  | null
  | boolean (b : Bool)
  | number (n : Number)
  | text (s : String)
  | sequence
  | map
  deriving DecidableEq, Repr

/-- Why a value cannot be taken for what is expected. -/
inductive Mismatch where
  | type (found : Found) (expected : String)
  | value (found : Found) (expected : String)
  | length (found : Nat) (expected : String)
  | missingField (name : String)
  | duplicateField (name : String)
  | unknownVariant (found : String) (known : List String)
  deriving DecidableEq, Repr

namespace Found

/-- How a document's error names what stands there. -/
def inDocument : Found → String
  | null => "null"
  | boolean b => s!"boolean `{b}`"
  | number (.unsigned n) => s!"integer `{n}`"
  | number (.signed i) => s!"integer `{i}`"
  | number (.float x) => "floating point `" ++ Number.json.render x ++ "`"
  | text s => "string " ++ Text.quote s
  | sequence => "sequence"
  | map => "map"

/-- How a configuration error names what stands there. -/
def inConfiguration : Found → String
  | null => "unit"
  | boolean b => s!"bool {b}"
  | number (.unsigned n) => s!"unsigned int `{n}`"
  | number (.signed i) => s!"signed int `{i}`"
  | number (.float x) => "float `" ++ Layout.plain.render x ++ "`"
  | text s => "string " ++ Text.quote s
  | sequence => "sequence"
  | map => "map"

end Found

namespace Mismatch

/-- The names of the known variants of an enumeration, as a sentence lists them. -/
def listing : List String → String
  | [] => "there are no variants"
  | [a] => "expected `" ++ a ++ "`"
  | [a, b] => "expected `" ++ a ++ "` or `" ++ b ++ "`"
  | names => "expected one of " ++ String.intercalate ", " (names.map fun n => "`" ++ n ++ "`")

/-- The wording of a document's error. -/
def inDocument : Mismatch → String
  | type found expected => "invalid type: " ++ found.inDocument ++ ", expected " ++ expected
  | value found expected => "invalid value: " ++ found.inDocument ++ ", expected " ++ expected
  | length n expected => s!"invalid length {n}, expected " ++ expected
  | missingField name => "missing field `" ++ name ++ "`"
  | duplicateField name => "duplicate field `" ++ name ++ "`"
  | unknownVariant found known => "unknown variant `" ++ found ++ "`, " ++ listing known

/-- The wording of a configuration error. -/
def inConfiguration : Mismatch → String
  | type found expected =>
    "invalid type: found " ++ found.inConfiguration ++ ", expected " ++ expected
  | value found expected =>
    "invalid value " ++ found.inConfiguration ++ ", expected " ++ expected
  | length n expected => s!"invalid length {n}, expected " ++ expected
  | missingField name => "missing field `" ++ name ++ "`"
  | duplicateField name => "duplicate field `" ++ name ++ "`"
  | unknownVariant found known =>
    "unknown variant: found `" ++ found ++ "`, " ++ listing known

end Mismatch

end SecretStore
