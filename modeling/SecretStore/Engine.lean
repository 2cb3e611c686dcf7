import SecretStore.Json.Value
import SecretStore.Mismatch

/-!
# Secret engines

The kinds of engine that a plan can mount. In a document an engine is its name, or an object with
that name as its only member and the value null.
-/

namespace SecretStore

/-- A kind of secret engine. -/
inductive Engine where
  | keyValue
  | consul
  deriving DecidableEq, Repr

namespace Engine

/-- The type under which a store lists the engine. -/
def name : Engine → String
  | keyValue => "kv"
  | consul => "consul"

/-- The names of all engines. -/
def names : List String := [keyValue.name, consul.name]

/-- The engine of that name. -/
def ofName? (s : String) : Option Engine :=
  if s = keyValue.name then some keyValue else if s = consul.name then some consul else none

/-- An engine is found by its name. -/
theorem ofName?_name (e : Engine) : ofName? e.name = some e := by cases e <;> decide

/-- The engine of that name, or the reason why there is none. -/
def ofName (s : String) : Except Mismatch Engine :=
  match ofName? s with
  | some e => .ok e
  | none => .error (.unknownVariant s names)

end Engine

/-- What stands in the place of another value. -/
def Json.Value.found : Json.Value → Found
  | .null => .null
  | .bool b => .boolean b
  | .number n => .number n
  | .string s => .text s
  | .array _ => .sequence
  | .object _ => .map

/-- The engine that a document names. -/
def Engine.ofJson : Json.Value → Except Mismatch Engine
  | .string s => ofName s
  | .object [(name, v)] =>
    match ofName name, v with
    | .error m, _ => .error m
    | .ok e, .null => .ok e
    | .ok _, v => .error (.type v.found "unit")
  | .object _ => .error (.value .map "map with a single key")
  | v => .error (.type v.found "string or map")

end SecretStore
