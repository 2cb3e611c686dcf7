import SecretStore.Json.Record

/-!
# Init material

What a store hands out when it is initialized, once and never again: the root token and the key
shares, in two encodings. `InitMaterial.redacted` is the text for logs, which shows only how many
shares there are.
-/

namespace SecretStore

/-- The root token and key shares of a fresh store. -/
structure InitMaterial where
  rootToken : String
  keys : List String
  keysBase64 : List String
  deriving DecidableEq, Repr

namespace InitMaterial

/-- The parts of the material that have been read. -/
structure Parts where
  rootToken : Option String
  keys : Option (List String)
  keysBase64 : Option (List String)

/-- The material as a record: the token is required, the shares are not. -/
def shape : Json.Shape Parts InitMaterial where
  expected := "struct InitResponse"
  fields :=
    [{ name := "root_token", isSet := (·.rootToken.isSome), optional := false
       read := fun p bs =>
        (Json.readText bs).map fun (s, r) => ({ p with rootToken := some s }, r) },
     { name := "keys", isSet := (·.keys.isSome), optional := true
       read := fun p bs =>
        (Json.readList Json.readText bs).map fun (ks, r) => ({ p with keys := some ks }, r) },
     { name := "keys_base64", isSet := (·.keysBase64.isSome), optional := true
       read := fun p bs =>
        (Json.readList Json.readText bs).map fun (ks, r) => ({ p with keysBase64 := some ks }, r) }]
  empty := ⟨none, none, none⟩
  finish := fun p =>
    match p.rootToken with
    | some token => .ok ⟨token, p.keys.getD [], p.keysBase64.getD []⟩
    | none => .error (.missingField "root_token")

/-- The material as a document, its members in the order of the record. -/
def toJson (m : InitMaterial) : Json.Value :=
  .object [("root_token", .string m.rootToken), ("keys", .array (m.keys.map .string)),
    ("keys_base64", .array (m.keysBase64.map .string))]

/-- The material for log lines. -/
def redacted (m : InitMaterial) : String :=
  s!"InitResponse \x7b root_token: \"[REDACTED]\", keys: [{m.keys.length} REDACTED], " ++
    s!"keys_base64: [{m.keysBase64.length} REDACTED] \x7d"

end InitMaterial

end SecretStore
