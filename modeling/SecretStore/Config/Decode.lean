import SecretStore.Config.Setting

/-!
# Taking settings for what they should be

A decoder takes a setting only when it has the expected shape. Otherwise its `Misfit` says what is
wrong, under which names and where the value comes from. A record starts from its defaults and
replaces the fields that are present; names it does not know are ignored. A list stands for the
fields of a record in order.
-/

namespace SecretStore.Config

/-- A setting that cannot be taken. -/
structure Misfit where
  mismatch : Mismatch
  /-- The names on the way to the setting. -/
  path : List String
  source : Source
  deriving DecidableEq, Repr

/-- The misfit of a value below another name. -/
def Misfit.under (name : String) (m : Misfit) : Misfit := { m with path := name :: m.path }

/-- Takes a setting. -/
abbrev Decoder (α : Type) := Setting → Except Misfit α

namespace Decoder

/-- Refuses a setting of another type. -/
def refuse (expected : String) (v : Setting) : Except Misfit α :=
  .error ⟨.type v.found expected, [], v.source⟩

/-- A text. -/
def text : Decoder String
  | .text _ s => .ok s
  | v => refuse "a string" v

/-- The path of a file. -/
def path : Decoder String
  | .text _ s => .ok s
  | v => refuse "path string" v

/-- A natural number below a limit, whose type is named in errors. -/
def natural (limit : Nat) (type : String) : Decoder Nat
  | .number source (.unsigned n) =>
    if n < limit then .ok n else .error ⟨.value (.number (.unsigned n)) type, [], source⟩
  | .number source (.signed i) =>
    if 0 ≤ i ∧ i.toNat < limit then .ok i.toNat
    else .error ⟨.value (.number (.signed i)) type, [], source⟩
  | v => refuse type v

/-- A natural number of 16 bits. -/
def word16 : Decoder UInt16 := fun v => (natural (2 ^ 16) "u16" v).map UInt16.ofNat

/-- A natural number of 32 bits. -/
def word32 : Decoder UInt32 := fun v => (natural (2 ^ 32) "u32" v).map UInt32.ofNat

/-- A natural number of 64 bits. -/
def word64 : Decoder UInt64 := fun v => (natural (2 ^ 64) "u64" v).map UInt64.ofNat

/-- A value that may be null. -/
def optional (d : Decoder α) : Decoder (Option α)
  | .null _ => .ok none
  | v => (d v).map some

/-- The items from index `i` on. -/
def items (d : Decoder α) (i : Nat) : List Setting → Except Misfit (List α)
  | [] => .ok []
  | v :: rest =>
    match d v with
    | .error m => .error (m.under (toString i))
    | .ok a => (items d (i + 1) rest).map (a :: ·)

/-- A list. -/
def list (d : Decoder α) : Decoder (List α)
  | .list _ vs => items d 0 vs
  | v => refuse "a sequence" v

/-- The entries of a table. -/
def entries (d : Decoder α) : List (String × Setting) → Except Misfit (List (String × α))
  | [] => .ok []
  | (name, v) :: rest =>
    match d v with
    | .error m => .error (m.under name)
    | .ok a => (entries d rest).map ((name, a) :: ·)

/-- A table whose values all have the same shape. -/
def map (d : Decoder α) : Decoder (List (String × α))
  | .table _ es => entries d es
  | v => refuse "a map" v

/-! ### Records -/

/-- A field of a record: its name, and how a setting replaces it. -/
structure Field (α : Type) where
  name : String
  set : Setting → α → Except Misfit α

/-- The field that a decoder fills. -/
def Field.of (name : String) (d : Decoder β) (put : β → α → α) : Field α :=
  ⟨name, fun v a => (d v).map fun b => put b a⟩

/-- Replaces the fields that stand in a table. -/
def setEntries (fields : List (Field α)) (a : α) : List (String × Setting) → Except Misfit α
  | [] => .ok a
  | (name, v) :: rest =>
    match fields.find? (·.name == name) with
    | none => setEntries fields a rest
    | some field =>
      match field.set v a with
      | .error m => .error (m.under name)
      | .ok a => setEntries fields a rest

/-- Replaces fields by the items of a list, in order, from index `i` on. -/
def setItems (a : α) (i : Nat) : List (Field α) → List Setting → Except Misfit α
  | field :: fields, v :: rest =>
    match field.set v a with
    | .error m => .error (m.under (toString i))
    | .ok a => setItems a (i + 1) fields rest
  | _, _ => .ok a

/-- A record over its defaults. A list in a document may not be longer than the record. -/
def record (expected : String) (fields : List (Field α)) (defaults : α) : Decoder α
  | .table _ es => setEntries fields defaults es
  | .list source vs =>
    match setItems defaults 0 fields vs with
    | .error m => .error m
    | .ok a =>
      if source = .document ∧ vs.length > fields.length then
        .error ⟨.length vs.length "fewer elements in array", [], source⟩
      else .ok a
  | v => refuse expected v

end Decoder

end SecretStore.Config
