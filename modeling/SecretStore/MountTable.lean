import SecretStore.Engine
import SecretStore.Json.Record
import SecretStore.Text.Slashes

/-!
# Mounts

A store lists its engines under their mount points. It reports them with a slash at the end, while
a plan may spell them with any slashes around. `MountTable.mount?` finds an entry under the given
spelling first and under the normal one otherwise.
-/

namespace SecretStore

/-- A mounted engine. -/
structure Mount where
  engineType : String
  description : String
  deriving DecidableEq, Repr

namespace Mount

/-- The parts of an entry that have been read. -/
structure Parts where
  engineType : Option String
  description : Option String

/-- An entry as a record: only its type is required. -/
def shape : Json.Shape Parts Mount where
  expected := "struct MountInfo"
  fields :=
    [{ name := "type", isSet := (·.engineType.isSome), optional := false
       read := fun p bs =>
        (Json.readText bs).map fun (s, r) => ({ p with engineType := some s }, r) },
     { name := "description", isSet := (·.description.isSome), optional := true
       read := fun p bs =>
        (Json.readText bs).map fun (s, r) => ({ p with description := some s }, r) }]
  empty := ⟨none, none⟩
  finish := fun p =>
    match p.engineType with
    | some t => .ok ⟨t, p.description.getD ""⟩
    | none => .error (.missingField "type")

/-- A mount point without the slashes around it. -/
def point (s : String) : String :=
  String.ofList (Slashes.trimEnd (Slashes.trimStart s.toList))

end Mount

/-- The mounted engines, sorted by mount point. -/
structure MountTable where
  mounts : List (String × Mount)
  deriving DecidableEq, Repr

namespace MountTable

/-- The parts of a listing that have been read. -/
structure Parts where
  mounts : Option (List (String × Mount))

/-- A listing as a record; without data it is empty, and of two entries for one mount point the
last one holds. -/
def shape : Json.Shape Parts MountTable where
  expected := "struct ListSecretEnginesResponse"
  fields :=
    [{ name := "data", isSet := (·.mounts.isSome), optional := true
       read := fun _ bs =>
        (Json.readMap Mount.shape.reader bs).map fun (ms, r) => (⟨some ms⟩, r) }]
  empty := ⟨none⟩
  finish := fun p => .ok ⟨Json.Value.sorted (p.mounts.getD [])⟩

/-- The entry under exactly that name. -/
def entry? (t : MountTable) (name : String) : Option Mount :=
  (t.mounts.find? fun m => m.1 == name).map (·.2)

/-- The entry of a mount point. -/
def mount? (t : MountTable) (mountPoint : String) : Option Mount :=
  match t.entry? mountPoint with
  | some m => some m
  | none => t.entry? (Mount.point mountPoint ++ "/")

/-- Whether an engine of that type is mounted there. -/
def hasEngine (t : MountTable) (mountPoint engineType : String) : Bool :=
  match t.mount? mountPoint with
  | some m => m.engineType == engineType
  | none => false

end MountTable

end SecretStore
