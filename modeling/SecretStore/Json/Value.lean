import SecretStore.Number

/-!
# JSON values

A document is a `Json.Value`. The members of an object are kept in the order of the text, with
every repetition; `member?` looks a name up, the last one winning, and `normalize` sorts members by
name and drops those that a later one replaces.
-/

namespace SecretStore.Json

/-- A JSON document. -/
inductive Value where
  | null
  | bool (b : Bool)
  | number (n : Number)
  | string (s : String)
  | array (items : List Value)
  | object (members : List (String × Value))
  deriving Repr, Inhabited

namespace Value

/-- The last member of that name among `members`. -/
def lookup (members : List (String × α)) (name : String) : Option α :=
  (members.reverse.find? fun m => m.1 == name).map (·.2)

/-- The member of an object by name. -/
def member? (name : String) : Value → Option Value
  | object members => lookup members name
  | _ => none

/-- The items of an array. -/
def items? : Value → Option (List Value)
  | array items => some items
  | _ => none

/-- The text of a string. -/
def text? : Value → Option String
  | string s => some s
  | _ => none

/-- Puts a member into members sorted by name, in the place of one with the same name. -/
def insert (name : String) (v : α) : List (String × α) → List (String × α)
  | [] => [(name, v)]
  | (n, w) :: rest =>
    if name < n then (name, v) :: (n, w) :: rest
    else if name = n then (name, v) :: rest
    else (n, w) :: insert name v rest

/-- Members sorted by name, the last of each name. -/
def sorted (members : List (String × α)) : List (String × α) :=
  members.foldl (fun acc m => insert m.1 m.2 acc) []

mutual

/-- The document with all objects sorted by name and without repetitions. -/
def normalize : Value → Value
  | array items => array (normalizeItems items)
  | object members => object (sorted (normalizeMembers members))
  | v => v

/-- The items of an array, each normalized. -/
def normalizeItems : List Value → List Value
  | [] => []
  | v :: rest => normalize v :: normalizeItems rest

/-- The members of an object, each value normalized. -/
def normalizeMembers : List (String × Value) → List (String × Value)
  | [] => []
  | (name, v) :: rest => (name, normalize v) :: normalizeMembers rest

end

end Value

end SecretStore.Json
