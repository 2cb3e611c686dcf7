import SecretStore.Json.Document

/-!
# Reading documents of a known shape

The readers here take a value only when it has the expected shape; otherwise the `Mismatch` names
what stands there. A record is written as an object, whose unknown members are passed over, or as
an array of its fields in order. `Field` describes one field of a record that is being filled.

A fault that concerns a record as a whole, such as a missing field, is placed behind the end of the
record, if its end comes next, and else behind the blanks that come next.
-/

namespace SecretStore.Json

/-- The fault of a value of another shape. A scalar is taken first, a bracket is not. -/
def mismatch (expected : String) (bs : Bytes) : Fault :=
  let found : Found → Bytes → Fault := fun f rest => ⟨.mismatch (.type f expected), rest⟩
  match bs with
  | [] => ⟨.expectedValue, []⟩
  | b :: rest =>
    let literal (cs : List Char) (f : Found) : Fault :=
      match readLiteral cs rest with
      | .error e => e
      | .ok after => found f after
    let number (negative : Bool) (bs : Bytes) : Fault :=
      match readNumber negative bs with
      | .error e => e
      | .ok (n, after) => found (.number n) after
    if b = byte 'n' then literal ['u', 'l', 'l'] .null
    else if b = byte 't' then literal ['r', 'u', 'e'] (.boolean true)
    else if b = byte 'f' then literal ['a', 'l', 's', 'e'] (.boolean false)
    else if b = byte '-' then number true rest
    else if isDigit b then number false bs
    else if b = byte '"' then
      match readString rest with
      | .error e => e
      | .ok (s, after) => found (.text s) after
    else if b = byte '[' then found .sequence bs
    else if b = byte '\x7b' then found .map bs
    else ⟨.expectedValue, rest⟩

/-- Reads the first byte that is not blank, if the text has not ended. -/
def onByte (bs : Bytes) (read : UInt8 → Bytes → Except Fault α) : Except Fault α :=
  match skipBlanks bs with
  | [] => .error ⟨.valueEnded, []⟩
  | b :: rest => read b rest

/-- A string. -/
def readText : Reader String := fun bs =>
  onByte bs fun b rest =>
    if b = byte '"' then readString rest else .error (mismatch "a string" (b :: rest))

/-- A truth value. -/
def readBool : Reader Bool := fun bs =>
  onByte bs fun b rest =>
    if b = byte 't' then (readLiteral ['r', 'u', 'e'] rest).map (true, ·)
    else if b = byte 'f' then (readLiteral ['a', 'l', 's', 'e'] rest).map (false, ·)
    else .error (mismatch "a boolean" (b :: rest))

/-- A natural number of 32 bits. -/
def readUInt32 : Reader UInt32 := fun bs =>
  onByte bs fun b rest =>
    let number (negative : Bool) (bs : Bytes) : Except Fault (UInt32 × Bytes) :=
      match readNumber negative bs with
      | .error f => .error f
      | .ok (.unsigned n, after) =>
        if n < 2 ^ 32 then .ok (UInt32.ofNat n, after)
        else .error ⟨.mismatch (.value (.number (.unsigned n)) "u32"), after⟩
      | .ok (.signed i, after) =>
        .error ⟨.mismatch (.value (.number (.signed i)) "u32"), after⟩
      | .ok (.float x, after) =>
        .error ⟨.mismatch (.type (.number (.float x)) "u32"), after⟩
    if b = byte '-' then number true rest
    else if isDigit b then number false (b :: rest)
    else .error (mismatch "u32" (b :: rest))

/-- The items of an array up to its bracket, which is taken too. -/
def readItems (r : Reader α) (fuel : Nat) (isFirst : Bool) (bs : Bytes) :
    Except Fault (List α × Bytes) :=
  match fuel with
  | 0 => .error ⟨.valueEnded, []⟩
  | fuel + 1 =>
    match nextItem isFirst bs with
    | .error f => .error f
    | .ok (.finished rest) => .ok ([], rest)
    | .ok (.more rest) =>
      match r rest with
      | .error f => .error f
      | .ok (a, rest) => (readItems r fuel false rest).map fun (as, after) => (a :: as, after)

/-- An array. -/
def readList (r : Reader α) : Reader (List α) := fun bs =>
  onByte bs fun b rest =>
    if b = byte '[' then readItems r (rest.length + 1) true rest
    else .error (mismatch "a sequence" (b :: rest))

/-- The members of an object up to its brace, which is taken too. -/
def readEntries (r : Reader α) (fuel : Nat) (isFirst : Bool) (bs : Bytes) :
    Except Fault (List (String × α) × Bytes) :=
  match fuel with
  | 0 => .error ⟨.valueEnded, []⟩
  | fuel + 1 =>
    match nextMember isFirst bs with
    | .error f => .error f
    | .ok (.finished rest) => .ok ([], rest)
    | .ok (.more rest) =>
      match readString rest with
      | .error f => .error f
      | .ok (name, rest) =>
        match readColon rest with
        | .error f => .error f
        | .ok rest =>
          match r rest with
          | .error f => .error f
          | .ok (a, rest) =>
            (readEntries r fuel false rest).map fun (as, after) => ((name, a) :: as, after)

/-- An object whose members all have the same shape. -/
def readMap (r : Reader α) : Reader (List (String × α)) := fun bs =>
  onByte bs fun b rest =>
    if b = byte '\x7b' then readEntries r (rest.length + 1) true rest
    else .error (mismatch "a map" (b :: rest))

/-! ### Records -/

/-- One field of a record of which `σ` is the part read so far. -/
structure Field (σ : Type) where
  /-- The name of the member. -/
  name : String
  /-- Whether the field has been read. -/
  isSet : σ → Bool
  /-- Whether an array may end in front of the field. -/
  optional : Bool
  /-- Reads the field. -/
  read : σ → Reader σ

/-- A kind of record with result `α`, read into parts of type `σ`. -/
structure Shape (σ α : Type) where
  /-- What an error says is expected. -/
  expected : String
  /-- The fields in order. -/
  fields : List (Field σ)
  /-- Nothing read. -/
  empty : σ
  /-- The record when all members have been read. -/
  finish : σ → Except Mismatch α

/-- A mismatch of a whole object, placed behind its end if that comes next. -/
def atObjectEnd (m : Mismatch) (bs : Bytes) : Fault :=
  match skipBlanks bs with
  | [] => ⟨.mismatch m, []⟩
  | b :: rest => ⟨.mismatch m, if b = byte '\x7d' then rest else b :: rest⟩

/-- The members of a record up to its brace, which is taken too. -/
def readFields (fields : List (Field σ)) (fuel : Nat) (isFirst : Bool) (s : σ) (bs : Bytes) :
    Except Fault (σ × Bytes) :=
  match fuel with
  | 0 => .error ⟨.valueEnded, []⟩
  | fuel + 1 =>
    match nextMember isFirst bs with
    | .error f => .error f
    | .ok (.finished rest) => .ok (s, rest)
    | .ok (.more rest) =>
      match readString rest with
      | .error f => .error f
      | .ok (name, rest) =>
        match fields.find? (·.name == name) with
        | none =>
          match readColon rest with
          | .error f => .error f
          | .ok rest =>
            match skipValue rest with
            | .error f => .error f
            | .ok rest => readFields fields fuel false s rest
        | some field =>
          if field.isSet s then .error (atObjectEnd (.duplicateField name) rest)
          else
            match readColon rest with
            | .error f => .error f
            | .ok rest =>
              match field.read s rest with
              | .error f => .error f
              | .ok (s, rest) => readFields fields fuel false s rest

/-- The end of an array all of whose fields have been read. -/
def readArrayEnd (bs : Bytes) : Except Fault Bytes :=
  match skipBlanks bs with
  | [] => .error ⟨.listEnded, []⟩
  | b :: rest =>
    if b = byte ']' then .ok rest
    else if b = byte ',' then
      match skipBlanks rest with
      | [] => .error ⟨.trailingCharacters, []⟩
      | c :: after =>
        .error ⟨if c = byte ']' then .trailingComma else .trailingCharacters, after⟩
    else .error ⟨.trailingCharacters, rest⟩

/-- The fields of a record in order up to the bracket, which is taken too. Fields that a short
array leaves out must be optional. -/
def readInOrder (expected : String) (read : Nat) (s : σ) :
    List (Field σ) → Bytes → Except Fault (σ × Bytes)
  | [], bs => (readArrayEnd bs).map (s, ·)
  | field :: fields, bs =>
    match nextItem (read == 0) bs with
    | .error f => .error f
    | .ok (.finished rest) =>
      match ((field :: fields).takeWhile (·.optional)).length with
      | n =>
        if n = fields.length + 1 then .ok (s, rest)
        else .error ⟨.mismatch (.length (read + n) expected), rest⟩
    | .ok (.more rest) =>
      match field.read s rest with
      | .error f => .error f
      | .ok (s, rest) => readInOrder expected (read + 1) s fields rest

/-- A record. -/
def Shape.reader (shape : Shape σ α) : Reader α := fun bs =>
  onByte bs fun b rest =>
    if b = byte '\x7b' then
      match readFields shape.fields (rest.length + 1) true shape.empty rest with
      | .error f => .error f
      | .ok (s, after) =>
        match shape.finish s with
        | .ok a => .ok (a, after)
        | .error m => .error ⟨.mismatch m, after⟩
    else if b = byte '[' then
      match readInOrder s!"{shape.expected} with {shape.fields.length} elements" 0 shape.empty
          shape.fields rest with
      | .error f => .error f
      | .ok (s, after) =>
        match shape.finish s with
        | .ok a => .ok (a, after)
        | .error m => .error ⟨.mismatch m, after⟩
    else .error (mismatch shape.expected (b :: rest))

end SecretStore.Json
