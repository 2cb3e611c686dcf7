import SecretStore.Json.Skip
import SecretStore.Json.Value

/-!
# Reading a whole document

`Value.parse` reads a text as a `Value`. Brackets nest at most 127 deep.
-/

namespace SecretStore.Json

/-- Where the walk through an array or object stands. -/
inductive Step where
  | more (rest : Bytes)
  | finished (rest : Bytes)

/-- Whether another item of an array follows, its comma being taken. -/
def nextItem (isFirst : Bool) (bs : Bytes) : Except Fault Step :=
  match skipBlanks bs with
  | [] => .error ⟨.listEnded, []⟩
  | b :: rest =>
    if b = byte ']' then .ok (.finished rest)
    else if isFirst then .ok (.more (b :: rest))
    else if b ≠ byte ',' then .error ⟨.expectedListEnd, rest⟩
    else
      match skipBlanks rest with
      | [] => .error ⟨.valueEnded, []⟩
      | c :: after =>
        if c = byte ']' then .error ⟨.trailingComma, after⟩ else .ok (.more (c :: after))

/-- Whether another member of an object follows, its comma and the quote of its name being
taken. -/
def nextMember (isFirst : Bool) (bs : Bytes) : Except Fault Step :=
  let key : Bytes → Except Fault Step := fun bs =>
    match bs with
    | [] => .error ⟨.valueEnded, []⟩
    | c :: after =>
      if c = byte '"' then .ok (.more after)
      else if c = byte '\x7d' then .error ⟨.trailingComma, after⟩
      else .error ⟨.expectedKey, after⟩
  match skipBlanks bs with
  | [] => .error ⟨.objectEnded, []⟩
  | b :: rest =>
    if b = byte '\x7d' then .ok (.finished rest)
    else if isFirst then key (b :: rest)
    else if b ≠ byte ',' then .error ⟨.expectedObjectEnd, rest⟩
    else key (skipBlanks rest)

mutual

/-- The next value, with brackets nested less than `depth` deep. -/
def readValueWith (fuel depth : Nat) (bs : Bytes) : Except Fault (Value × Bytes) :=
  match fuel with
  | 0 => .error ⟨.valueEnded, []⟩
  | fuel + 1 =>
    match skipBlanks bs with
    | [] => .error ⟨.valueEnded, []⟩
    | b :: rest =>
      if b = byte 'n' then (readLiteral ['u', 'l', 'l'] rest).map (.null, ·)
      else if b = byte 't' then (readLiteral ['r', 'u', 'e'] rest).map (.bool true, ·)
      else if b = byte 'f' then (readLiteral ['a', 'l', 's', 'e'] rest).map (.bool false, ·)
      else if b = byte '-' then (readNumber true rest).map fun (n, r) => (.number n, r)
      else if isDigit b then (readNumber false (b :: rest)).map fun (n, r) => (.number n, r)
      else if b = byte '"' then (readString rest).map fun (s, r) => (.string s, r)
      else if b = byte '[' then
        if depth ≤ 1 then .error ⟨.tooDeep, rest⟩
        else (readItemsWith fuel (depth - 1) true rest).map fun (vs, r) => (.array vs, r)
      else if b = byte '\x7b' then
        if depth ≤ 1 then .error ⟨.tooDeep, rest⟩
        else (readMembersWith fuel (depth - 1) true rest).map fun (ms, r) => (.object ms, r)
      else .error ⟨.expectedValue, rest⟩

/-- The items of an array up to its bracket, which is taken too. -/
def readItemsWith (fuel depth : Nat) (isFirst : Bool) (bs : Bytes) :
    Except Fault (List Value × Bytes) :=
  match fuel with
  | 0 => .error ⟨.valueEnded, []⟩
  | fuel + 1 =>
    match nextItem isFirst bs with
    | .error f => .error f
    | .ok (.finished rest) => .ok ([], rest)
    | .ok (.more rest) =>
      match readValueWith fuel depth rest with
      | .error f => .error f
      | .ok (v, rest) =>
        (readItemsWith fuel depth false rest).map fun (vs, r) => (v :: vs, r)

/-- The members of an object up to its brace, which is taken too. -/
def readMembersWith (fuel depth : Nat) (isFirst : Bool) (bs : Bytes) :
    Except Fault (List (String × Value) × Bytes) :=
  match fuel with
  | 0 => .error ⟨.valueEnded, []⟩
  | fuel + 1 =>
    match nextMember isFirst bs with
    | .error f => .error f
    | .ok (.finished rest) => .ok ([], rest)
    | .ok (.more rest) =>
      match readString rest with
      | .error f => .error f
      | .ok (name, rest) =>
        match readColon rest with
        | .error f => .error f
        | .ok rest =>
          match readValueWith fuel depth rest with
          | .error f => .error f
          | .ok (v, rest) =>
            (readMembersWith fuel depth false rest).map fun (ms, r) => ((name, v) :: ms, r)

end

/-- The next value. -/
def readValue : Reader Value := fun bs => readValueWith (2 * bs.length + 2) 128 bs

/-- Takes the whole text with a reader; only blanks may follow. -/
def whole (r : Reader α) (bs : Bytes) : Except Error α :=
  match r bs with
  | .error f => .error (f.locate bs)
  | .ok (a, rest) =>
    match skipBlanks rest with
    | [] => .ok a
    | _ :: after => .error (Fault.locate bs ⟨.trailingCharacters, after⟩)

/-- The document that a text spells. -/
def Value.parse (bs : Bytes) : Except Error Value := whole readValue bs

end SecretStore.Json
