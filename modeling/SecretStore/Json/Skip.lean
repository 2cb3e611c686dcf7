import SecretStore.Json.Text
import SecretStore.Json.Numeral

/-!
# Passing over a value

A value that nobody asked for is passed over: its structure is checked, but not the depth of its
nesting, the size of its numbers or the text its strings spell. A level of brackets spends at most
two units of fuel for each byte it takes, so `skipValue` always has enough.
-/

namespace SecretStore.Json

/-- What follows the letters of a literal. -/
def readLiteral : List Char → Bytes → Except Fault Bytes
  | [], bs => .ok bs
  | _ :: _, [] => .error ⟨.valueEnded, []⟩
  | c :: cs, b :: rest =>
    if b = byte c then readLiteral cs rest else .error ⟨.expectedLiteral, rest⟩

/-- What follows the colon between a name and its value. -/
def readColon (bs : Bytes) : Except Fault Bytes :=
  match skipBlanks bs with
  | [] => .error ⟨.objectEnded, []⟩
  | b :: rest => if b = byte ':' then .ok rest else .error ⟨.expectedColon, rest⟩

mutual

/-- What follows the next value. -/
def skipValueWith (fuel : Nat) (bs : Bytes) : Except Fault Bytes :=
  match fuel with
  | 0 => .error ⟨.valueEnded, []⟩
  | fuel + 1 =>
    match skipBlanks bs with
    | [] => .error ⟨.valueEnded, []⟩
    | b :: rest =>
      if b = byte 'n' then readLiteral ['u', 'l', 'l'] rest
      else if b = byte 't' then readLiteral ['r', 'u', 'e'] rest
      else if b = byte 'f' then readLiteral ['a', 'l', 's', 'e'] rest
      else if b = byte '-' then skipNumber rest
      else if isDigit b then skipNumber (b :: rest)
      else if b = byte '"' then skipString rest
      else if b = byte '[' then
        match skipBlanks rest with
        | [] => .error ⟨.listEnded, []⟩
        | c :: after => if c = byte ']' then .ok after else skipItemsWith fuel (c :: after)
      else if b = byte '\x7b' then
        match skipBlanks rest with
        | [] => .error ⟨.objectEnded, []⟩
        | c :: after => if c = byte '\x7d' then .ok after else skipMembersWith fuel (c :: after)
      else .error ⟨.expectedValue, rest⟩

/-- What follows the items of an array, of which at least one is left, and its bracket. -/
def skipItemsWith (fuel : Nat) (bs : Bytes) : Except Fault Bytes :=
  match fuel with
  | 0 => .error ⟨.valueEnded, []⟩
  | fuel + 1 =>
    match skipValueWith fuel bs with
    | .error f => .error f
    | .ok rest =>
      match skipBlanks rest with
      | [] => .error ⟨.listEnded, []⟩
      | b :: rest =>
        if b = byte ',' then skipItemsWith fuel rest
        else if b = byte ']' then .ok rest
        else .error ⟨.expectedListEnd, rest⟩

/-- What follows the members of an object, of which at least one is left, and its brace. -/
def skipMembersWith (fuel : Nat) (bs : Bytes) : Except Fault Bytes :=
  match fuel with
  | 0 => .error ⟨.valueEnded, []⟩
  | fuel + 1 =>
    match skipBlanks bs with
    | [] => .error ⟨.objectEnded, []⟩
    | b :: rest =>
      if b ≠ byte '"' then .error ⟨.expectedKey, rest⟩
      else
        match skipString rest with
        | .error f => .error f
        | .ok rest =>
          match readColon rest with
          | .error f => .error f
          | .ok rest =>
            match skipValueWith fuel rest with
            | .error f => .error f
            | .ok rest =>
              match skipBlanks rest with
              | [] => .error ⟨.objectEnded, []⟩
              | b :: rest =>
                if b = byte ',' then skipMembersWith fuel rest
                else if b = byte '\x7d' then .ok rest
                else .error ⟨.expectedObjectEnd, rest⟩

end

/-- What follows the next value. -/
def skipValue (bs : Bytes) : Except Fault Bytes := skipValueWith (2 * bs.length + 2) bs

end SecretStore.Json
