import SecretStore.Json.Fault
import SecretStore.Number.Hex

/-!
# Strings of a JSON text

`readString` takes the characters of a string whose opening quote has been taken, `skipString`
passes over one without looking at what it spells: text that is no UTF-8 and halves of surrogate
pairs stop the first and not the second.
-/

namespace SecretStore.Json

/-- The value of a byte that is a digit of base sixteen. -/
def hexValue? (b : UInt8) : Option Nat := Number.hexValue? (Char.ofNat b.toNat)

/-- The number that four digits of base sixteen spell. -/
def readHex : Reader Nat
  | a :: b :: c :: d :: rest =>
    match hexValue? a, hexValue? b, hexValue? c, hexValue? d with
    | some a, some b, some c, some d => .ok (((a * 16 + b) * 16 + c) * 16 + d, rest)
    | _, _, _, _ => .error ⟨.invalidEscape, rest⟩
  | _ => .error ⟨.stringEnded, []⟩

/-- The character that a backslash and one more character stand for. -/
def simpleEscape? (b : UInt8) : Option Char :=
  if b = byte '"' then some '"'
  else if b = byte '\\' then some '\\'
  else if b = byte '/' then some '/'
  else if b = byte 'b' then some '\x08'
  else if b = byte 'f' then some '\x0c'
  else if b = byte 'n' then some '\n'
  else if b = byte 'r' then some '\r'
  else if b = byte 't' then some '\t'
  else none

/-- Whether a number is the second half of a surrogate pair. -/
def isTrailing (n : Nat) : Bool := 0xDC00 ≤ n && n ≤ 0xDFFF

/-- Whether a number is the first half of a surrogate pair. -/
def isLeading (n : Nat) : Bool := 0xD800 ≤ n && n ≤ 0xDBFF

/-- The second half of a surrogate pair whose first half is `high`. -/
def readPair (high : Nat) : Reader Char
  | [] => .error ⟨.stringEnded, []⟩
  | a :: rest =>
    if a ≠ byte '\\' then .error ⟨.escapeEnded, rest⟩
    else match rest with
      | [] => .error ⟨.stringEnded, []⟩
      | b :: rest =>
        if b ≠ byte 'u' then .error ⟨.escapeEnded, rest⟩
        else match readHex rest with
          | .error f => .error f
          | .ok (low, rest) =>
            if isTrailing low then
              .ok (Char.ofNat ((high - 0xD800) * 1024 + (low - 0xDC00) + 0x10000), rest)
            else .error ⟨.loneSurrogate, rest⟩

/-- The character of an escape whose backslash has been taken. -/
def readEscape : Reader Char
  | [] => .error ⟨.stringEnded, []⟩
  | b :: rest =>
    match simpleEscape? b with
    | some c => .ok (c, rest)
    | none =>
      if b ≠ byte 'u' then .error ⟨.invalidEscape, rest⟩
      else match readHex rest with
        | .error f => .error f
        | .ok (n, rest) =>
          if isTrailing n then .error ⟨.loneSurrogate, rest⟩
          else if isLeading n then readPair n rest
          else .ok (Char.ofNat n, rest)

theorem readHex_length {bs rest : Bytes} {n : Nat} (h : readHex bs = .ok (n, rest)) :
    rest.length < bs.length := by
  unfold readHex at h
  grind

theorem readPair_length {high : Nat} {bs rest : Bytes} {c : Char}
    (h : readPair high bs = .ok (c, rest)) : rest.length < bs.length := by
  unfold readPair at h
  repeat' split at h
  all_goals first | contradiction | skip
  next hx _ =>
    have := readHex_length hx
    simp only [Except.ok.injEq, Prod.mk.injEq] at h
    simp only [List.length_cons, ← h.2]
    omega

theorem readEscape_length {bs rest : Bytes} {c : Char} (h : readEscape bs = .ok (c, rest)) :
    rest.length < bs.length := by
  unfold readEscape at h
  repeat' split at h
  all_goals first | contradiction | skip
  · grind
  · next hx _ _ =>
    have := readHex_length hx
    have := readPair_length h
    simp only [List.length_cons]
    omega
  · next hx _ _ =>
    have := readHex_length hx
    simp only [Except.ok.injEq, Prod.mk.injEq] at h
    simp only [List.length_cons, ← h.2]
    omega

/-- Whether a byte stands for itself inside a string. -/
def isPlain (b : UInt8) : Bool := 0x20 ≤ b && b ≠ byte '"' && b ≠ byte '\\'

/-- The fault of a string whose next byte begins no character. The run of plain bytes is taken
first, so that its end is noticed before its contents. -/
def brokenRun (bs : Bytes) : Fault :=
  match bs.dropWhile isPlain with
  | [] => ⟨.stringEnded, []⟩
  | b :: rest => if b < 0x20 then ⟨.controlCharacter, rest⟩ else ⟨.invalidCodePoint, bs.tail⟩

/-- The characters up to the closing quote, which is taken too. -/
def readChars (bs : Bytes) : Except Fault (List Char × Bytes) :=
  match bs with
  | [] => .error ⟨.stringEnded, []⟩
  | b :: rest =>
    if b = byte '"' then .ok ([], rest)
    else if b = byte '\\' then
      match h : readEscape rest with
      | .error f => .error f
      | .ok (c, rest') =>
        have := readEscape_length h
        (readChars rest').map fun (cs, r) => (c :: cs, r)
    else if b < 0x20 then .error ⟨.controlCharacter, rest⟩
    else
      match h : Utf8.next? (b :: rest) with
      | some (c, rest') =>
        have := Utf8.next?_length h
        (readChars rest').map fun (cs, r) => (c :: cs, r)
      | none => .error (brokenRun (b :: rest))
termination_by bs.length
decreasing_by all_goals simp_all; try omega

/-- The string whose opening quote has been taken. -/
def readString : Reader String := fun bs =>
  (readChars bs).map fun (cs, rest) => (String.ofList cs, rest)

/-- What follows a string whose opening quote has been taken. -/
def skipString (bs : Bytes) : Except Fault Bytes :=
  match bs with
  | [] => .error ⟨.stringEnded, []⟩
  | b :: rest =>
    if b = byte '"' then .ok rest
    else if b = byte '\\' then
      match rest with
      | [] => .error ⟨.stringEnded, []⟩
      | e :: rest =>
        if (simpleEscape? e).isSome then skipString rest
        else if e ≠ byte 'u' then .error ⟨.invalidEscape, rest⟩
        else match h : readHex rest with
          | .error f => .error f
          | .ok (_, rest') =>
            have := readHex_length h
            skipString rest'
    else if b < 0x20 then .error ⟨.controlCharacter, b :: rest⟩
    else skipString rest
termination_by bs.length
decreasing_by all_goals simp_all; try omega

end SecretStore.Json
