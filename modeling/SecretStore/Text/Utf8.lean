/-!
# UTF-8

Bodies, files and environment values arrive as bytes. This module reads them as text and writes
text back:

* `Utf8.encode` writes a list of characters, each in its shortest form;
* `Utf8.next?` reads one character and refuses overlong forms, surrogates and values above
  `U+10FFFF`;
* `Utf8.decode?` reads a whole text, and `Utf8.invalidAt` is the index of the first byte that
  begins no character.

`decode?_encode` says that what is written is read back.
-/

namespace SecretStore

/-- A sequence of bytes. -/
abbrev Bytes := List UInt8

namespace Utf8

/-- The bytes of one character. -/
def encodeChar (c : Char) : Bytes :=
  let n := c.toNat
  if n < 0x80 then [n.toUInt8]
  else if n < 0x800 then [(0xC0 + n / 64).toUInt8, (0x80 + n % 64).toUInt8]
  else if n < 0x10000 then
    [(0xE0 + n / 4096).toUInt8, (0x80 + n / 64 % 64).toUInt8, (0x80 + n % 64).toUInt8]
  else
    [(0xF0 + n / 262144).toUInt8, (0x80 + n / 4096 % 64).toUInt8, (0x80 + n / 64 % 64).toUInt8,
      (0x80 + n % 64).toUInt8]

/-- The bytes of a list of characters. -/
def encode (cs : List Char) : Bytes := cs.flatMap encodeChar

/-- The value of a continuation byte, its lower six bits. -/
def continuation? (b : UInt8) : Option Nat :=
  if 0x80 ≤ b.toNat ∧ b.toNat < 0xC0 then some (b.toNat - 0x80) else none

/-- The character with code `n` when `n` is at least `least` and is a scalar value. -/
def scalar? (least n : Nat) : Option Char :=
  if least ≤ n ∧ n.isValidChar then some (Char.ofNat n) else none

/-- The first character of a byte sequence and what follows it. -/
def next? : Bytes → Option (Char × Bytes)
  | [] => none
  | a :: rest =>
    let n := a.toNat
    if n < 0x80 then some (Char.ofNat n, rest)
    else if n < 0xC0 then none
    else if n < 0xE0 then
      match rest with
      | b :: rest => do
        let x ← continuation? b
        let c ← scalar? 0x80 ((n - 0xC0) * 64 + x)
        pure (c, rest)
      | _ => none
    else if n < 0xF0 then
      match rest with
      | b :: b' :: rest => do
        let x ← continuation? b
        let y ← continuation? b'
        let c ← scalar? 0x800 ((n - 0xE0) * 4096 + x * 64 + y)
        pure (c, rest)
      | _ => none
    else if n < 0xF8 then
      match rest with
      | b :: b' :: b'' :: rest => do
        let x ← continuation? b
        let y ← continuation? b'
        let z ← continuation? b''
        let c ← scalar? 0x10000 ((n - 0xF0) * 262144 + x * 4096 + y * 64 + z)
        pure (c, rest)
      | _ => none
    else none

theorem next?_length {bs rest : Bytes} {c : Char} (h : next? bs = some (c, rest)) :
    rest.length < bs.length := by
  unfold next? at h
  split at h
  · simp at h
  · simp only at h
    split at h
    · grind
    split at h
    · grind
    split at h
    · split at h
      · simp only [Option.bind_eq_bind, Option.bind_eq_some_iff, Option.pure_def,
          Option.some.injEq, Prod.mk.injEq] at h
        obtain ⟨_, _, _, _, _, rfl⟩ := h
        simp only [List.length_cons]
        omega
      · grind
    split at h
    · split at h
      · simp only [Option.bind_eq_bind, Option.bind_eq_some_iff, Option.pure_def,
          Option.some.injEq, Prod.mk.injEq] at h
        obtain ⟨_, _, _, _, _, _, _, rfl⟩ := h
        simp only [List.length_cons]
        omega
      · grind
    split at h
    · split at h
      · simp only [Option.bind_eq_bind, Option.bind_eq_some_iff, Option.pure_def,
          Option.some.injEq, Prod.mk.injEq] at h
        obtain ⟨_, _, _, _, _, _, _, _, _, rfl⟩ := h
        simp only [List.length_cons]
        omega
      · grind
    · grind

/-- The characters of a byte sequence, when all of it is text. -/
def decode? (bs : Bytes) : Option (List Char) :=
  match h : next? bs with
  | some (c, rest) =>
    have := next?_length h
    (decode? rest).map (c :: ·)
  | none => if bs.isEmpty then some [] else none
termination_by bs.length

/-- The index of the first byte that begins no character, counting from `start`. -/
def invalidAt (bs : Bytes) (start : Nat) : Nat :=
  match h : next? bs with
  | some (_, rest) =>
    have := next?_length h
    invalidAt rest (start + (bs.length - rest.length))
  | none => start
termination_by bs.length

/-- The characters of a byte sequence, with `U+FFFD` for every byte that begins none. -/
def decodeLossy (bs : Bytes) : List Char :=
  match h : next? bs with
  | some (c, rest) =>
    have := next?_length h
    c :: decodeLossy rest
  | none =>
    match bs with
    | [] => []
    | _ :: rest => '\uFFFD' :: decodeLossy rest
termination_by bs.length

/-! ### Reading back what was written -/

@[simp] theorem encode_nil : encode [] = [] := rfl

@[simp] theorem encode_cons (c : Char) (cs : List Char) :
    encode (c :: cs) = encodeChar c ++ encode cs := rfl

@[simp] theorem encode_append (cs ds : List Char) :
    encode (cs ++ ds) = encode cs ++ encode ds := by simp [encode]

theorem isValidChar_toNat (c : Char) : c.toNat.isValidChar := c.valid

theorem toNat_lt (c : Char) : c.toNat < 0x110000 := by
  have := isValidChar_toNat c
  simp only [Nat.isValidChar] at this
  omega

theorem toNat_toUInt8 {n : Nat} (h : n < 256) : n.toUInt8.toNat = n := by
  simp [Nat.toUInt8, UInt8.toNat_ofNat']
  omega

theorem continuation?_toUInt8 {n : Nat} (h : n < 64) :
    continuation? (0x80 + n).toUInt8 = some n := by
  unfold continuation?
  rw [toNat_toUInt8 (by omega)]
  simp
  omega

theorem scalar?_toNat {c : Char} {least : Nat} (h : least ≤ c.toNat) :
    scalar? least c.toNat = some c := by
  simp [scalar?, h, isValidChar_toNat]

/-- A written character is read first, whatever follows it. -/
theorem next?_encodeChar (c : Char) (rest : Bytes) :
    next? (encodeChar c ++ rest) = some (c, rest) := by
  have hc := toNat_lt c
  unfold encodeChar
  simp only
  split
  · next h => simp [next?, toNat_toUInt8 (show c.toNat < 256 by omega), h]
  split
  · next h _ =>
    have e : c.toNat / 64 * 64 + c.toNat % 64 = c.toNat := by omega
    rw [List.cons_append, List.cons_append, List.nil_append, next?]
    simp only [toNat_toUInt8 (show 0xC0 + c.toNat / 64 < 256 by omega)]
    rw [if_neg (by omega), if_neg (by omega), if_pos (by omega),
      continuation?_toUInt8 (by omega)]
    simp [e, scalar?_toNat (show 0x80 ≤ c.toNat by omega)]
  split
  · next h _ =>
    have e : c.toNat / 4096 * 4096 + c.toNat / 64 % 64 * 64 + c.toNat % 64
        = c.toNat := by omega
    rw [List.cons_append, List.cons_append, List.cons_append, List.nil_append, next?]
    simp only [toNat_toUInt8 (show 0xE0 + c.toNat / 4096 < 256 by omega)]
    rw [if_neg (by omega), if_neg (by omega), if_neg (by omega), if_pos (by omega),
      continuation?_toUInt8 (by omega), continuation?_toUInt8 (by omega)]
    simp [e, scalar?_toNat (show 0x800 ≤ c.toNat by omega)]
  · next h _ =>
    have e : c.toNat / 262144 * 262144 + c.toNat / 4096 % 64 * 4096
        + c.toNat / 64 % 64 * 64 + c.toNat % 64 = c.toNat := by omega
    rw [List.cons_append, List.cons_append, List.cons_append, List.cons_append,
      List.nil_append, next?]
    simp only [toNat_toUInt8 (show 0xF0 + c.toNat / 262144 < 256 by omega)]
    rw [if_neg (by omega), if_neg (by omega), if_neg (by omega), if_neg (by omega),
      if_pos (by omega), continuation?_toUInt8 (by omega), continuation?_toUInt8 (by omega),
      continuation?_toUInt8 (by omega)]
    simp [e, scalar?_toNat (show 0x10000 ≤ c.toNat by omega)]

/-- A written text is read back. -/
theorem decode?_encode (cs : List Char) : decode? (encode cs) = some cs := by
  induction cs with
  | nil => simp [decode?, next?]
  | cons c cs ih =>
    rw [decode?]
    split
    · next h =>
      rw [encode_cons, next?_encodeChar] at h
      grind
    · next h => simp [next?_encodeChar] at h

end Utf8

/-- The bytes of a text. -/
def Bytes.ofString (s : String) : Bytes := Utf8.encode s.toList

/-- The text that the bytes spell, when they are UTF-8. -/
def Bytes.toString? (bs : Bytes) : Option String := (Utf8.decode? bs).map String.ofList

/-- What is written is read back. -/
theorem Bytes.toString?_ofString (s : String) : Bytes.toString? (Bytes.ofString s) = some s := by
  simp [Bytes.toString?, Bytes.ofString, Utf8.decode?_encode]

end SecretStore
