import SecretStore.Json.Document
import SecretStore.Json.Printer

/-!
# Strings and natural numbers of a JSON text

What the printer writes for a string or a natural number is read back, whatever follows a string and
as long as no more of a number follows a number.

* `readChars_escapeChar`: one character of a string, escaped or not;
* `readString_quoted`: a string behind its opening quote;
* `readNumber_toDigits`: a natural number that fits into 64 bits.
-/

namespace SecretStore.Json

theorem encodeChar_of_lt {c : Char} (h : c.toNat < 0x80) : Utf8.encodeChar c = [byte c] := by
  rw [Utf8.encodeChar, if_pos h, byte]

theorem toNat_byte {c : Char} (h : c.toNat < 0x80) : (byte c).toNat = c.toNat :=
  Utf8.toNat_toUInt8 (by omega)

/-! ### Strings -/

theorem readChars_quote (rest : Bytes) : readChars (byte '"' :: rest) = .ok ([], rest) := by
  rw [readChars, if_pos rfl]

/-- An escape stands for its character. -/
theorem readChars_of_escape {c : Char} {bs rest : Bytes} (h : readEscape bs = .ok (c, rest)) :
    readChars (byte '\\' :: bs) = (readChars rest).map fun (cs, r) => (c :: cs, r) := by
  rw [readChars, if_neg (by decide), if_pos rfl]
  split
  · next f hf => cases h.symm.trans hf
  · next c' rest' hc =>
    cases h.symm.trans hc
    rfl

theorem isPlain_iff {b : UInt8} :
    isPlain b = true ↔ 0x20 ≤ b.toNat ∧ b.toNat ≠ 0x22 ∧ b.toNat ≠ 0x5C := by
  simp only [isPlain, Bool.and_eq_true, decide_eq_true_eq, ne_eq, ← UInt8.toNat_inj,
    UInt8.le_iff_toNat_le, and_assoc]
  rfl

/-- A character that needs no escape stands for itself. -/
theorem readChars_of_next {b : UInt8} {c : Char} {bs rest : Bytes} (hb : isPlain b = true)
    (h : Utf8.next? (b :: bs) = some (c, rest)) :
    readChars (b :: bs) = (readChars rest).map fun (cs, r) => (c :: cs, r) := by
  simp only [isPlain, Bool.and_eq_true, decide_eq_true_eq, ne_eq] at hb
  obtain ⟨⟨hcontrol, hquote⟩, hslash⟩ := hb
  rw [readChars, if_neg hquote, if_neg hslash, if_neg (UInt8.not_lt.2 hcontrol)]
  split
  · next c' rest' hc =>
    cases h.symm.trans hc
    rfl
  · next hn => cases h.symm.trans hn

/-- A character that the printer leaves as it is begins with a plain byte. -/
theorem exists_plain {c : Char} (hquote : c ≠ '"') (hslash : c ≠ '\\') (hcontrol : 0x20 ≤ c.toNat) :
    ∃ b bs, Utf8.encodeChar c = b :: bs ∧ isPlain b = true := by
  have hc := Utf8.toNat_lt c
  have hquote' : c.toNat ≠ 0x22 := fun h => hquote (Char.toNat_inj.1 h)
  have hslash' : c.toNat ≠ 0x5C := fun h => hslash (Char.toNat_inj.1 h)
  -- a byte of a longer form is above those that are special
  have hlong {n : Nat} (hl : 0xC0 ≤ n) (hu : n < 256) : isPlain n.toUInt8 = true := by
    rw [isPlain_iff, Utf8.toNat_toUInt8 hu]
    omega
  rw [Utf8.encodeChar]
  split
  · refine ⟨_, _, rfl, ?_⟩
    rw [isPlain_iff, Utf8.toNat_toUInt8 (by omega)]
    exact ⟨hcontrol, hquote', hslash'⟩
  split
  · exact ⟨_, _, rfl, hlong (by omega) (by omega)⟩
  split
  · exact ⟨_, _, rfl, hlong (by omega) (by omega)⟩
  · exact ⟨_, _, rfl, hlong (by omega) (by omega)⟩

theorem readChars_unescaped {c : Char} (hquote : c ≠ '"') (hslash : c ≠ '\\')
    (hcontrol : 0x20 ≤ c.toNat) (rest : Bytes) :
    readChars (Utf8.encode [c] ++ rest) = (readChars rest).map fun (cs, r) => (c :: cs, r) := by
  obtain ⟨b, bs, hbs, hb⟩ := exists_plain hquote hslash hcontrol
  have hnext := Utf8.next?_encodeChar c rest
  rw [Utf8.encode_cons, Utf8.encode_nil, List.append_nil]
  rw [hbs, List.cons_append] at hnext ⊢
  exact readChars_of_next hb hnext

/-- The characters with an escape of one letter. -/
theorem readChars_letter {c e : Char} (he : e.toNat < 0x80) (h : simpleEscape? (byte e) = some c)
    (rest : Bytes) :
    readChars (Utf8.encode ['\\', e] ++ rest) =
      (readChars rest).map fun (cs, r) => (c :: cs, r) := by
  rw [Utf8.encode_cons, Utf8.encode_cons, Utf8.encode_nil,
    encodeChar_of_lt (show '\\'.toNat < 0x80 by decide), encodeChar_of_lt he]
  have hescape : readEscape (byte e :: rest) = .ok (c, rest) := by rw [readEscape, h]
  exact readChars_of_escape hescape

open Number (hexDigit)

theorem hexDigit_lt : ∀ n < 16, (hexDigit n).toNat < 0x80 := by decide

theorem hexValue?_byte {n : Nat} (h : n < 16) : hexValue? (byte (hexDigit n)) = some n := by
  have hlt := hexDigit_lt n h
  rw [hexValue?, byte, Utf8.toNat_toUInt8 (by omega), Char.ofNat_toNat]
  exact (Number.hexValue?_hexDigit n h).1

/-- The escape of a control character by its number. -/
theorem readChars_number {c : Char} (h : c.toNat < 0x20) (rest : Bytes) :
    readChars (Utf8.encode ['\\', 'u', '0', '0', hexDigit (c.toNat / 16),
        hexDigit (c.toNat % 16)] ++ rest) =
      (readChars rest).map fun (cs, r) => (c :: cs, r) := by
  have hhigh : c.toNat / 16 < 16 := by omega
  have hlow : c.toNat % 16 < 16 := by omega
  have hhex : readHex (byte '0' :: byte '0' :: byte (hexDigit (c.toNat / 16)) ::
      byte (hexDigit (c.toNat % 16)) :: rest) = .ok (c.toNat, rest) := by
    have hzero : hexValue? (byte '0') = some 0 := by decide
    rw [readHex, hzero, hexValue?_byte hhigh, hexValue?_byte hlow]
    have hsum : ((0 * 16 + 0) * 16 + c.toNat / 16) * 16 + c.toNat % 16 = c.toNat := by omega
    simp only [hsum]
  have hescape : readEscape (byte 'u' :: byte '0' :: byte '0' :: byte (hexDigit (c.toNat / 16)) ::
      byte (hexDigit (c.toNat % 16)) :: rest) = .ok (c, rest) := by
    have hu : simpleEscape? (byte 'u') = none := by decide
    have htrailing : isTrailing c.toNat = false := by simp [isTrailing]; omega
    have hleading : isLeading c.toNat = false := by simp [isLeading]; omega
    rw [readEscape, hu]
    simp [hhex, htrailing, hleading]
  simp only [Utf8.encode_cons, Utf8.encode_nil, List.append_nil,
    encodeChar_of_lt (show '\\'.toNat < 0x80 by decide),
    encodeChar_of_lt (show 'u'.toNat < 0x80 by decide),
    encodeChar_of_lt (show '0'.toNat < 0x80 by decide),
    encodeChar_of_lt (hexDigit_lt _ hhigh), encodeChar_of_lt (hexDigit_lt _ hlow),
    List.cons_append, List.nil_append]
  exact readChars_of_escape hescape

/-- Every character is read back from what the printer writes for it. -/
theorem readChars_escapeChar (c : Char) (rest : Bytes) :
    readChars (Utf8.encode (escapeChar c) ++ rest) =
      (readChars rest).map fun (cs, r) => (c :: cs, r) := by
  unfold escapeChar
  -- seven characters have an escape of one letter
  iterate 7
    split
    · next h =>
      subst h
      exact readChars_letter (by decide) (by decide) rest
  split
  · next h => exact readChars_number h rest
  · next hquote hslash _ _ _ _ _ hcontrol =>
    exact readChars_unescaped hquote hslash (Nat.le_of_not_lt hcontrol) rest

/-- So is every string, up to its closing quote. -/
theorem readChars_flatMap (cs : List Char) (rest : Bytes) :
    readChars (Utf8.encode (cs.flatMap escapeChar) ++ byte '"' :: rest) = .ok (cs, rest) := by
  induction cs with
  | nil => exact readChars_quote rest
  | cons c cs ih =>
    rw [List.flatMap_cons, Utf8.encode_append, List.append_assoc, readChars_escapeChar, ih]
    rfl

/-- The bytes of a string are its quote and what `readString` takes. -/
theorem encode_quoted (s : String) :
    Utf8.encode (quoted s) =
      byte '"' :: (Utf8.encode (s.toList.flatMap escapeChar) ++ [byte '"']) := by
  rw [quoted, List.cons_append, Utf8.encode_cons, Utf8.encode_append]
  rfl

theorem readString_quoted (s : String) (rest : Bytes) :
    readString (Utf8.encode (s.toList.flatMap escapeChar) ++ byte '"' :: rest) = .ok (s, rest) := by
  rw [readString, readChars_flatMap]
  simp [Except.map, String.ofList_toList]

/-! ### Natural numbers -/

/-- What may follow a number: neither another digit nor a fraction nor an exponent. -/
def EndsNumber (bs : Bytes) : Prop :=
  ∀ b ∈ bs.head?, isDigit b = false ∧ b ≠ byte '.' ∧ isExponentMark b = false

theorem isDigit_byte {c : Char} (h : c.isDigit = true) : isDigit (byte c) = true := by
  obtain ⟨hl, hu⟩ := Char.isDigit_iff_toNat.1 h
  have hn : (byte c).toNat = c.toNat := toNat_byte (Nat.lt_of_le_of_lt hu (by decide))
  simp only [isDigit, Bool.and_eq_true, decide_eq_true_eq, UInt8.le_iff_toNat_le, hn]
  exact ⟨hl, hu⟩

theorem encode_of_isDigit {cs : List Char} (h : ∀ c ∈ cs, c.isDigit = true) :
    Utf8.encode cs = cs.map byte := by
  induction cs with
  | nil => rfl
  | cons c cs ih =>
    have hu := (Char.isDigit_iff_toNat.1 (h c List.mem_cons_self)).2
    rw [Utf8.encode_cons, encodeChar_of_lt (Nat.lt_of_le_of_lt hu (by decide)),
      ih fun c hc => h c (List.mem_cons_of_mem _ hc)]
    rfl

theorem isDigit_of_mem_toDigits {n : Nat} {c : Char} (h : c ∈ Nat.toDigits 10 n) :
    c.isDigit = true :=
  Nat.isDigit_of_mem_toDigits (by decide) (by decide) h

/-- The text of a number begins with a digit. -/
theorem exists_digit (n : Nat) :
    ∃ b bs, Utf8.encode (Nat.toDigits 10 n) = b :: bs ∧ isDigit b = true := by
  rw [encode_of_isDigit fun c => isDigit_of_mem_toDigits]
  cases h : Nat.toDigits 10 n with
  | nil => exact absurd h Nat.toDigits_ne_nil
  | cons c cs => exact ⟨_, _, rfl, isDigit_byte (isDigit_of_mem_toDigits (h ▸ List.mem_cons_self))⟩

theorem le_ofDigitChars (cs : List Char) (n : Nat) : n ≤ Nat.ofDigitChars 10 cs n := by
  rw [Nat.ofDigitChars_eq_ofDigitChars_zero]
  have hpow : 1 * n ≤ 10 ^ cs.length * n := Nat.mul_le_mul_right _ (Nat.pow_pos (by decide))
  omega

/-- Digits whose value fits are all gathered. -/
theorem gather_eq {cs : List Char} (hd : ∀ c ∈ cs, c.isDigit = true) {n : Nat}
    (hfit : Nat.ofDigitChars 10 cs n ≤ maxCoefficient) :
    gather n (cs.map byte) = ⟨Nat.ofDigitChars 10 cs n, cs.length, false⟩ := by
  rw [gather, ← Nat.zero_add cs.length]
  generalize 0 = taken
  induction cs generalizing n taken with
  | nil => rfl
  | cons c cs ih =>
    have hu := (Char.isDigit_iff_toNat.1 (hd c List.mem_cons_self)).2
    have hc : (byte c).toNat = c.toNat := toNat_byte (Nat.lt_of_le_of_lt hu (by decide))
    -- one more digit makes the value larger, but the whole of it still fits
    have hstep : n * 10 + ((byte c).toNat - 0x30) = 10 * n + (c.toNat - '0'.toNat) := by
      rw [hc, Nat.mul_comm]
      rfl
    rw [Nat.ofDigitChars_cons] at hfit ⊢
    have hle := Nat.le_trans (le_ofDigitChars cs _) hfit
    rw [List.map_cons, List.foldl_cons, hstep]
    simp only [Bool.false_eq_true, if_false, Nat.not_lt.2 hle]
    rw [ih (fun c hc => hd c (List.mem_cons_of_mem _ hc)) hfit]
    rw [List.length_cons, Nat.add_assoc, Nat.add_comm 1]

/-- Only the digits of zero begin with a zero. -/
theorem toDigits_cases (n : Nat) :
    (n = 0 ∧ Nat.toDigits 10 n = ['0']) ∨ ∃ c cs, Nat.toDigits 10 n = c :: cs ∧ c ≠ '0' := by
  induction n using Nat.strongRecOn with
  | ind n ih =>
    by_cases hn : n < 10
    · have hdigit : ∀ n < 10, (n = 0 ∧ [Nat.digitChar n] = ['0']) ∨
          ∃ c cs, [Nat.digitChar n] = c :: cs ∧ c ≠ '0' := by
        intro n hn
        match n with
        | 0 => exact .inl ⟨rfl, rfl⟩
        | 1 | 2 | 3 | 4 | 5 | 6 | 7 | 8 | 9 => exact .inr ⟨_, _, rfl, by decide⟩
      rw [Nat.toDigits_of_lt_base hn]
      exact hdigit n hn
    · have hbase : 10 ≤ n := Nat.le_of_not_lt hn
      rw [Nat.toDigits_of_base_le (by decide) hbase]
      rcases ih (n / 10) (by omega) with ⟨hz, -⟩ | ⟨c, cs, hcs, hc⟩
      · omega
      · exact .inr ⟨c, _, by rw [hcs]; rfl, hc⟩

theorem readRest_of_endsNumber {n shift : Nat} {rest : Bytes} (hr : EndsNumber rest) :
    readRest false n shift false rest = .ok (.unsigned n, rest) := by
  cases rest with
  | nil => rfl
  | cons b rest =>
    obtain ⟨-, hpoint, hmark⟩ := hr b rfl
    rw [readRest]
    simp [hpoint, hmark, integer]

/-- A natural number that fits into 64 bits is read back. -/
theorem readNumber_toDigits {n : Nat} (hn : n ≤ maxCoefficient) {rest : Bytes}
    (hr : EndsNumber rest) :
    readNumber false (Utf8.encode (Nat.toDigits 10 n) ++ rest) = .ok (.unsigned n, rest) := by
  have hdigits : ∀ c ∈ Nat.toDigits 10 n, c.isDigit = true := fun c => isDigit_of_mem_toDigits
  have hvalue : Nat.ofDigitChars 10 (Nat.toDigits 10 n) 0 = n :=
    Nat.ofDigitChars_toDigits (by decide) (by decide)
  rcases toDigits_cases n with ⟨rfl, hzero⟩ | ⟨c, cs, hcs, hc⟩
  · rw [hzero]
    show readNumber false (byte '0' :: rest) = _
    rw [readNumber.eq_def]
    dsimp only
    rw [if_pos rfl]
    cases rest with
    | nil => exact readRest_of_endsNumber hr
    | cons b rest =>
      have hb : isDigit b = false := (hr b rfl).1
      simp only [hb, Bool.false_eq_true, if_false]
      exact readRest_of_endsNumber hr
  · have hall : ∀ b ∈ (c :: cs).map byte, isDigit b = true := by
      intro b hb
      obtain ⟨d, hd, rfl⟩ := List.mem_map.1 hb
      exact isDigit_byte (hdigits d (hcs ▸ hd))
    have hstop : rest.takeWhile isDigit = [] ∧ rest.dropWhile isDigit = rest := by
      cases rest with
      | nil => exact ⟨rfl, rfl⟩
      | cons b rest => simp [(hr b rfl).1]
    have hne : byte c ≠ byte '0' := by
      intro h
      have hu := (Char.isDigit_iff_toNat.1 (hdigits c (hcs ▸ List.mem_cons_self))).2
      have hn := congrArg UInt8.toNat h
      rw [toNat_byte (Nat.lt_of_le_of_lt hu (by decide)), toNat_byte (by decide)] at hn
      exact hc (Char.toNat_inj.1 hn)
    have hfirst : isDigit (byte c) = true := hall _ List.mem_cons_self
    rw [encode_of_isDigit hdigits, hcs]
    rw [List.map_cons, List.cons_append, readNumber.eq_def]
    dsimp only
    rw [if_neg hne, if_pos hfirst]
    rw [← List.cons_append, ← List.map_cons, List.takeWhile_append_of_pos hall,
      List.dropWhile_append_of_pos hall, hstop.1, hstop.2, List.append_nil]
    rw [← hcs, gather_eq hdigits (by rw [hvalue]; exact hn), hvalue]
    exact readRest_of_endsNumber hr

end SecretStore.Json
