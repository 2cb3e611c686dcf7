import SecretStore.Json.Skip
import SecretStore.Proofs.Json.Written

/-!
# Strings and numbers of the grammar

What a text may hold in the place of a string or a number, whatever it spells. A string may escape
what it likes, also one half of a surrogate pair; a number may be of any size.

* `Contents`, `Spelling`: what stands between the quotes of a string, and the characters it spells.
* `readChars_spelling`, `Contents.settled`: contents are read exactly if they spell characters.
* `NumberText`: sign, integral digits, fraction and exponent.
* `Contents.skip`, `skipNumber_append`: all of them are passed over.
-/

namespace SecretStore.Json

variable {ws sep bs rest d : Bytes} {b : UInt8} {isFirst : Bool}

/-! ### Strings -/

/-- Four digits of base sixteen and the number they spell. -/
inductive Hex : Nat → Bytes → Prop
  | mk {a b c d : UInt8} {i j k l : Nat} (ha : hexValue? a = some i) (hb : hexValue? b = some j)
      (hc : hexValue? c = some k) (hd : hexValue? d = some l) :
      Hex (((i * 16 + j) * 16 + k) * 16 + l) [a, b, c, d]

theorem Hex.readHex {n : Nat} {ds : Bytes} (h : Hex n ds) (rest : Bytes) :
    readHex (ds ++ rest) = .ok (n, rest) := by
  cases h with
  | mk ha hb hc hd => simp [Json.readHex, ha, hb, hc, hd]

/-- What may stand between the quotes of a string. -/
inductive Contents : Bytes → Prop
  | nil : Contents []
  | plain {c : Char} {bs : Bytes} (hq : c ≠ '"') (hs : c ≠ '\\') (hc : 0x20 ≤ c.toNat)
      (h : Contents bs) : Contents (Utf8.encodeChar c ++ bs)
  | short {e : UInt8} {c : Char} {bs : Bytes} (he : simpleEscape? e = some c) (h : Contents bs) :
      Contents (byte '\\' :: e :: bs)
  | code {n : Nat} {ds bs : Bytes} (hd : Hex n ds) (h : Contents bs) :
      Contents (byte '\\' :: byte 'u' :: (ds ++ bs))

/-- The character of a surrogate pair. -/
def paired (high low : Nat) : Char := Char.ofNat ((high - 0xD800) * 1024 + (low - 0xDC00) + 0x10000)

/-- The characters that the contents of a string spell. Halves of surrogate pairs spell one only
together. -/
inductive Spelling : List Char → Bytes → Prop
  | nil : Spelling [] []
  | plain {c : Char} {cs : List Char} {bs : Bytes} (hq : c ≠ '"') (hs : c ≠ '\\')
      (hc : 0x20 ≤ c.toNat) (h : Spelling cs bs) : Spelling (c :: cs) (Utf8.encodeChar c ++ bs)
  | short {e : UInt8} {c : Char} {cs : List Char} {bs : Bytes} (he : simpleEscape? e = some c)
      (h : Spelling cs bs) : Spelling (c :: cs) (byte '\\' :: e :: bs)
  | code {n : Nat} {ds bs : Bytes} {cs : List Char} (hd : Hex n ds) (hl : isLeading n = false)
      (ht : isTrailing n = false) (h : Spelling cs bs) :
      Spelling (Char.ofNat n :: cs) (byte '\\' :: byte 'u' :: (ds ++ bs))
  | pair {high low : Nat} {ds es bs : Bytes} {cs : List Char} (hd : Hex high ds)
      (he : Hex low es) (hl : isLeading high = true) (ht : isTrailing low = true)
      (h : Spelling cs bs) :
      Spelling (paired high low :: cs)
        (byte '\\' :: byte 'u' :: (ds ++ byte '\\' :: byte 'u' :: (es ++ bs)))

/-- A string with its quotes. -/
def StringText (s : String) (d : Bytes) : Prop :=
  ∃ bs, Spelling s.toList bs ∧ d = byte '"' :: (bs ++ [byte '"'])

theorem Spelling.contents {cs : List Char} (h : Spelling cs bs) : Contents bs := by
  induction h with
  | nil => exact .nil
  | plain hq hs hc _ ih => exact .plain hq hs hc ih
  | short he _ ih => exact .short he ih
  | code hd _ _ _ ih => exact .code hd ih
  | pair hd he _ _ _ ih => exact .code hd (.code he ih)

theorem isTrailing_of_isLeading {n : Nat} (h : isLeading n = true) : isTrailing n = false := by
  simp only [isTrailing, isLeading, Bool.and_eq_true, decide_eq_true_eq, Bool.and_eq_false_iff,
    decide_eq_false_iff_not] at *
  omega

/-- An escape by a number whose backslash has been taken. -/
theorem readEscape_code {n : Nat} {ds : Bytes} (hd : Hex n ds) (rest : Bytes) :
    readEscape (byte 'u' :: (ds ++ rest)) =
      if isTrailing n then .error ⟨.loneSurrogate, rest⟩
      else if isLeading n then readPair n rest
      else .ok (Char.ofNat n, rest) := by
  have hu : simpleEscape? (byte 'u') = none := by decide
  simp [readEscape, hu, hd.readHex]

theorem readPair_code {high n : Nat} {ds : Bytes} (hd : Hex n ds) (rest : Bytes) :
    readPair high (byte '\\' :: byte 'u' :: (ds ++ rest)) =
      if isTrailing n then .ok (paired high n, rest) else .error ⟨.loneSurrogate, rest⟩ := by
  simp [readPair, hd.readHex, paired]

theorem readChars_of_escape_error {f : Fault} (h : readEscape bs = .error f) :
    readChars (byte '\\' :: bs) = .error f := by
  rw [readChars, if_neg (by decide), if_pos rfl]
  split
  · next f' hf =>
    cases hf.symm.trans h
    rfl
  · next hc => cases h.symm.trans hc

/-- Some bytes are read as one character, whatever follows. -/
def Fronts (c : Char) (front : Bytes) : Prop :=
  ∀ rest, readChars (front ++ rest) = (readChars rest).map fun (cs, r) => (c :: cs, r)

theorem fronts_plain {c : Char} (hq : c ≠ '"') (hs : c ≠ '\\') (hc : 0x20 ≤ c.toNat) :
    Fronts c (Utf8.encodeChar c) := by
  intro rest
  have h := readChars_unescaped hq hs hc rest
  rwa [Utf8.encode_cons, Utf8.encode_nil, List.append_nil] at h

theorem fronts_short {e : UInt8} {c : Char} (he : simpleEscape? e = some c) :
    Fronts c [byte '\\', e] := by
  intro rest
  exact readChars_of_escape (show readEscape (e :: rest) = .ok (c, rest) by rw [readEscape, he])

theorem fronts_code {n : Nat} {ds : Bytes} (hd : Hex n ds) (hl : isLeading n = false)
    (ht : isTrailing n = false) : Fronts (Char.ofNat n) (byte '\\' :: byte 'u' :: ds) := by
  intro rest
  have h := readEscape_code hd rest
  simp only [hl, ht, Bool.false_eq_true, if_false] at h
  exact readChars_of_escape h

theorem fronts_pair {high low : Nat} {ds es : Bytes} (hd : Hex high ds) (he : Hex low es)
    (hl : isLeading high = true) (ht : isTrailing low = true) :
    Fronts (paired high low) (byte '\\' :: byte 'u' :: (ds ++ byte '\\' :: byte 'u' :: es)) := by
  intro rest
  have h := readEscape_code hd (byte '\\' :: byte 'u' :: (es ++ rest))
  simp only [isTrailing_of_isLeading hl, hl, readPair_code he, ht, Bool.false_eq_true, if_false,
    if_true] at h
  simp only [List.cons_append, List.append_assoc]
  exact readChars_of_escape h

/-- Contents that spell characters are read as these, up to the closing quote. -/
theorem readChars_spelling {cs : List Char} (h : Spelling cs bs) (rest : Bytes) :
    readChars (bs ++ byte '"' :: rest) = .ok (cs, rest) := by
  have hfront {c : Char} {cs : List Char} {front bs : Bytes} (hf : Fronts c front)
      (ih : readChars (bs ++ byte '"' :: rest) = .ok (cs, rest)) :
      readChars (front ++ (bs ++ byte '"' :: rest)) = .ok (c :: cs, rest) := by
    rw [hf, ih]
    rfl
  induction h with
  | nil => exact readChars_quote rest
  | plain hq hs hc _ ih => simpa using hfront (fronts_plain hq hs hc) ih
  | short he _ ih => simpa using hfront (fronts_short he) ih
  | code hd hl ht _ ih => simpa using hfront (fronts_code hd hl ht) ih
  | pair hd he hl ht _ ih => simpa using hfront (fronts_pair hd he hl ht) ih

theorem Spelling.read {s : String} (h : Spelling s.toList bs) (rest : Bytes) :
    readString (bs ++ byte '"' :: rest) = .ok (s, rest) := by
  rw [readString, readChars_spelling h]
  simp only [Except.map, String.ofList_toList]

/-- The bytes of a character that needs no escape are plain. -/
theorem isPlain_of_mem_encodeChar {c : Char} (hq : c ≠ '"') (hs : c ≠ '\\') (hc : 0x20 ≤ c.toNat)
    (hb : b ∈ Utf8.encodeChar c) : isPlain b = true := by
  have hlt := Utf8.toNat_lt c
  have hlong {n : Nat} (hl : 0x80 ≤ n) (hu : n < 256) : isPlain n.toUInt8 = true := by
    rw [isPlain_iff, Utf8.toNat_toUInt8 hu]
    omega
  obtain ⟨b', bs, hbs, hplain⟩ := exists_plain hq hs hc
  by_cases hascii : c.toNat < 0x80
  · rw [encodeChar_of_lt hascii] at hb hbs
    obtain ⟨rfl, -⟩ := List.cons.inj hbs
    rwa [List.mem_singleton.1 hb]
  · simp only [Utf8.encodeChar, if_neg hascii] at hb
    split at hb
    · simp only [List.mem_cons, List.not_mem_nil, or_false] at hb
      rcases hb with rfl | rfl <;> exact hlong (by omega) (by omega)
    split at hb
    · simp only [List.mem_cons, List.not_mem_nil, or_false] at hb
      rcases hb with rfl | rfl | rfl <;> exact hlong (by omega) (by omega)
    · simp only [List.mem_cons, List.not_mem_nil, or_false] at hb
      rcases hb with rfl | rfl | rfl | rfl <;> exact hlong (by omega) (by omega)

/-- Behind one half of a surrogate pair the other one follows, or the half is refused. -/
theorem readPair_contents (high : Nat) (h : Contents bs) :
    (∃ n ds bs', bs = byte '\\' :: byte 'u' :: (ds ++ bs') ∧ Hex n ds ∧ isTrailing n = true ∧
      Contents bs') ∨ ∀ rest, ∃ f, readPair high (bs ++ byte '"' :: rest) = .error f := by
  cases h with
  | nil => exact .inr fun rest => ⟨_, rfl⟩
  | @plain c bs hq hs hc h =>
    obtain ⟨b, bs', hbs, -⟩ := exists_plain hq hs hc
    have hb : b ≠ byte '\\' := by
      have hplain := isPlain_of_mem_encodeChar hq hs hc (hbs ▸ List.mem_cons_self)
      rintro rfl
      exact absurd hplain (by decide)
    refine .inr fun rest => ?_
    simp [hbs, readPair, hb]
  | @short e c bs he h =>
    have hu : e ≠ byte 'u' := by
      rintro rfl
      rw [show simpleEscape? (byte 'u') = none by decide] at he
      cases he
    refine .inr fun rest => ?_
    simp [readPair, hu]
  | @code n ds bs hd h =>
    by_cases ht : isTrailing n = true
    · exact .inl ⟨n, ds, bs, rfl, hd, ht, h⟩
    · refine .inr fun rest => ?_
      simp [readPair_code hd, ht]

/-- Contents spell characters, or no string that has them is read. -/
def Settled (bs : Bytes) : Prop :=
  (∃ cs, Spelling cs bs) ∨ ∀ rest, ∃ f, readChars (bs ++ byte '"' :: rest) = .error f

theorem Settled.front {c : Char} {front : Bytes} (h : Settled bs) (hf : Fronts c front)
    (hs : ∀ cs, Spelling cs bs → Spelling (c :: cs) (front ++ bs)) : Settled (front ++ bs) := by
  rcases h with ⟨cs, hcs⟩ | herr
  · exact .inl ⟨c :: cs, hs cs hcs⟩
  · refine .inr fun rest => ?_
    obtain ⟨f, hfault⟩ := herr rest
    rw [List.append_assoc, hf, hfault]
    exact ⟨f, rfl⟩

/-- Contents either spell characters or are refused. -/
theorem Contents.settled (h : Contents bs) : Settled bs := by
  -- a pair takes two escapes at once, so the induction is on the length
  induction hlen : bs.length using Nat.strongRecOn generalizing bs with
  | ind len ih =>
  subst hlen
  cases h with
  | nil => exact .inl ⟨[], .nil⟩
  | @plain c bs hq hs hc h =>
    obtain ⟨b, bs', hbs, -⟩ := exists_plain hq hs hc
    have hlen : bs.length < (Utf8.encodeChar c ++ bs).length := by
      simp only [hbs, List.length_append, List.length_cons]
      omega
    exact (ih bs.length hlen h rfl).front (fronts_plain hq hs hc) fun cs => .plain hq hs hc
  | @short e c bs he h =>
    have hlen : bs.length < (byte '\\' :: e :: bs).length := by
      simp only [List.length_cons]
      omega
    exact (ih bs.length hlen h rfl).front (fronts_short he) fun cs => .short he
  | @code n ds bs hd h =>
    have hread (rest : Bytes) := readEscape_code hd (bs ++ byte '"' :: rest)
    by_cases ht : isTrailing n = true
    · refine .inr fun rest => ?_
      simp [readChars_of_escape_error ((hread rest).trans (if_pos ht))]
    by_cases hl : isLeading n = true
    · rcases readPair_contents n h with ⟨m, es, bs', rfl, he, hm, h'⟩ | herr
      · have hshort := (ih bs'.length (by simp; omega) h' rfl).front (fronts_pair hd he hl hm)
          fun cs => by simpa using Spelling.pair hd he hl hm
        simpa using hshort
      · refine .inr fun rest => ?_
        obtain ⟨f, hf⟩ := herr rest
        have hescape := hread rest
        rw [if_neg ht, if_pos hl, hf] at hescape
        simp [readChars_of_escape_error hescape]
    · simp only [Bool.not_eq_true] at ht hl
      have hshort := (ih bs.length (by simp; omega) h rfl).front (fronts_code hd hl ht)
        fun cs => by simpa using Spelling.code hd hl ht
      simpa using hshort

/-! ### Passing over a string -/

theorem skipString_plain {ps : Bytes} (hp : ∀ b ∈ ps, isPlain b = true) (rest : Bytes) :
    skipString (ps ++ rest) = skipString rest := by
  induction ps with
  | nil => rfl
  | cons b ps ih =>
    obtain ⟨hb, hps⟩ := List.forall_mem_cons.1 hp
    simp only [isPlain, Bool.and_eq_true, decide_eq_true_eq, ne_eq] at hb
    obtain ⟨⟨hcontrol, hquote⟩, hslash⟩ := hb
    rw [List.cons_append, skipString.eq_def]
    dsimp only
    rw [if_neg hquote, if_neg hslash, if_neg (UInt8.not_lt.2 hcontrol), ih hps]

/-- Contents are passed over up to the closing quote, whether they spell characters or not. -/
theorem Contents.skip (h : Contents bs) (rest : Bytes) :
    skipString (bs ++ byte '"' :: rest) = .ok rest := by
  induction h with
  | nil =>
    rw [List.nil_append, skipString.eq_def]
    exact if_pos rfl
  | plain hq hs hc _ ih =>
    rw [List.append_assoc, skipString_plain fun b hb => isPlain_of_mem_encodeChar hq hs hc hb, ih]
  | short he _ ih =>
    rw [List.cons_append, List.cons_append, skipString.eq_def]
    dsimp only
    rw [if_neg (by decide), if_pos rfl]
    simp only [he, Option.isSome_some, if_true, ih]
  | code hd _ ih =>
    have hu : simpleEscape? (byte 'u') = none := by decide
    rw [List.cons_append, List.cons_append, List.append_assoc, skipString.eq_def]
    dsimp only
    rw [if_neg (by decide), if_pos rfl]
    simp only [hu, Option.isSome_none, Bool.false_eq_true, if_false, ne_eq, not_true_eq_false]
    split
    · next f hf => cases hf.symm.trans (hd.readHex _)
    · next hr =>
      cases hr.symm.trans (hd.readHex _)
      exact ih

/-! ### Numbers -/

/-- Some decimal digits, at least one. -/
def Digits (ds : Bytes) : Prop := ds ≠ [] ∧ ∀ b ∈ ds, isDigit b = true

/-- The integral digits of a number, of which a zero is the only one. -/
def Integral (ds : Bytes) : Prop := Digits ds ∧ (ds.head? = some (byte '0') → ds = [byte '0'])

/-- A fraction, or nothing. -/
inductive Fraction : Bytes → Prop
  | none : Fraction []
  | some {ds : Bytes} (hd : Digits ds) : Fraction (byte '.' :: ds)

/-- An exponent, or nothing. -/
inductive Exponent : Bytes → Prop
  | none : Exponent []
  | some {e : UInt8} {sign ds : Bytes} (he : isExponentMark e = true)
      (hs : sign = [] ∨ sign = [byte '+'] ∨ sign = [byte '-']) (hd : Digits ds) :
      Exponent (e :: (sign ++ ds))

/-- A number of any size. -/
inductive NumberText : Bytes → Prop
  | mk {sign ds fraction exponent : Bytes} (hs : sign = [] ∨ sign = [byte '-'])
      (hd : Integral ds) (hf : Fraction fraction) (he : Exponent exponent) :
      NumberText (sign ++ (ds ++ (fraction ++ exponent)))

/-- No digit follows. -/
def NoDigit (bs : Bytes) : Prop := ∀ b ∈ bs.head?, isDigit b = false

theorem EndsNumber.noDigit (h : EndsNumber bs) : NoDigit bs := fun b hb => (h b hb).1

theorem dropWhile_digits {ds : Bytes} (hd : ∀ b ∈ ds, isDigit b = true) (hr : NoDigit rest) :
    (ds ++ rest).dropWhile isDigit = rest := by
  rw [List.dropWhile_append_of_pos hd]
  cases rest with
  | nil => rfl
  | cons b rest => exact List.dropWhile_cons_of_neg (by simp [hr b rfl])

theorem takeWhile_digits {ds : Bytes} (hd : ∀ b ∈ ds, isDigit b = true) (hr : NoDigit rest) :
    (ds ++ rest).takeWhile isDigit = ds := by
  rw [List.takeWhile_append_of_pos hd]
  cases rest with
  | nil => simp
  | cons b rest => simp [hr b rfl]

theorem not_isDigit_of_isExponentMark (h : isExponentMark b = true) :
    isDigit b = false ∧ b ≠ byte '.' := by
  simp only [isExponentMark, Bool.or_eq_true, decide_eq_true_eq] at h
  rcases h with rfl | rfl <;> decide

theorem Exponent.noDigit {exponent : Bytes} (he : Exponent exponent) (hr : EndsNumber rest) :
    NoDigit (exponent ++ rest) := by
  cases he with
  | none => exact hr.noDigit
  | some he hs hd =>
    rintro _ ⟨⟩
    exact (not_isDigit_of_isExponentMark he).1

theorem Fraction.noDigit {fraction exponent : Bytes} (hf : Fraction fraction)
    (he : Exponent exponent) (hr : EndsNumber rest) : NoDigit (fraction ++ (exponent ++ rest)) := by
  cases hf with
  | none => exact he.noDigit hr
  | some hd =>
    rintro _ ⟨⟩
    decide

theorem skipExponent_append {sign ds : Bytes}
    (hs : sign = [] ∨ sign = [byte '+'] ∨ sign = [byte '-']) (hd : Digits ds) (hr : NoDigit rest) :
    skipExponent (sign ++ (ds ++ rest)) = .ok rest := by
  obtain ⟨hne, hall⟩ := hd
  obtain ⟨b, ds, rfl⟩ := List.exists_cons_of_ne_nil hne
  obtain ⟨hb, hds⟩ := List.forall_mem_cons.1 hall
  have hplus : b ≠ byte '+' := ne_of_isDigit hb (by decide)
  have hminus : b ≠ byte '-' := ne_of_isDigit hb (by decide)
  rcases hs with rfl | rfl | rfl
  · simp [skipExponent, hplus, hminus, hb, dropWhile_digits hds hr]
  · simp [skipExponent, hb, dropWhile_digits hds hr]
  · simp [skipExponent, hb, dropWhile_digits hds hr]

theorem Exponent.skipRest {exponent : Bytes} (he : Exponent exponent) (hr : EndsNumber rest) :
    skipRest (exponent ++ rest) = .ok rest := by
  cases he with
  | none =>
    cases rest with
    | nil => rfl
    | cons b rest =>
      obtain ⟨-, hpoint, hmark⟩ := hr b rfl
      simp [Json.skipRest, hpoint, hmark]
  | some he hs hd =>
    have hpoint := (not_isDigit_of_isExponentMark he).2
    simp [Json.skipRest, hpoint, he, skipExponent_append hs hd hr.noDigit]

theorem Fraction.skipRest {fraction exponent : Bytes} (hf : Fraction fraction)
    (he : Exponent exponent) (hr : EndsNumber rest) :
    skipRest (fraction ++ (exponent ++ rest)) = .ok rest := by
  cases hf with
  | none => exact he.skipRest hr
  | @some ds hd =>
    obtain ⟨hne, hall⟩ := hd
    obtain ⟨b, ds, rfl⟩ := List.exists_cons_of_ne_nil hne
    obtain ⟨hb, hds⟩ := List.forall_mem_cons.1 hall
    -- what follows the digits is passed over as if there were no fraction
    have hrest := he.skipRest hr
    have hdrop := dropWhile_digits hds (he.noDigit hr)
    rw [List.cons_append, Json.skipRest, if_pos rfl, List.cons_append, skipFraction, if_pos hb,
      hdrop]
    cases htail : exponent ++ rest with
    | nil => rw [htail] at hrest; exact hrest
    | cons e tail =>
      rw [htail, Json.skipRest] at hrest
      have hpoint : e ≠ byte '.' := by
        have hstart : EndsNumber (exponent ++ rest) ∨ ∃ e' ∈ (exponent ++ rest).head?,
            isExponentMark e' = true := by
          cases he with
          | none => exact .inl hr
          | some he hs hd => exact .inr ⟨_, rfl, he⟩
        rcases hstart with h | ⟨e', he', hm⟩
        · rw [htail] at h
          exact (h e rfl).2.1
        · rw [htail] at he'
          cases he'
          exact (not_isDigit_of_isExponentMark hm).2
      rwa [if_neg hpoint] at hrest

/-- A number without its sign is passed over. -/
theorem skipNumber_append {ds fraction exponent : Bytes} (hd : Integral ds)
    (hf : Fraction fraction) (he : Exponent exponent) (hr : EndsNumber rest) :
    skipNumber (ds ++ (fraction ++ (exponent ++ rest))) = .ok rest := by
  obtain ⟨⟨hne, hall⟩, hzero⟩ := hd
  obtain ⟨b, ds, rfl⟩ := List.exists_cons_of_ne_nil hne
  obtain ⟨hb, hds⟩ := List.forall_mem_cons.1 hall
  have hrest := hf.skipRest he hr
  have hnd := hf.noDigit he hr
  by_cases hb0 : b = byte '0'
  · obtain rfl : ds = [] := by simpa [hb0] using hzero
    subst hb0
    cases htail : fraction ++ (exponent ++ rest) with
    | nil =>
      rw [htail] at hrest
      exact hrest
    | cons e tail =>
      rw [htail] at hrest hnd
      simp [skipNumber, hnd e rfl, hrest]
  · rw [List.cons_append, skipNumber.eq_def]
    dsimp only
    rw [if_neg hb0, if_pos hb, dropWhile_digits hds hnd, hrest]

end SecretStore.Json
