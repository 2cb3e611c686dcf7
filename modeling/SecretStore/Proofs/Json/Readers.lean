import Mathlib.Data.List.Induction
import SecretStore.Proofs.Json.Records
import SecretStore.Proofs.Json.Scanning
import SecretStore.Proofs.Json.WellFormed

/-!
# What readers take

A reader that stands in front of a value of the grammar takes the whole of its text or fails, and
which of the two does not depend on what stands around it. `Yields r d o` says so of one text, and
`Exact r` of all: it is the only fact about a reader that the readers of arrays, maps and records
need.

* `spells_text`, `spells_bool`, `spells_uint32`: which texts of scalars are taken, and for what.
* `Spells.list`: arrays whose items are read by the same reader.
-/

namespace SecretStore.Json

variable {α β : Type} {r : Reader α} {ws sep bs rest d : Bytes} {b : UInt8} {isFirst : Bool}

/-- From this text the reader takes `o`, a value or nothing, whatever stands around it. -/
def Yields (r : Reader α) (d : Bytes) (o : Option α) : Prop :=
  ∀ ⦃ws rest⦄, Blank ws → EndsNumber rest →
    (r (ws ++ (d ++ rest))).toOption = o.map fun a => (a, rest)

/-- A reader that takes the whole text of a value or nothing. -/
def Exact (r : Reader α) : Prop := ∀ ⦃d⦄, WellFormed d → Yields r d (taken r d)

theorem Yields.taken_eq {o : Option α} (h : Yields r d o) : taken r d = o := by
  have hread := h Blank.nil (show EndsNumber [] from nofun)
  rw [List.nil_append, List.append_nil] at hread
  rw [taken, hread, Option.map_map]
  exact Option.map_id' ..

theorem Yields.exact {o : Option α} (h : Yields r d o) : Yields r d (taken r d) := by
  rwa [h.taken_eq]

theorem Takes.yields {v : Value} {a : α} (h : Takes r v a) (hd : Written (.value v) d) :
    Yields r d (some a) := by
  intro ws rest hw hrest
  rw [h hw hd hrest]
  rfl

/-- A reader whose result is wrapped takes the same texts. -/
theorem Exact.map (h : Exact r) (f : α → β) :
    Exact fun bs => (r bs).map fun (a, rest) => (f a, rest) := by
  intro d hd
  refine Yields.exact (o := (taken r d).map f) fun ws rest hw hrest => ?_
  simp only [toOption_map, h hd hw hrest, Option.map_map]
  rfl

theorem taken_map (r : Reader α) (f : α → β) (d : Bytes) :
    taken (fun bs => (r bs).map fun (a, rest) => (f a, rest)) d = (taken r d).map f := by
  simp only [taken, toOption_map, Option.map_map]
  rfl

/-- A text whose first byte a reader refuses. -/
theorem yields_none_of_head {read : UInt8 → Bytes → Except Fault (α × Bytes)}
    (hb : isBlank b = false) (h : ∀ bs, ∃ f, read b bs = .error f) :
    Yields (fun bs => onByte bs read) (b :: bs) none := by
  intro ws rest hw hrest
  simp only [List.cons_append, onByte_append hw hb]
  exact toOption_eq_none_iff.2 (h _)

/-- A reader takes something from the texts that `P` relates to a value only, and this value. -/
structure Spells (r : Reader α) (P : α → Bytes → Prop) : Prop where
  exact : Exact r
  taken_iff : ∀ ⦃d a⦄, WellFormed d → (taken r d = some a ↔ P a d)

theorem Spells.of_cases {P : α → Bytes → Prop}
    (hyields : ∀ ⦃a d⦄, P a d → Yields r d (some a))
    (hcases : ∀ ⦃d⦄, WellFormed d → (∃ a, P a d) ∨ Yields r d none) : Spells r P where
  exact d hd := by
    rcases hcases hd with ⟨a, ha⟩ | hnone
    · exact (hyields ha).exact
    · exact hnone.exact
  taken_iff d a hd := by
    refine ⟨fun htaken => ?_, fun ha => (hyields ha).taken_eq⟩
    rcases hcases hd with ⟨a', ha'⟩ | hnone
    · rw [(hyields ha').taken_eq] at htaken
      cases htaken
      exact ha'
    · rw [hnone.taken_eq] at htaken
      cases htaken

/-! ### Scalars -/

theorem StringText.yields {s : String} (h : StringText s d) : Yields readText d (some s) := by
  obtain ⟨cs, hcs, rfl⟩ := h
  intro ws rest hw hrest
  rw [List.cons_append, readText, onByte_append hw (by decide), if_pos rfl, List.append_assoc,
    List.singleton_append, hcs.read]
  rfl

theorem readText_head (hb : isBlank b = false) (hq : b ≠ byte '"') (bs : Bytes) :
    Yields readText (b :: bs) none :=
  yields_none_of_head hb fun _ => ⟨_, if_neg hq⟩

/-- A value is the text of a string, or no string is taken from it. -/
theorem WellFormed.text_cases (h : WellFormed d) :
    (∃ s, StringText s d) ∨ Yields readText d none := by
  cases h with
  | @string bs h =>
    rcases h.settled with ⟨cs, hcs⟩ | herr
    · exact .inl ⟨String.ofList cs, bs, by rwa [String.toList_ofList], rfl⟩
    · refine .inr fun ws rest hw hrest => ?_
      obtain ⟨f, hf⟩ := herr rest
      rw [List.cons_append, readText, onByte_append hw (by decide), if_pos rfl, List.append_assoc,
        List.singleton_append, readString, hf]
      rfl
  | number h =>
    obtain ⟨b, rest, rfl, rfl | hb⟩ := h.head
    · exact .inr (readText_head (by decide) (by decide) _)
    · exact .inr (readText_head (isBlank_of_isDigit hb) (ne_of_isDigit hb (by decide)) _)
  | null | yes | no | array | object => exact .inr (readText_head (by decide) (by decide) _)

/-- Strings are taken from their texts only. -/
theorem spells_text : Spells readText StringText :=
  .of_cases (fun _ _ => StringText.yields) fun _ => WellFormed.text_cases

/-- The texts of the truth values. -/
inductive BoolText : Bool → Bytes → Prop
  | yes : BoolText true (Utf8.encode ['t', 'r', 'u', 'e'])
  | no : BoolText false (Utf8.encode ['f', 'a', 'l', 's', 'e'])

theorem BoolText.yields {x : Bool} (h : BoolText x d) : Yields readBool d (some x) := by
  cases h with
  | yes =>
    intro ws rest hw hrest
    show (readBool (ws ++ byte 't' :: (Utf8.encode ['r', 'u', 'e'] ++ rest))).toOption = _
    rw [readBool, onByte_append hw (by decide), if_pos rfl, readLiteral_append _ (by decide)]
    rfl
  | no =>
    intro ws rest hw hrest
    show (readBool (ws ++ byte 'f' :: (Utf8.encode ['a', 'l', 's', 'e'] ++ rest))).toOption = _
    rw [readBool, onByte_append hw (by decide), if_neg (by decide), if_pos rfl,
      readLiteral_append _ (by decide)]
    rfl

theorem readBool_head (hb : isBlank b = false) (ht : b ≠ byte 't') (hf : b ≠ byte 'f')
    (bs : Bytes) : Yields readBool (b :: bs) none :=
  yields_none_of_head hb fun _ => ⟨_, by rw [if_neg ht, if_neg hf]⟩

theorem WellFormed.bool_cases (h : WellFormed d) :
    (∃ x, BoolText x d) ∨ Yields readBool d none := by
  cases h with
  | yes => exact .inl ⟨_, .yes⟩
  | no => exact .inl ⟨_, .no⟩
  | number h =>
    obtain ⟨b, rest, rfl, rfl | hb⟩ := h.head
    · exact .inr (readBool_head (by decide) (by decide) (by decide) _)
    · exact .inr (readBool_head (isBlank_of_isDigit hb) (ne_of_isDigit hb (by decide))
        (ne_of_isDigit hb (by decide)) _)
  | null | string | array | object =>
    exact .inr (readBool_head (by decide) (by decide) (by decide) _)

theorem spells_bool : Spells readBool BoolText :=
  .of_cases (fun _ _ => BoolText.yields) fun _ => WellFormed.bool_cases

/-! ### Counters -/

/-- The digits of a natural number. -/
def CounterText (n : Nat) (d : Bytes) : Prop := d = Utf8.encode (Nat.toDigits 10 n)

theorem byte_digitChar : ∀ k < 10, byte (Nat.digitChar k) = (k + 0x30).toUInt8 := by decide

theorem encode_toDigits_of_lt {k : Nat} (hk : k < 10) :
    Utf8.encode (Nat.toDigits 10 k) = [byte (Nat.digitChar k)] := by
  have hascii : ∀ k < 10, (Nat.digitChar k).toNat < 0x80 := by decide
  rw [Nat.toDigits_of_lt_base hk, Utf8.encode_cons, Utf8.encode_nil, List.append_nil,
    encodeChar_of_lt (hascii k hk)]

/-- A digit is that of its value. -/
theorem eq_digitChar (h : isDigit b = true) : ∃ k < 10, b = byte (Nat.digitChar k) := by
  simp only [isDigit, Bool.and_eq_true, decide_eq_true_eq, UInt8.le_iff_toNat_le] at h
  obtain ⟨hl, hu⟩ := h
  have hl' : 0x30 ≤ b.toNat := hl
  have hu' : b.toNat ≤ 0x39 := hu
  refine ⟨b.toNat - 0x30, by omega, ?_⟩
  rw [byte_digitChar _ (by omega), Nat.sub_add_cancel hl']
  exact UInt8.ofNat_toNat.symm

/-- Integral digits are those of their value. -/
theorem Integral.exists_counterText {ds : Bytes} (h : Integral ds) : ∃ n, CounterText n ds := by
  induction ds using List.reverseRecOn with
  | nil => exact absurd rfl h.1.1
  | append_singleton ds b ih =>
    obtain ⟨⟨-, hall⟩, hzero⟩ := h
    obtain ⟨k, hk, rfl⟩ := eq_digitChar (hall b (by simp))
    by_cases hds : ds = []
    · exact ⟨k, by rw [hds, CounterText, encode_toDigits_of_lt hk]; rfl⟩
    · -- no zero is in front, so the digits before the last one are integral and not zero
      have hhead : ds.head? ≠ some (byte '0') := by
        intro hhead
        have hlen := congrArg List.length (hzero (by rw [List.head?_append, hhead]; rfl))
        have hpos := List.length_pos_of_ne_nil hds
        simp only [List.length_append, List.length_singleton] at hlen
        omega
      obtain ⟨n, rfl⟩ := ih ⟨⟨hds, fun b hb => hall b (List.mem_append_left _ hb)⟩,
        fun h0 => absurd h0 hhead⟩
      have hn : 0 < n := by
        rcases Nat.eq_zero_or_pos n with rfl | hn
        · exact absurd (by decide) hhead
        · exact hn
      refine ⟨10 * n + k, ?_⟩
      rw [CounterText, ← Nat.toDigits_append_toDigits (by decide) hn hk, Utf8.encode_append,
        encode_toDigits_of_lt hk]

/-- Digits whose value does not fit are not all gathered. -/
theorem gather_full {cs : List Char} (hd : ∀ c ∈ cs, c.isDigit = true) {n : Nat}
    (hn : n ≤ maxCoefficient) (hfit : maxCoefficient < Nat.ofDigitChars 10 cs n) :
    (gather n (cs.map byte)).full = true := by
  -- once a digit did not fit, no other one is looked at
  have hstop : ∀ (ds : Bytes) (g : Gathered), g.full = true →
      (ds.foldl Gathered.step g).full = true := by
    intro ds
    induction ds with
    | nil => exact fun g hg => hg
    | cons b ds ih => exact fun g hg => ih _ (by simp [Gathered.step, hg])
  rw [gather_eq_foldl]
  generalize 0 = taken
  induction cs generalizing n taken with
  | nil => exact absurd hfit (Nat.not_lt.2 hn)
  | cons c cs ih =>
    have hu := (Char.isDigit_iff_toNat.1 (hd c List.mem_cons_self)).2
    have hc : (byte c).toNat = c.toNat := toNat_byte (Nat.lt_of_le_of_lt hu (by decide))
    have hstep : n * 10 + ((byte c).toNat - 0x30) = 10 * n + (c.toNat - '0'.toNat) := by
      rw [hc, Nat.mul_comm]
      rfl
    rw [Nat.ofDigitChars_cons] at hfit
    rw [List.map_cons, List.foldl_cons, Gathered.step, hstep]
    by_cases hnext : 10 * n + (c.toNat - '0'.toNat) > maxCoefficient
    · simp only [Bool.false_eq_true, if_false, if_pos hnext]
      exact hstop _ _ rfl
    · simp only [Bool.false_eq_true, if_false, if_neg hnext]
      exact ih (fun c hc => hd c (List.mem_cons_of_mem _ hc)) (Nat.not_lt.1 hnext) hfit _

/-- No natural number is read. -/
def NotCounted (x : Except Fault (Number × Bytes)) : Prop :=
  ∀ n after, x ≠ .ok (.unsigned n, after)

section NotCounted

variable {negative full : Bool} {coefficient shift : Nat} {exponent : Int}

theorem notCounted_error (f : Fault) : NotCounted (.error f) := nofun

theorem notCounted_float (x : Binary64) (after : Bytes) :
    NotCounted (.ok (.float x, after)) := nofun

theorem notCounted_scaled : NotCounted (scaled negative coefficient exponent rest) := by
  unfold scaled
  split
  · exact notCounted_float _ _
  · exact notCounted_error _

theorem notCounted_exponent : NotCounted (readExponent negative coefficient exponent bs) := by
  unfold readExponent
  -- each way it ends is a fault or floating point
  repeat' split
  all_goals first | exact notCounted_error _ | exact notCounted_float _ _ | exact notCounted_scaled

theorem notCounted_fraction : NotCounted (readFraction negative coefficient exponent bs) := by
  unfold readFraction
  dsimp only
  split
  · split <;> exact notCounted_error _
  split
  · split
    · exact notCounted_exponent
    · exact notCounted_scaled
  · exact notCounted_scaled

/-- Behind a fraction or an exponent mark there is no natural number. -/
theorem notCounted_rest (hb : b = byte '.' ∨ isExponentMark b = true) :
    NotCounted (readRest negative coefficient shift full (b :: bs)) := by
  unfold readRest
  dsimp only
  split
  · exact notCounted_fraction
  · next hpoint =>
    rw [if_pos (hb.resolve_left hpoint)]
    exact notCounted_exponent

theorem notCounted_negative : NotCounted (readRest true coefficient shift full bs) := by
  have hwhole : NotCounted (if full then scaled true coefficient shift bs
      else .ok (integer true coefficient, bs)) := by
    split
    · exact notCounted_scaled
    · unfold integer
      rw [if_neg (by decide)]
      split
      · exact notCounted_float _ _
      · exact nofun
  unfold readRest
  dsimp only
  split
  · split
    · exact notCounted_fraction
    split
    · exact notCounted_exponent
    · exact hwhole
  · exact hwhole

end NotCounted

theorem CounterText.yields {n : Nat} (h : CounterText n d) (hn : n < 2 ^ 32) :
    Yields readUInt32 d (some (UInt32.ofNat n)) := by
  intro ws rest hw hrest
  have hread := readNumber_toDigits (show n ≤ maxCoefficient by unfold maxCoefficient; omega) hrest
  obtain ⟨b, bs, hbs, hb⟩ := exists_digit n
  rw [hbs, List.cons_append] at hread
  rw [h, hbs, List.cons_append, readUInt32, onByte_append hw (isBlank_of_isDigit hb),
    if_neg (ne_of_isDigit hb (by decide)), if_pos hb]
  dsimp only
  rw [hread]
  simp only [if_pos hn]
  rfl

theorem readUInt32_minus (h : NotCounted (readNumber true bs)) (hw : Blank ws) :
    (readUInt32 (ws ++ byte '-' :: bs)).toOption = none := by
  rw [readUInt32, onByte_append hw (by decide), if_pos rfl]
  dsimp only
  split
  · rfl
  · next hread => exact absurd hread (h _ _)
  · rfl
  · rfl

theorem readUInt32_digit (hb : isDigit b = true)
    (h : ∀ n after, readNumber false (b :: bs) = .ok (.unsigned n, after) → 2 ^ 32 ≤ n)
    (hw : Blank ws) : (readUInt32 (ws ++ b :: bs)).toOption = none := by
  rw [readUInt32, onByte_append hw (isBlank_of_isDigit hb),
    if_neg (ne_of_isDigit hb (by decide)), if_pos hb]
  dsimp only
  split
  · rfl
  · next hread =>
    rw [if_neg (Nat.not_lt.2 (h _ _ hread))]
    rfl
  · rfl
  · rfl

/-- Digits whose value takes more than 32 bits are refused: as a value that is too large, or as
floating point. -/
theorem CounterText.refused {n : Nat} (h : CounterText n d) (hn : 2 ^ 32 ≤ n) (hd : Integral d) :
    Yields readUInt32 d none := by
  intro ws rest hw hrest
  have hlarge : ∀ m after, readNumber false (d ++ rest) = .ok (.unsigned m, after) →
      2 ^ 32 ≤ m := by
    intro m after hread
    by_cases hfit : n ≤ maxCoefficient
    · rw [h, readNumber_toDigits hfit hrest] at hread
      cases hread
      exact hn
    · have hdigits : ∀ c ∈ Nat.toDigits 10 n, c.isDigit = true := fun c => isDigit_of_mem_toDigits
      have hvalue : Nat.ofDigitChars 10 (Nat.toDigits 10 n) 0 = n :=
        Nat.ofDigitChars_toDigits (by decide) (by decide)
      have hfull : (gather 0 d).full = true := by
        rw [h, encode_of_isDigit hdigits]
        exact gather_full hdigits (Nat.zero_le _) (by omega)
      rw [readNumber_integral hd hrest.noDigit, hfull] at hread
      cases rest with
      | nil => exact absurd hread (notCounted_scaled _ _)
      | cons e rest =>
        obtain ⟨-, hpoint, hmark⟩ := hrest e rfl
        rw [readRest] at hread
        simp only [hpoint, hmark, Bool.false_eq_true, if_false, if_true] at hread
        exact absurd hread (notCounted_scaled _ _)
  obtain ⟨b, bs, rfl⟩ := List.exists_cons_of_ne_nil hd.1.1
  exact readUInt32_digit (hd.1.2 b List.mem_cons_self) hlarge hw

/-- A number is a counter, or no counter is taken from it. -/
theorem NumberText.counter_cases (h : NumberText d) :
    (∃ n < 2 ^ 32, CounterText n d) ∨ Yields readUInt32 d none := by
  cases h with
  | @mk sign ds fraction exponent hs hd hf he =>
    rcases hs with rfl | rfl
    · by_cases htail : fraction ++ exponent = []
      · obtain ⟨n, hn⟩ := hd.exists_counterText
        rw [htail, List.nil_append, List.append_nil]
        by_cases hlt : n < 2 ^ 32
        · exact .inl ⟨n, hlt, hn⟩
        · exact .inr (hn.refused (Nat.not_lt.1 hlt) hd)
      · -- a fraction or an exponent follows the digits
        refine .inr fun ws rest hw hrest => ?_
        have hnone : NotCounted (readNumber false (ds ++ (fraction ++ (exponent ++ rest)))) := by
          rw [readNumber_integral hd (hf.noDigit he hrest)]
          cases hf with
          | some => exact notCounted_rest (.inl rfl)
          | none =>
            cases he with
            | none => exact absurd rfl htail
            | some he => exact notCounted_rest (.inr he)
        obtain ⟨b, ds, rfl⟩ := List.exists_cons_of_ne_nil hd.1.1
        simp only [List.nil_append, List.append_assoc, List.cons_append] at hnone ⊢
        exact readUInt32_digit (hd.1.2 b List.mem_cons_self)
          (fun n after h => absurd h (hnone _ _)) hw
    · refine .inr fun ws rest hw hrest => ?_
      simp only [List.append_assoc, List.cons_append, List.nil_append]
      refine readUInt32_minus ?_ hw
      rw [readNumber_integral hd (hf.noDigit he hrest)]
      exact notCounted_negative

theorem readUInt32_head (hb : isBlank b = false) (hm : b ≠ byte '-') (hd : isDigit b = false)
    (bs : Bytes) : Yields readUInt32 (b :: bs) none :=
  yields_none_of_head hb fun _ => ⟨_, by rw [if_neg hm, if_neg (by simp [hd])]⟩

theorem WellFormed.counter_cases (h : WellFormed d) :
    (∃ n < 2 ^ 32, CounterText n d) ∨ Yields readUInt32 d none := by
  cases h with
  | number h => exact h.counter_cases
  | null | yes | no | string | array | object =>
    exact .inr (readUInt32_head (by decide) (by decide) (by decide) _)

/-- Counters are taken from the digits of a number of 32 bits only, and are that number. -/
theorem spells_uint32 : Spells readUInt32 fun n => CounterText n.toNat := by
  refine .of_cases (fun n d h => ?_) fun d h => ?_
  · have hyields := h.yields n.toNat_lt
    rwa [UInt32.ofNat_toNat] at hyields
  · rcases h.counter_cases with ⟨n, hn, hd⟩ | hnone
    · exact .inl ⟨UInt32.ofNat n, by rwa [UInt32.toNat_ofNat_of_lt' hn]⟩
    · exact .inr hnone

/-! ### Arrays -/

theorem nextItem_text (hs : Separator isFirst sep) (hd : WellFormed d) :
    nextItem isFirst (sep ++ (d ++ rest)) = .ok (.more (d ++ rest)) := by
  obtain ⟨b, tail, rfl, hblank, hend, -⟩ := hd.head
  exact nextItem_more hs hblank hend

/-- A reader that stands in front of a text, with something behind it. -/
theorem Exact.append (hr : Exact r) (hd : WellFormed d) (hrest : EndsNumber rest) :
    (r (d ++ rest)).toOption = (taken r d).map fun a => (a, rest) :=
  hr hd Blank.nil hrest

/-- The items of an array are taken one after another. -/
theorem readItems_text (hr : Exact r) {ds : List Bytes} (h : ItemsText isFirst ds bs)
    (hd : ∀ d ∈ ds, WellFormed d) {fuel : Nat} (hfuel : bs.length ≤ fuel) (rest : Bytes) :
    (readItems r fuel isFirst (bs ++ rest)).toOption =
      (ds.mapM (taken r)).map fun as => (as, rest) := by
  obtain ⟨k, rfl⟩ : ∃ k, fuel = k + 1 := ⟨fuel - 1, by have := h.length_pos hd; omega⟩
  induction h generalizing k with
  | nil hw =>
    rw [readItems, List.append_assoc, List.singleton_append, nextItem_finished hw]
    rfl
  | @cons isFirst sep d bs ds hs h ih =>
    obtain ⟨hd', hds⟩ := List.forall_mem_cons.1 hd
    have hitem := hr.append hd' (h.endsNumber rest)
    have hlen := hd'.length_pos
    have hlen' := h.length_pos hds
    simp only [List.length_append] at hfuel
    obtain ⟨k, rfl⟩ : ∃ j, k = j + 1 := ⟨k - 1, by omega⟩
    have hitems := ih hds k (by omega)
    rw [readItems, List.append_assoc, List.append_assoc, nextItem_text hs hd']
    cases ht : taken r d with
    | none =>
      rw [ht] at hitem
      obtain ⟨f, hf⟩ := toOption_eq_none_iff.1 hitem
      simp [hf, ht, Except.toOption]
    | some a =>
      rw [ht] at hitem
      simp only [toOption_eq_some_iff.1 hitem, toOption_map, hitems, List.mapM_cons, ht]
      cases ds.mapM (taken r) <;> rfl

theorem ArrayText.yields_list (hr : Exact r) {ds : List Bytes} (h : ArrayText ds d) :
    Yields (readList r) d (ds.mapM (taken r)) := by
  obtain ⟨bs, hi, hd, rfl⟩ := h
  intro ws rest hw hrest
  rw [List.cons_append, readList, onByte_append hw (by decide), if_pos rfl]
  refine readItems_text hr hi hd ?_ rest
  rw [List.length_append]
  omega

/-- A value is an array, or no list is taken from it. -/
theorem WellFormed.list_cases (h : WellFormed d) :
    (∃ ds, ArrayText ds d) ∨ Yields (readList r) d none := by
  have hhead {b : UInt8} (bs : Bytes) (hb : isBlank b = false) (h : b ≠ byte '[') :
      Yields (readList r) (b :: bs) none := yields_none_of_head hb fun _ => ⟨_, if_neg h⟩
  rcases h.bracket_cases with harray | ⟨ms, bs, -, -, rfl⟩ | ⟨b, bs, rfl, hb, h, -⟩
  · exact .inl harray
  · exact .inr (hhead bs (by decide) (by decide))
  · exact .inr (hhead bs hb h)

/-- The text of an array whose items have these texts. -/
def ListText (P : α → Bytes → Prop) (as : List α) (d : Bytes) : Prop :=
  ∃ ds, ArrayText ds d ∧ List.Forall₂ P as ds

theorem Spells.mapM_iff {P : α → Bytes → Prop} (h : Spells r P) {ds : List Bytes}
    (hd : ∀ d ∈ ds, WellFormed d) {as : List α} :
    ds.mapM (taken r) = some as ↔ List.Forall₂ P as ds := by
  induction ds generalizing as with
  | nil => simp [eq_comm]
  | cons d ds ih =>
    obtain ⟨hd', hds⟩ := List.forall_mem_cons.1 hd
    simp only [List.mapM_cons, Option.bind_eq_bind, Option.bind_eq_some_iff, h.taken_iff hd',
      ih hds, List.forall₂_cons_right_iff]
    constructor
    · rintro ⟨a, ha, as, has, ⟨⟩⟩
      exact ⟨a, as, ha, has, rfl⟩
    · rintro ⟨a, as, ha, has, rfl⟩
      exact ⟨a, ha, as, has, rfl⟩

theorem Spells.list {P : α → Bytes → Prop} (h : Spells r P) :
    Spells (readList r) (ListText P) where
  exact d hd := by
    rcases hd.list_cases with ⟨ds, hds⟩ | hnone
    · exact (hds.yields_list h.exact).exact
    · exact hnone.exact
  taken_iff d as hd := by
    have hiff {ds : List Bytes} (harray : ArrayText ds d) :
        taken (readList r) d = some as ↔ List.Forall₂ P as ds := by
      rw [(harray.yields_list h.exact).taken_eq, h.mapM_iff harray.choose_spec.2.1]
    constructor
    · intro htaken
      rcases hd.list_cases (r := r) with ⟨ds, hds⟩ | hnone
      · exact ⟨ds, hds, (hiff hds).1 htaken⟩
      · rw [hnone.taken_eq] at htaken
        cases htaken
    · rintro ⟨ds, hds, has⟩
      exact (hiff hds).2 has

end SecretStore.Json
