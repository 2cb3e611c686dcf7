import Mathlib.Data.String.Basic
import SecretStore.Text.Utf8

/-!
# Text and its bytes

* `decode?_eq_some_iff`: a character has one spelling only, so bytes are read as a text exactly if
  they are what is written for it.
* `encode_lt_encode_iff`: the order of texts by their characters is the order by their bytes.
-/

namespace SecretStore

namespace Utf8

/-! ### One spelling -/

theorem toNat_ofNat {n : Nat} (h : n.isValidChar) : (Char.ofNat n).toNat = n := by
  rw [Char.ofNat, dif_pos h]
  rfl

theorem eq_toUInt8 {a : UInt8} {n : Nat} (h : a.toNat = n) : a = n.toUInt8 := by
  rw [← h, Nat.toUInt8, UInt8.ofNat_toNat]

theorem continuation?_eq_some {b : UInt8} {x : Nat} (h : continuation? b = some x) :
    b.toNat = 0x80 + x ∧ x < 0x40 := by
  rw [continuation?, Option.ite_none_right_eq_some] at h
  obtain ⟨hb, hx⟩ := h
  have := Option.some.inj hx
  omega

theorem scalar?_eq_some {least n : Nat} {c : Char} (h : scalar? least n = some c) :
    c.toNat = n ∧ least ≤ n := by
  rw [scalar?, Option.ite_none_right_eq_some] at h
  obtain ⟨⟨hleast, hvalid⟩, hc⟩ := h
  rw [← Option.some.inj hc, toNat_ofNat hvalid]
  exact ⟨rfl, hleast⟩

/-- What is read as a character is what is written for it. -/
theorem eq_encodeChar_append {bs rest : Bytes} {c : Char} (h : next? bs = some (c, rest)) :
    bs = encodeChar c ++ rest := by
  unfold next? at h
  split at h
  · cases h
  next a tail =>
  simp only at h
  split at h
  · next ha =>
    obtain ⟨rfl, rfl⟩ := Prod.mk.inj (Option.some.inj h)
    have hn : (Char.ofNat a.toNat).toNat = a.toNat := toNat_ofNat (.inl (by omega))
    simp only [encodeChar, hn, if_pos ha]
    rw [← eq_toUInt8 rfl, List.singleton_append]
  split at h
  · cases h
  split at h
  · split at h
    · next b tail =>
      simp only [Option.bind_eq_bind, Option.bind_eq_some_iff, Option.pure_def, Option.some.injEq,
        Prod.mk.injEq] at h
      obtain ⟨x, hx, c, hc, rfl, rfl⟩ := h
      obtain ⟨hb, hx⟩ := continuation?_eq_some hx
      obtain ⟨hn, hleast⟩ := scalar?_eq_some hc
      simp only [encodeChar, if_neg (show ¬ c.toNat < 0x80 by omega),
        if_pos (show c.toNat < 0x800 by omega), List.cons_append, List.nil_append]
      rw [← eq_toUInt8 (a := a) (by omega), ← eq_toUInt8 (a := b) (by omega)]
    · cases h
  split at h
  · split at h
    · next b b' tail =>
      simp only [Option.bind_eq_bind, Option.bind_eq_some_iff, Option.pure_def, Option.some.injEq,
        Prod.mk.injEq] at h
      obtain ⟨x, hx, y, hy, c, hc, rfl, rfl⟩ := h
      obtain ⟨hb, hx⟩ := continuation?_eq_some hx
      obtain ⟨hb', hy⟩ := continuation?_eq_some hy
      obtain ⟨hn, hleast⟩ := scalar?_eq_some hc
      simp only [encodeChar, if_neg (show ¬ c.toNat < 0x80 by omega),
        if_neg (show ¬ c.toNat < 0x800 by omega), if_pos (show c.toNat < 0x10000 by omega),
        List.cons_append, List.nil_append]
      rw [← eq_toUInt8 (a := a) (by omega), ← eq_toUInt8 (a := b) (by omega),
        ← eq_toUInt8 (a := b') (by omega)]
    · cases h
  split at h
  · split at h
    · next b b' b'' tail =>
      simp only [Option.bind_eq_bind, Option.bind_eq_some_iff, Option.pure_def, Option.some.injEq,
        Prod.mk.injEq] at h
      obtain ⟨x, hx, y, hy, z, hz, c, hc, rfl, rfl⟩ := h
      obtain ⟨hb, hx⟩ := continuation?_eq_some hx
      obtain ⟨hb', hy⟩ := continuation?_eq_some hy
      obtain ⟨hb'', hz⟩ := continuation?_eq_some hz
      obtain ⟨hn, hleast⟩ := scalar?_eq_some hc
      simp only [encodeChar, if_neg (show ¬ c.toNat < 0x80 by omega),
        if_neg (show ¬ c.toNat < 0x800 by omega), if_neg (show ¬ c.toNat < 0x10000 by omega),
        List.cons_append, List.nil_append]
      rw [← eq_toUInt8 (a := a) (by omega), ← eq_toUInt8 (a := b) (by omega),
        ← eq_toUInt8 (a := b') (by omega), ← eq_toUInt8 (a := b'') (by omega)]
    · cases h
  · cases h

theorem decode?_of_next?_eq_some {bs rest : Bytes} {c : Char} (h : next? bs = some (c, rest)) :
    decode? bs = (decode? rest).map (c :: ·) := by
  rw [decode?]
  split
  · next h' =>
    obtain ⟨rfl, rfl⟩ := Prod.mk.inj (Option.some.inj (h.symm.trans h'))
    rfl
  · next h' => exact absurd (h.symm.trans h') (Option.some_ne_none _)

theorem decode?_of_next?_eq_none {bs : Bytes} (h : next? bs = none) :
    decode? bs = if bs.isEmpty then some [] else none := by
  rw [decode?]
  split
  · next h' => exact absurd (h'.symm.trans h) (Option.some_ne_none _)
  · rfl

theorem encode_of_decode?_eq_some {bs : Bytes} {cs : List Char} (h : decode? bs = some cs) :
    bs = encode cs := by
  induction bs using decode?.induct generalizing cs with
  | case1 bs c rest hnext _ ih =>
    rw [decode?_of_next?_eq_some hnext] at h
    obtain ⟨ds, hds, rfl⟩ := Option.map_eq_some_iff.1 h
    rw [encode_cons, ← ih hds]
    exact eq_encodeChar_append hnext
  | case2 bs hnone hempty =>
    rw [decode?_of_next?_eq_none hnone, if_pos hempty] at h
    rw [List.isEmpty_iff.1 hempty, ← Option.some.inj h, encode_nil]
  | case3 bs hnone hempty =>
    rw [decode?_of_next?_eq_none hnone, if_neg hempty] at h
    cases h

/-- Bytes are read as a text exactly if they are what is written for it. -/
theorem decode?_eq_some_iff {bs : Bytes} {cs : List Char} :
    decode? bs = some cs ↔ bs = encode cs := by
  refine ⟨encode_of_decode?_eq_some, ?_⟩
  rintro rfl
  exact decode?_encode cs

/-! ### The order of texts -/

theorem cons_lt_cons {m n : Nat} {xs ys : Bytes} (hm : m < 256) (hn : n < 256) (hle : m ≤ n)
    (hxs : m = n → xs < ys) : m.toUInt8 :: xs < n.toUInt8 :: ys := by
  rw [List.cons_lt_cons_iff]
  rcases Nat.lt_or_eq_of_le hle with hlt | heq
  · left
    rwa [UInt8.lt_iff_toNat_lt, toNat_toUInt8 hm, toNat_toUInt8 hn]
  · exact .inr ⟨congrArg _ heq, hxs heq⟩

/-- Of two characters the one that comes first is the one whose bytes come first, whatever follows
them. -/
theorem encodeChar_append_lt {c d : Char} (h : c.toNat < d.toNat) (xs ys : Bytes) :
    encodeChar c ++ xs < encodeChar d ++ ys := by
  have hd := toNat_lt d
  have hbyte {m n : Nat} {xs ys : Bytes} (hle : m ≤ n) (hxs : m = n → xs < ys)
      (hn : n < 256 := by omega) : m.toUInt8 :: xs < n.toUInt8 :: ys :=
    cons_lt_cons (Nat.lt_of_le_of_lt hle hn) hn hle hxs
  -- a longer spelling has a greater first byte; in spellings of one length the first bytes that
  -- are different decide
  simp only [encodeChar]
  split_ifs
  all_goals try omega
  all_goals simp only [List.cons_append, List.nil_append]
  all_goals try exact hbyte (by omega) fun _ => by omega
  · exact hbyte (by omega) fun _ => hbyte (by omega) fun _ => by omega
  · exact hbyte (by omega) fun _ => hbyte (by omega) fun _ => hbyte (by omega) fun _ => by omega
  · exact hbyte (by omega) fun _ => hbyte (by omega) fun _ => hbyte (by omega) fun _ =>
      hbyte (by omega) fun _ => by omega

theorem encodeChar_ne_nil (c : Char) : encodeChar c ≠ [] := by
  simp only [encodeChar]
  split_ifs <;> exact List.cons_ne_nil _ _

theorem encode_lt_encode {cs ds : List Char} (h : cs < ds) : encode cs < encode ds := by
  induction h with
  | @nil d ds =>
    obtain ⟨b, bs, hd⟩ := List.exists_cons_of_ne_nil (encodeChar_ne_nil d)
    rw [encode_cons, hd]
    exact List.Lex.nil
  | rel h => exact encodeChar_append_lt (Char.lt_def.1 h) _ _
  | cons _ ih => exact List.append_left_lt ih

/-- The order of texts by their characters is the order by their bytes. -/
theorem encode_lt_encode_iff {cs ds : List Char} : encode cs < encode ds ↔ cs < ds := by
  refine ⟨fun h => ?_, encode_lt_encode⟩
  rcases lt_trichotomy cs ds with hlt | rfl | hgt
  · exact hlt
  · exact absurd h (List.lt_irrefl _)
  · exact absurd h (List.lt_asymm (encode_lt_encode hgt))

end Utf8

namespace Bytes

theorem ofString_lt_ofString_iff {s t : String} : ofString s < ofString t ↔ s < t := by
  rw [ofString, ofString, Utf8.encode_lt_encode_iff, String.lt_iff_toList_lt]

theorem toString?_eq_some_iff {bs : Bytes} {s : String} :
    toString? bs = some s ↔ bs = ofString s := by
  rw [toString?, ofString, Option.map_eq_some_iff]
  constructor
  · rintro ⟨cs, hcs, rfl⟩
    rw [Utf8.decode?_eq_some_iff.1 hcs, String.toList_ofList]
  · rintro rfl
    exact ⟨s.toList, Utf8.decode?_encode _, String.ofList_toList⟩

end Bytes

end SecretStore
