import SecretStore.Percent

/-!
# Percent-encoded texts are read back

`Percent.decode` undoes `Percent.encode` wherever the percent sign itself is escaped or, if it is
kept, does not happen to stand in front of two digits of base sixteen.

* `decode_encode_append`: bytes none of which is a percent sign that is kept;
* `Escaped`: what a percent sign has to stand in front of to be read as an escape;
* `decode_append_slash`: an escape does not reach over a slash;
* `Unescaped`: texts none of whose percent signs makes an escape;
* `decode_segment`: a text is read back from the segment that it makes.
-/

namespace SecretStore.Percent

open Number (hexValue?)

variable {keep : UInt8 → Bool} {cs rest : List Char}

/-! ### Encoding -/

theorem encode_cons_of_keep {b : UInt8} (h : keep b = true) (bs : Bytes) :
    encode keep (b :: bs) = Char.ofNat b.toNat :: encode keep bs := by
  rw [encode, List.flatMap_cons, if_pos h]
  rfl

theorem encode_cons_of_not_keep {b : UInt8} (h : keep b = false) (bs : Bytes) :
    encode keep (b :: bs) = escape b ++ encode keep bs := by
  rw [encode, List.flatMap_cons, if_neg (by simp [h])]
  rfl

theorem encode_append (keep : UInt8 → Bool) (bs bs' : Bytes) :
    encode keep (bs ++ bs') = encode keep bs ++ encode keep bs' :=
  List.flatMap_append

/-! ### Decoding -/

/-- Two digits of base sixteen, which make an escape of a percent sign in front of them. -/
def Escaped (cs : List Char) : Prop :=
  ∃ a b rest, cs = a :: b :: rest ∧ (hexValue? a).isSome ∧ (hexValue? b).isSome

theorem decode_escape (b : UInt8) (rest : List Char) :
    decode (escape b ++ rest) = b :: decode rest := by
  have hb := b.toNat_lt
  have hhigh := (Number.hexValue?_hexDigit (b.toNat / 16) (by omega)).2
  have hlow := (Number.hexValue?_hexDigit (b.toNat % 16) (by omega)).2
  have hsum : b.toNat / 16 * 16 + b.toNat % 16 = b.toNat := by omega
  rw [escape, List.cons_append, List.cons_append, List.cons_append, List.nil_append, decode]
  simp only [hhigh, hlow, hsum]
  rw [show b.toNat.toUInt8 = b from UInt8.ofNat_toNat]

theorem decode_cons {c : Char} (h : c ≠ '%') (cs : List Char) :
    decode (c :: cs) = decode.byteOf c :: decode cs := by
  rw [decode]
  intro a b rest hc
  exact absurd hc h

/-- A percent sign stands for itself if no escape follows. -/
theorem decode_percent (h : ¬Escaped cs) : decode ('%' :: cs) = 0x25 :: decode cs := by
  match cs with
  | [] => rfl
  | [a] => rfl
  | a :: b :: rest =>
    rw [decode]
    split
    · next ha hb => exact absurd ⟨a, b, rest, rfl, by simp [ha], by simp [hb]⟩ h
    · rfl

theorem byteOf_ofNat : ∀ n < 0x80, decode.byteOf (Char.ofNat n) = n.toUInt8 := by decide

theorem ofNat_ne_percent : ∀ n < 0x80, n ≠ 0x25 → Char.ofNat n ≠ '%' := by decide

/-- Bytes are read back from their encoding, unless they hold a percent sign that is kept. -/
theorem decode_encode_append {bs : Bytes}
    (h : ∀ b ∈ bs, keep b = true → b.toNat < 0x80 ∧ b.toNat ≠ 0x25) (rest : List Char) :
    decode (encode keep bs ++ rest) = bs ++ decode rest := by
  induction bs with
  | nil => rfl
  | cons b bs ih =>
    have ih := ih fun b hb => h b (List.mem_cons_of_mem _ hb)
    cases hk : keep b with
    | false =>
      rw [encode_cons_of_not_keep hk, List.append_assoc, decode_escape, ih, List.cons_append]
    | true =>
      obtain ⟨hascii, hpercent⟩ := h b List.mem_cons_self hk
      rw [encode_cons_of_keep hk, List.cons_append,
        decode_cons (ofNat_ne_percent _ hascii hpercent), ih, byteOf_ofNat _ hascii,
        show b.toNat.toUInt8 = b from UInt8.ofNat_toNat, List.cons_append]

theorem not_escaped_append_slash (h : ¬Escaped cs) (rest : List Char) :
    ¬Escaped (cs ++ '/' :: rest) := by
  have hslash : (hexValue? '/').isSome = false := by decide
  rintro ⟨a, b, rest', heq, ha, hb⟩
  match cs with
  | [] =>
    obtain ⟨rfl, -⟩ := List.cons.inj heq
    simp [hslash] at ha
  | [c] =>
    obtain ⟨-, heq⟩ := List.cons.inj heq
    obtain ⟨rfl, -⟩ := List.cons.inj heq
    simp [hslash] at hb
  | c :: d :: cs =>
    simp only [List.cons_append, List.cons.injEq] at heq
    obtain ⟨rfl, rfl, -⟩ := heq
    exact h ⟨c, d, cs, rfl, ha, hb⟩

/-- An escape does not reach over a slash. -/
theorem decode_append_slash (cs rest : List Char) :
    decode (cs ++ '/' :: rest) = decode cs ++ 0x2F :: decode rest := by
  fun_induction decode cs with
  | case1 a b cs x y hx hy ih =>
    rw [List.cons_append, List.cons_append, List.cons_append, decode]
    simp only [hx, hy, ih, List.cons_append]
  | case2 a b cs hxy ih =>
    have hn : ¬Escaped (a :: b :: cs) := by
      rintro ⟨a', b', rest', heq, ha, hb⟩
      simp only [List.cons.injEq] at heq
      obtain ⟨rfl, rfl, -⟩ := heq
      obtain ⟨x, hx⟩ := Option.isSome_iff_exists.1 ha
      obtain ⟨y, hy⟩ := Option.isSome_iff_exists.1 hb
      exact hxy x y hx hy
    rw [List.cons_append, decode_percent (not_escaped_append_slash hn rest), ih]
    rfl
  | case3 c cs hc ih =>
    by_cases hp : c = '%'
    · subst hp
      have hn : ¬Escaped cs := by
        rintro ⟨a, b, rest', rfl, -, -⟩
        exact hc a b rest' rfl rfl
      rw [List.cons_append, decode_percent (not_escaped_append_slash hn rest), ih]
      rfl
    · rw [List.cons_append, decode_cons hp, ih, List.cons_append]
  | case4 =>
    rw [List.nil_append, decode_cons (by decide)]
    rfl

/-! ### Percent signs that stand for themselves -/

/-- No percent sign stands in front of two digits of base sixteen. -/
def Unescaped (cs : List Char) : Prop := ∀ rest, '%' :: rest <:+ cs → ¬Escaped rest

theorem unescaped_nil : Unescaped [] := by
  intro rest h
  exact absurd (List.suffix_nil.1 h) (List.cons_ne_nil _ _)

theorem unescaped_cons {c : Char} :
    Unescaped (c :: cs) ↔ (c = '%' → ¬Escaped cs) ∧ Unescaped cs := by
  constructor
  · intro h
    refine ⟨?_, fun rest hr => h rest (hr.trans (List.suffix_cons c cs))⟩
    rintro rfl
    exact h cs List.suffix_rfl
  · rintro ⟨hc, hcs⟩ rest hr
    rcases List.suffix_cons_iff.1 hr with heq | hr
    · obtain ⟨rfl, rfl⟩ := List.cons.inj heq
      exact hc rfl
    · exact hcs rest hr

theorem unescaped_of_not_mem (h : '%' ∉ cs) : Unescaped cs := by
  intro rest hr
  exact absurd (hr.subset List.mem_cons_self) h

theorem Escaped.of_prefix {cs ds : List Char} (h : Escaped cs) (hp : cs <+: ds) : Escaped ds := by
  obtain ⟨a, b, rest, rfl, ha, hb⟩ := h
  obtain ⟨tail, rfl⟩ := hp
  exact ⟨a, b, rest ++ tail, rfl, ha, hb⟩

theorem ne_percent_of_hexValue? {c : Char} (h : (hexValue? c).isSome) : c ≠ '%' := by
  rintro rfl
  revert h
  decide

/-- A percent sign in front of a text takes two characters from it if they make an escape. -/
theorem length_decode_percent (cs : List Char) :
    (decode ('%' :: cs)).length ≤ 1 + (decode cs).length ∧
      (Escaped cs → (decode ('%' :: cs)).length < 1 + (decode cs).length) := by
  by_cases h : Escaped cs
  · suffices hlt : (decode ('%' :: cs)).length < 1 + (decode cs).length from
      ⟨Nat.le_of_lt hlt, fun _ => hlt⟩
    obtain ⟨a, b, rest, rfl, ha, hb⟩ := h
    obtain ⟨x, hx⟩ := Option.isSome_iff_exists.1 ha
    obtain ⟨y, hy⟩ := Option.isSome_iff_exists.1 hb
    rw [decode_cons (ne_percent_of_hexValue? ha), decode_cons (ne_percent_of_hexValue? hb), decode]
    simp only [hx, hy, List.length_cons]
    omega
  · rw [decode_percent h, List.length_cons]
    exact ⟨by omega, fun he => absurd he h⟩

/-! ### Segments -/

theorem unreserved_iff {b : UInt8} (h : unreserved b = true) : b.toNat < 0x80 ∧ b.toNat ≠ 0x25 := by
  simp only [unreserved, Bool.or_eq_true, Bool.and_eq_true, decide_eq_true_eq,
    UInt8.le_iff_toNat_le, ← UInt8.toNat_inj] at h
  simp at h
  omega

theorem decode_segment (s : String) : decode (segment s).toList = Bytes.ofString s := by
  have h : decode (encode unreserved (Bytes.ofString s) ++ []) = Bytes.ofString s ++ decode [] :=
    decode_encode_append (fun b _ hb => unreserved_iff hb) []
  rw [List.append_nil] at h
  rw [segment, String.toList_ofList, h]
  exact List.append_nil _

end SecretStore.Percent
