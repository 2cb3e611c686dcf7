import Mathlib.Tactic.SplitIfs
import Mathlib.Tactic.ByContra
import SecretStore.Net.Url
import SecretStore.Proofs.Percent

/-!
# Paths of addresses

How the path of an address comes from the text behind a host: it is cut into segments, the
characters that may not stand in a path are percent-encoded, and dot segments are resolved.

* `decode_escape_of_unescaped`, `length_decode_escape`: what is read back of an encoded path.
* `pathText_split`: cutting at slashes and joining again changes nothing.
* `resolve_of_plain`, `weight_resolve`: dot segments only ever shorten a path.
-/

namespace SecretStore

theorem Utf8.encode_injective {cs ds : List Char} (h : Utf8.encode cs = Utf8.encode ds) :
    cs = ds := by
  have hd := congrArg Utf8.decode? h
  simpa only [Utf8.decode?_encode, Option.some.injEq] using hd

/-- A character is one byte, or all its bytes are outside ASCII. -/
theorem Utf8.encodeChar_cases (c : Char) :
    (c.toNat < 0x80 ∧ Utf8.encodeChar c = [c.toNat.toUInt8]) ∨
      ∃ b bs, Utf8.encodeChar c = b :: bs ∧ ∀ x ∈ b :: bs, 0x80 ≤ x.toNat := by
  have hc := Utf8.toNat_lt c
  have hbyte {n : Nat} (hl : 0x80 ≤ n) (hu : n < 256) : 0x80 ≤ n.toUInt8.toNat := by
    rwa [Utf8.toNat_toUInt8 hu]
  simp only [Utf8.encodeChar]
  split
  · next h => exact .inl ⟨h, rfl⟩
  right
  split
  · refine ⟨_, _, rfl, ?_⟩
    simp only [List.forall_mem_cons, List.not_mem_nil, false_implies, implies_true, and_true]
    exact ⟨hbyte (by omega) (by omega), hbyte (by omega) (by omega)⟩
  split
  · refine ⟨_, _, rfl, ?_⟩
    simp only [List.forall_mem_cons, List.not_mem_nil, false_implies, implies_true, and_true]
    exact ⟨hbyte (by omega) (by omega), hbyte (by omega) (by omega), hbyte (by omega) (by omega)⟩
  · refine ⟨_, _, rfl, ?_⟩
    simp only [List.forall_mem_cons, List.not_mem_nil, false_implies, implies_true, and_true]
    exact ⟨hbyte (by omega) (by omega), hbyte (by omega) (by omega), hbyte (by omega) (by omega),
      hbyte (by omega) (by omega)⟩

namespace Net

/-! ### Segments between separators -/

section Split

variable {separator c : Char} {cs : List Char}

theorem splitOn_cons_self (separator : Char) (cs : List Char) :
    (separator :: cs).splitOn separator = [] :: cs.splitOn separator := by
  rw [List.splitOn_cons_eq_if_modifyHead, if_pos (beq_self_eq_true separator)]

/-- A character that is no separator belongs to the first part. -/
theorem splitOn_cons_of_ne (h : c ≠ separator) (cs : List Char) :
    ∃ part rest, cs.splitOn separator = part :: rest ∧
      (c :: cs).splitOn separator = (c :: part) :: rest := by
  obtain ⟨part, rest, hs⟩ := List.exists_cons_of_ne_nil (List.splitOn_ne_nil separator cs)
  refine ⟨part, rest, hs, ?_⟩
  rw [List.splitOn_cons_eq_if_modifyHead, if_neg (by simpa using h), hs, List.modifyHead_cons]

theorem prefix_of_splitOn_eq_cons {part : List Char} {rest : List (List Char)}
    (h : cs.splitOn separator = part :: rest) : part <+: cs := by
  induction cs generalizing part rest with
  | nil =>
    obtain ⟨rfl, -⟩ := List.cons.inj h
    exact List.nil_prefix
  | cons c cs ih =>
    by_cases hc : c = separator
    · subst hc
      rw [splitOn_cons_self] at h
      obtain ⟨rfl, -⟩ := List.cons.inj h
      exact List.nil_prefix
    · obtain ⟨part', rest', hs, hcs⟩ := splitOn_cons_of_ne hc cs
      rw [hcs] at h
      obtain ⟨rfl, rfl⟩ := List.cons.inj h
      exact List.cons_prefix_cons.2 ⟨rfl, ih hs⟩

theorem unescaped_of_mem_splitOn (h : Percent.Unescaped cs) :
    ∀ s ∈ cs.splitOn separator, Percent.Unescaped s := by
  induction cs with
  | nil => exact List.forall_mem_singleton.2 Percent.unescaped_nil
  | cons c cs ih =>
    obtain ⟨hpercent, hcs⟩ := Percent.unescaped_cons.1 h
    by_cases hc : c = separator
    · subst hc
      rw [splitOn_cons_self]
      exact List.forall_mem_cons.2 ⟨Percent.unescaped_nil, ih hcs⟩
    · obtain ⟨part, rest, hs, hcons⟩ := splitOn_cons_of_ne hc cs
      have ih := ih hcs
      rw [hs, List.forall_mem_cons] at ih
      rw [hcons, List.forall_mem_cons]
      refine ⟨Percent.unescaped_cons.2 ⟨fun heq hpart => ?_, ih.1⟩, ih.2⟩
      exact hpercent heq (hpart.of_prefix (prefix_of_splitOn_eq_cons hs))

end Split

namespace Url

open Percent
open Number (hexValue?)

variable {c : Char} {cs s : List Char}

/-! ### Percent-encoding in paths -/

/-- A character that stays as it is in a path. -/
def Kept (c : Char) : Prop := c.toNat < 0x80 ∧ keepPath c.toNat.toUInt8 = true

instance : DecidablePred Kept := fun _ => inferInstanceAs (Decidable (_ ∧ _))

theorem toNat_lt_of_keepPath {b : UInt8} (h : keepPath b = true) : b.toNat < 0x7F := by
  simp only [keepPath, Bool.and_eq_true, decide_eq_true_eq] at h
  exact UInt8.lt_iff_toNat_lt.1 h.1.2

theorem Kept.lt_toNat (h : Kept c) : 0x20 < c.toNat := by
  obtain ⟨hc, hk⟩ := h
  simp only [keepPath, Bool.and_eq_true, decide_eq_true_eq] at hk
  have hlt := UInt8.lt_iff_toNat_lt.1 hk.1.1
  rwa [Utf8.toNat_toUInt8 (by omega)] at hlt

theorem kept_of_hexValue? (h : (hexValue? c).isSome) : Kept c := by
  have hall : ∀ n < 0x80, (hexValue? (Char.ofNat n)).isSome → keepPath n.toUInt8 = true := by decide
  have hc : c.toNat < 0x80 := by
    unfold hexValue? at h
    by_contra hc
    simp [show ¬c.toNat ≤ 0x39 by omega, show ¬c.toNat ≤ 0x46 by omega,
      show ¬c.toNat ≤ 0x66 by omega] at h
  exact ⟨hc, hall c.toNat hc (by rwa [Char.ofNat_toNat])⟩

theorem escape_append (cs ds : List Char) :
    escape keepPath (cs ++ ds) = escape keepPath cs ++ escape keepPath ds := by
  rw [escape, Utf8.encode_append, encode_append]
  rfl

theorem escape_cons_of_kept (h : Kept c) (cs : List Char) :
    escape keepPath (c :: cs) = c :: escape keepPath cs := by
  have hchar : Utf8.encodeChar c = [c.toNat.toUInt8] := by rw [Utf8.encodeChar, if_pos h.1]
  rw [escape, Utf8.encode_cons, hchar, List.singleton_append, encode_cons_of_keep h.2,
    Utf8.toNat_toUInt8 (by have := h.1; omega), Char.ofNat_toNat]
  rfl

theorem escape_of_kept (h : ∀ c ∈ cs, Kept c) : escape keepPath cs = cs := by
  induction cs with
  | nil => rfl
  | cons c cs ih =>
    obtain ⟨hc, hcs⟩ := List.forall_mem_cons.1 h
    rw [escape_cons_of_kept hc, ih hcs]

theorem escape_cons_of_not_kept (h : ¬Kept c) (cs : List Char) :
    ∃ rest, escape keepPath (c :: cs) = '%' :: rest := by
  -- the first byte of the character is escaped
  have hfirst {b : UInt8} {bs : Bytes} (hb : keepPath b = false) :
      ∃ rest, encode keepPath (b :: bs) = '%' :: rest := by
    rw [encode_cons_of_not_keep hb]
    exact ⟨_, rfl⟩
  rw [escape, Utf8.encode_cons]
  rcases Utf8.encodeChar_cases c with ⟨hc, hchar⟩ | ⟨b, bs, hchar, hhigh⟩
  · rw [hchar]
    exact hfirst (by simpa [Kept, hc] using h)
  · rw [hchar]
    refine hfirst (Bool.eq_false_iff.2 fun hb => ?_)
    have hlt := toNat_lt_of_keepPath hb
    have hle := hhigh b List.mem_cons_self
    omega

theorem decode_escape_cons (hc : c ≠ '%') (cs : List Char) :
    decode (escape keepPath (c :: cs)) = Utf8.encodeChar c ++ decode (escape keepPath cs) := by
  rw [escape, Utf8.encode_cons, encode_append]
  refine decode_encode_append (fun b hb hk => ?_) _
  have hlt := toNat_lt_of_keepPath hk
  rcases Utf8.encodeChar_cases c with ⟨hascii, hchar⟩ | ⟨b', bs, hchar, hhigh⟩
  · rw [hchar, List.mem_singleton] at hb
    rw [hb, Utf8.toNat_toUInt8 (by omega)]
    exact ⟨hascii, fun hn => hc (Char.toNat_inj.1 hn)⟩
  · have hle := hhigh b (hchar ▸ hb)
    omega

theorem kept_percent : Kept '%' := ⟨by decide, by decide⟩

/-- Digits of base sixteen stand in an encoded path exactly where they stand in the path. -/
theorem escaped_escape : Escaped (escape keepPath cs) ↔ Escaped cs := by
  have hpercent : (hexValue? '%').isSome = false := by decide
  -- what stands in front of an encoded path is a digit only if it stands there already
  have hfront {cs rest : List Char} {a : Char} (ha : (hexValue? a).isSome)
      (heq : escape keepPath cs = a :: rest) :
      ∃ tail, cs = a :: tail ∧ rest = escape keepPath tail := by
    cases cs with
    | nil => cases heq
    | cons c tail =>
      by_cases hc : Kept c
      · rw [escape_cons_of_kept hc, List.cons.injEq] at heq
        exact ⟨tail, by rw [heq.1], heq.2.symm⟩
      · obtain ⟨rest', hr⟩ := escape_cons_of_not_kept hc tail
        rw [hr, List.cons.injEq] at heq
        rw [← heq.1, hpercent] at ha
        cases ha
  constructor
  · rintro ⟨a, b, rest, heq, ha, hb⟩
    obtain ⟨tail, rfl, htail⟩ := hfront ha heq
    obtain ⟨tail', rfl, -⟩ := hfront hb htail.symm
    exact ⟨a, b, tail', rfl, ha, hb⟩
  · rintro ⟨a, b, rest, rfl, ha, hb⟩
    rw [escape_cons_of_kept (kept_of_hexValue? ha), escape_cons_of_kept (kept_of_hexValue? hb)]
    exact ⟨a, b, _, rfl, ha, hb⟩

/-- A path without escapes is read back from its encoding. -/
theorem decode_escape_of_unescaped (h : Unescaped cs) :
    decode (escape keepPath cs) = Utf8.encode cs := by
  induction cs with
  | nil => rfl
  | cons c cs ih =>
    obtain ⟨hc, hcs⟩ := unescaped_cons.1 h
    by_cases hp : c = '%'
    · subst hp
      rw [escape_cons_of_kept kept_percent, decode_percent fun he => hc rfl (escaped_escape.1 he),
        ih hcs, Utf8.encode_cons]
      rfl
    · rw [decode_escape_cons hp, ih hcs, Utf8.encode_cons]

/-- What is read back of an encoded path is no longer than the path, and shorter if the path has
an escape in it. -/
theorem length_decode_escape (cs : List Char) :
    (decode (escape keepPath cs)).length ≤ (Utf8.encode cs).length ∧
      ((decode (escape keepPath cs)).length = (Utf8.encode cs).length → Unescaped cs) := by
  induction cs with
  | nil => exact ⟨Nat.le_refl _, fun _ => unescaped_nil⟩
  | cons c cs ih =>
    obtain ⟨hle, heq⟩ := ih
    by_cases hp : c = '%'
    · subst hp
      obtain ⟨hpercent, hescaped⟩ := length_decode_percent (escape keepPath cs)
      have hone : (Utf8.encode ('%' :: cs)).length = 1 + (Utf8.encode cs).length := by
        rw [Utf8.encode_cons, List.length_append]
        rfl
      rw [escape_cons_of_kept kept_percent, hone]
      refine ⟨by omega, fun h => unescaped_cons.2 ⟨fun _ he => ?_, heq (by omega)⟩⟩
      have hlt := hescaped (escaped_escape.2 he)
      omega
    · rw [decode_escape_cons hp, Utf8.encode_cons, List.length_append, List.length_append]
      exact ⟨by omega, fun h => unescaped_cons.2 ⟨fun h' => absurd h' hp, heq (by omega)⟩⟩

/-! ### Dot segments -/

theorem eq_or_of_toLower {c d : Char} (h : c.toLower = d) :
    c = d ∨ c.toNat + 32 = d.toNat ∧ 65 ≤ c.toNat ∧ c.toNat ≤ 90 := by
  unfold Char.toLower at h
  split at h
  · next hc =>
    right
    have hval := congrArg (fun c : Char => c.val.toNat) h
    simp only [UInt32.le_iff_toNat_le, ge_iff_le] at hc
    have hl : 65 ≤ c.val.toNat := hc.1
    have hu : c.val.toNat ≤ 90 := hc.2
    simp only [UInt32.toNat_add] at hval
    have hsub : ('a'.val - 'A'.val).toNat = 32 := by decide
    rw [hsub] at hval
    show c.val.toNat + 32 = d.val.toNat ∧ 65 ≤ c.val.toNat ∧ c.val.toNat ≤ 90
    omega
  · exact .inl h

theorem decode_dot (hc : c.toLower = '.') (rest : List Char) :
    decode (c :: rest) = 0x2E :: decode rest := by
  rcases eq_or_of_toLower hc with rfl | ⟨h, h', -⟩
  · exact decode_cons (by decide) rest
  · have hdot : '.'.toNat = 46 := by decide
    omega

/-- An escaped dot, in either letter case. -/
theorem decode_escaped_dot {a b : Char} (ha : a.toLower = '%') (hb : b.toLower = '2')
    (hc : c.toLower = 'e') (rest : List Char) :
    decode (a :: b :: c :: rest) = 0x2E :: decode rest := by
  have hpercent : '%'.toNat = 37 := by decide
  have htwo : '2'.toNat = 50 := by decide
  obtain rfl : a = '%' := by
    rcases eq_or_of_toLower ha with h | ⟨h, h', -⟩
    · exact h
    · omega
  obtain rfl : b = '2' := by
    rcases eq_or_of_toLower hb with h | ⟨h, h', -⟩
    · exact h
    · omega
  rcases eq_or_of_toLower hc with rfl | ⟨h, -, -⟩
  · rfl
  · obtain rfl : c = 'E' := by
      refine Char.toNat_inj.1 (Nat.add_right_cancel (m := 32) ?_)
      rw [h]
      rfl
    rfl

/-- A segment that is resolved and not asked for. -/
def IsDots (s : List Char) : Prop := isDoubleDot s = true ∨ isDot s = true

instance : DecidablePred IsDots := fun _ => inferInstanceAs (Decidable (_ ∨ _))

theorem decode_of_isDots (h : IsDots s) : decode s = [0x2E] ∨ decode s = [0x2E, 0x2E] := by
  simp only [IsDots, isDoubleDot, isDot, Bool.or_eq_true, decide_eq_true_eq, List.map_eq_cons_iff,
    List.map_eq_nil_iff] at h
  obtain (((⟨a, -, rfl, ha, b, -, rfl, hb, rfl⟩ |
    ⟨a, -, rfl, ha, b, -, rfl, hb, c, -, rfl, hc, d, -, rfl, hd, rfl⟩) |
    ⟨a, -, rfl, ha, b, -, rfl, hb, c, -, rfl, hc, d, -, rfl, hd, rfl⟩) |
    ⟨a, -, rfl, ha, b, -, rfl, hb, c, -, rfl, hc, d, -, rfl, hd, e, -, rfl, he, f, -, rfl, hf,
      rfl⟩) |
    (rfl | ⟨a, -, rfl, ha, b, -, rfl, hb, c, -, rfl, hc, rfl⟩) := h
  · right
    rw [decode_dot ha, decode_dot hb]
    rfl
  · right
    rw [decode_dot ha, decode_escaped_dot hb hc hd]
    rfl
  · right
    rw [decode_escaped_dot ha hb hc, decode_dot hd]
    rfl
  · right
    rw [decode_escaped_dot ha hb hc, decode_escaped_dot hd he hf]
    rfl
  · exact .inl rfl
  · left
    rw [decode_escaped_dot ha hb hc]
    rfl

/-- A segment without escapes is resolved only if it is one dot or two. -/
theorem isDots_escape (h : Unescaped s) :
    IsDots (escape keepPath s) ↔ s = ['.'] ∨ s = ['.', '.'] := by
  constructor
  · intro hdots
    rcases decode_of_isDots hdots with hd | hd
    · rw [decode_escape_of_unescaped h] at hd
      exact .inl (Utf8.encode_injective hd)
    · rw [decode_escape_of_unescaped h] at hd
      exact .inr (Utf8.encode_injective hd)
  · rintro (rfl | rfl)
    · exact .inr (by decide)
    · exact .inl (by decide)

/-- Segments that are not resolved stay as they are. -/
theorem resolve_of_plain {done ss : List (List Char)} (h : ∀ s ∈ ss, ¬IsDots s) :
    resolve done ss = done.reverse ++ ss := by
  fun_induction resolve done ss with
  | case1 done => simp
  | case2 done s =>
    have hs := h s List.mem_cons_self
    rw [IsDots, not_or] at hs
    simp [hs.1, hs.2]
  | case3 done s rest hne hdots ih => exact absurd (.inl hdots) (h s List.mem_cons_self)
  | case4 done s rest hne hdots hdot ih => exact absurd (.inr hdot) (h s List.mem_cons_self)
  | case5 done s rest hne hdots hdot ih =>
    rw [ih fun s hs => h s (List.mem_cons_of_mem _ hs)]
    simp

theorem kept_slash : Kept '/' := ⟨by decide, by decide⟩

/-- The encoded segments of a path make up the encoded path. -/
theorem pathText_split (cs : List Char) :
    pathText (.segments ((cs.splitOn '/').map (escape keepPath))) =
      '/' :: escape keepPath cs := by
  rw [pathText, List.flatMap_map]
  induction cs with
  | nil => rfl
  | cons c cs ih =>
    by_cases hc : c = '/'
    · subst hc
      rw [splitOn_cons_self, List.flatMap_cons, ih, escape_cons_of_kept kept_slash]
      rfl
    · obtain ⟨part, rest, hs, hcs⟩ := splitOn_cons_of_ne hc cs
      rw [hs, List.flatMap_cons, List.cons_append, List.cons.injEq] at ih
      have hcons (ds : List Char) : escape keepPath (c :: ds) = escape keepPath [c] ++ _ :=
        escape_append [c] ds
      rw [hcs, List.flatMap_cons, hcons, hcons cs, ← ih.2, List.cons_append, List.append_assoc]

/-- How much is read back of some segments with a slash in front of each. -/
def weight : List (List Char) → Nat
  | [] => 0
  | s :: ss => 1 + (decode s).length + weight ss

@[simp] theorem weight_nil : weight [] = 0 := rfl

@[simp] theorem weight_cons (s : List Char) (ss : List (List Char)) :
    weight (s :: ss) = 1 + (decode s).length + weight ss := rfl

theorem weight_append (ss ss' : List (List Char)) :
    weight (ss ++ ss') = weight ss + weight ss' := by
  induction ss with
  | nil => simp
  | cons s ss ih =>
    rw [List.cons_append, weight_cons, weight_cons, ih]
    omega

theorem weight_reverse (ss : List (List Char)) : weight ss.reverse = weight ss := by
  induction ss with
  | nil => rfl
  | cons s ss ih =>
    rw [List.reverse_cons, weight_append, ih, weight_cons, weight_cons, weight_nil]
    omega

theorem weight_tail_le (ss : List (List Char)) : weight ss.tail ≤ weight ss := by
  cases ss with
  | nil => exact Nat.le_refl _
  | cons s ss =>
    rw [weight_cons, List.tail_cons]
    omega

theorem length_decode_pathText (ss : List (List Char)) :
    (decode (pathText (.segments ss))).length = weight ss := by
  induction ss with
  | nil => rfl
  | cons s ss ih =>
    rw [pathText, List.flatMap_cons, List.cons_append, decode_cons (by decide), List.length_cons,
      weight_cons]
    cases ss with
    | nil =>
      rw [List.flatMap_nil, List.append_nil, weight_nil]
      omega
    | cons s' ss =>
      rw [pathText, List.flatMap_cons, List.cons_append, decode_cons (by decide),
        List.length_cons] at ih
      rw [List.flatMap_cons, List.cons_append, decode_append_slash, List.length_append,
        List.length_cons, ← ih]
      omega

theorem weight_split_le (cs : List Char) :
    weight ((cs.splitOn '/').map (escape keepPath)) ≤ 1 + (Utf8.encode cs).length := by
  have hle := (length_decode_escape cs).1
  rw [← length_decode_pathText, pathText_split, decode_cons (by decide), List.length_cons]
  omega

/-- Resolving dot segments shortens a path, and leaves it as it is only if there are none. -/
theorem weight_resolve (done ss : List (List Char)) :
    weight (resolve done ss) ≤ weight done + weight ss ∧
      ((∃ s ∈ ss, IsDots s) → weight (resolve done ss) < weight done + weight ss) := by
  have hpositive {s : List Char} (h : IsDots s) : 0 < (decode s).length := by
    rcases decode_of_isDots h with hd | hd <;> simp [hd]
  fun_induction resolve done ss with
  | case1 done => simp [weight_reverse]
  | case2 done s =>
    have htail := weight_tail_le done
    rw [weight_reverse]
    split_ifs with hdots hdot
    · have hp := hpositive (.inl hdots)
      simp only [weight_cons, weight_nil, show decode [] = [] from rfl, List.length_nil]
      exact ⟨by omega, fun _ => by omega⟩
    · have hp := hpositive (.inr hdot)
      simp only [weight_cons, weight_nil, show decode [] = [] from rfl, List.length_nil]
      exact ⟨by omega, fun _ => by omega⟩
    · simp only [weight_cons, weight_nil]
      refine ⟨by omega, ?_⟩
      rintro ⟨t, ht, h⟩
      obtain rfl := List.mem_singleton.1 ht
      rcases h with h | h
      · exact absurd h hdots
      · exact absurd h hdot
  | case3 done s rest hne hdots ih =>
    have htail := weight_tail_le done
    have hp := hpositive (.inl hdots)
    rw [weight_cons]
    exact ⟨by omega, fun _ => by omega⟩
  | case4 done s rest hne hdots hdot ih =>
    have hp := hpositive (.inr hdot)
    rw [weight_cons]
    exact ⟨by omega, fun _ => by omega⟩
  | case5 done s rest hne hdots hdot ih =>
    rw [weight_cons] at ih ⊢
    refine ⟨by omega, ?_⟩
    rintro ⟨t, ht, h⟩
    rcases List.mem_cons.1 ht with rfl | ht
    · rcases h with h | h
      · exact absurd h hdots
      · exact absurd h hdot
    · have hlt := ih.2 ⟨t, ht, h⟩
      omega

end Url

end Net

end SecretStore
