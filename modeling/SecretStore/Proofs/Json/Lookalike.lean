import Mathlib.Data.List.Forall2
import SecretStore.Proofs.Json.WellFormed

/-!
# Texts that look alike

Two texts are lookalikes if they differ in what their strings hold only, and not in how many bytes
it takes: in the place of a character that needs no escape there may be another one of that kind,
and escapes may have other numbers. Names, numbers and blanks are the same in both.

* `LookalikeContents`, `LookalikeItems`, `LookalikeMembers`: strings, and the rows of arrays and
  objects.
* `lookalikeContents_of_isAlphanum`: as many letters and digits may stand for each other.
* `Lookalike`: values. Both texts are well-formed.
* `SameLines`: lines are broken at the same places; `Lookalike.sameLines`, `Fault.locate_eq`.
-/

namespace SecretStore.Json

variable {ws sep bs bs' rest rest' d d' : Bytes} {isFirst : Bool}

/-! ### Strings -/

/-- A character that stands for itself inside a string. -/
structure Unescaped (c : Char) : Prop where
  quote : c ≠ '"'
  slash : c ≠ '\\'
  control : 0x20 ≤ c.toNat

/-- The contents of two strings that take as many bytes, character by character. -/
inductive LookalikeContents : Bytes → Bytes → Prop
  | nil : LookalikeContents [] []
  | plain {c c' : Char} {bs bs' : Bytes} (hc : Unescaped c) (hc' : Unescaped c')
      (hlen : (Utf8.encodeChar c).length = (Utf8.encodeChar c').length)
      (h : LookalikeContents bs bs') :
      LookalikeContents (Utf8.encodeChar c ++ bs) (Utf8.encodeChar c' ++ bs')
  | short {e : UInt8} {c : Char} {bs bs' : Bytes} (he : simpleEscape? e = some c)
      (h : LookalikeContents bs bs') :
      LookalikeContents (byte '\\' :: e :: bs) (byte '\\' :: e :: bs')
  | code {n n' : Nat} {ds ds' bs bs' : Bytes} (hd : Hex n ds) (hd' : Hex n' ds')
      (hl : isLeading n = isLeading n') (ht : isTrailing n = isTrailing n')
      (h : LookalikeContents bs bs') :
      LookalikeContents (byte '\\' :: byte 'u' :: (ds ++ bs))
        (byte '\\' :: byte 'u' :: (ds' ++ bs'))

theorem LookalikeContents.symm (h : LookalikeContents bs bs') : LookalikeContents bs' bs := by
  induction h with
  | nil => exact .nil
  | plain hc hc' hlen _ ih => exact .plain hc' hc hlen.symm ih
  | short he _ ih => exact .short he ih
  | code hd hd' hl ht _ ih => exact .code hd' hd hl.symm ht.symm ih

theorem LookalikeContents.contents (h : LookalikeContents bs bs') : Contents bs := by
  induction h with
  | nil => exact .nil
  | plain hc _ _ _ ih => exact .plain hc.quote hc.slash hc.control ih
  | short he _ ih => exact .short he ih
  | code hd _ _ _ _ ih => exact .code hd ih

theorem Contents.lookalike (h : Contents bs) : LookalikeContents bs bs := by
  induction h with
  | nil => exact .nil
  | plain hq hs hc _ ih => exact .plain ⟨hq, hs, hc⟩ ⟨hq, hs, hc⟩ rfl ih
  | short he _ ih => exact .short he ih
  | code hd _ ih => exact .code hd hd rfl rfl ih

/-- A letter or a digit takes one byte, and needs no escape. -/
theorem unescaped_of_isAlphanum {c : Char} (h : c.isAlphanum = true) :
    Unescaped c ∧ (Utf8.encodeChar c).length = 1 := by
  have hbetween {a b : Char} (ha : 0x20 ≤ a.toNat) (hb : b.toNat < 0x80) (hfrom : a.val ≤ c.val)
      (hto : c.val ≤ b.val) : 0x20 ≤ c.toNat ∧ c.toNat < 0x80 :=
    ⟨Nat.le_trans ha (UInt32.le_iff_toNat_le.1 hfrom),
      Nat.lt_of_le_of_lt (UInt32.le_iff_toNat_le.1 hto) hb⟩
  have hrange : 0x20 ≤ c.toNat ∧ c.toNat < 0x80 := by
    rcases Bool.or_eq_true_iff.1 h with hletter | hdigit
    · rcases Bool.or_eq_true_iff.1 hletter with hupper | hlower
      · obtain ⟨hfrom, hto⟩ := of_decide_eq_true hupper
        exact hbetween (by decide) (by decide) hfrom hto
      · obtain ⟨hfrom, hto⟩ := Bool.and_eq_true_iff.1 hlower
        exact hbetween (by decide) (by decide) (of_decide_eq_true hfrom) (of_decide_eq_true hto)
    · obtain ⟨hfrom, hto⟩ := Bool.and_eq_true_iff.1 hdigit
      exact hbetween (by decide) (by decide) (of_decide_eq_true hfrom) (of_decide_eq_true hto)
  refine ⟨⟨?_, ?_, hrange.1⟩, ?_⟩
  · rintro rfl
    exact absurd h (by decide)
  · rintro rfl
    exact absurd h (by decide)
  · rw [encodeChar_of_lt hrange.2, List.length_singleton]

/-- As many letters and digits look alike. -/
theorem lookalikeContents_of_isAlphanum {cs cs' : List Char} (hlen : cs.length = cs'.length)
    (h : ∀ c ∈ cs, c.isAlphanum = true) (h' : ∀ c ∈ cs', c.isAlphanum = true) :
    LookalikeContents (Utf8.encode cs) (Utf8.encode cs') := by
  induction cs generalizing cs' with
  | nil =>
    rw [List.eq_nil_of_length_eq_zero hlen.symm]
    exact .nil
  | cons c cs ih =>
    cases cs' with
    | nil => cases hlen
    | cons c' cs' =>
      obtain ⟨hc, hcs⟩ := List.forall_mem_cons.1 h
      obtain ⟨hc', hcs'⟩ := List.forall_mem_cons.1 h'
      obtain ⟨hplain, hone⟩ := unescaped_of_isAlphanum hc
      obtain ⟨hplain', hone'⟩ := unescaped_of_isAlphanum hc'
      rw [Utf8.encode_cons, Utf8.encode_cons]
      exact .plain hplain hplain' (hone.trans hone'.symm) (ih (Nat.succ.inj hlen) hcs hcs')

/-! ### Values -/

/-- The rows of two arrays with the same blanks, and the texts of their items in pairs. -/
inductive LookalikeItems : Bool → List (Bytes × Bytes) → Bytes → Bytes → Prop
  | nil {isFirst : Bool} {ws : Bytes} (hw : Blank ws) :
      LookalikeItems isFirst [] (ws ++ [byte ']']) (ws ++ [byte ']'])
  | cons {isFirst : Bool} {sep d d' rest rest' : Bytes} {ps : List (Bytes × Bytes)}
      (hs : Separator isFirst sep) (hr : LookalikeItems false ps rest rest') :
      LookalikeItems isFirst ((d, d') :: ps) (sep ++ (d ++ rest)) (sep ++ (d' ++ rest'))

/-- A member in two objects: its name, and the text of its value in each of them. -/
structure MemberPair where
  name : Bytes
  left : Bytes
  right : Bytes

/-- The rows of two objects with the same names and blanks. -/
inductive LookalikeMembers : Bool → List MemberPair → Bytes → Bytes → Prop
  | nil {isFirst : Bool} {ws : Bytes} (hw : Blank ws) :
      LookalikeMembers isFirst [] (ws ++ [byte '\x7d']) (ws ++ [byte '\x7d'])
  | cons {isFirst : Bool} {sep ws ws' rest rest' : Bytes} {m : MemberPair} {ms : List MemberPair}
      (hs : Separator isFirst sep) (hw : Blank ws) (hw' : Blank ws')
      (hr : LookalikeMembers false ms rest rest') :
      LookalikeMembers isFirst (m :: ms)
        (sep ++ byte '"' :: (m.name ++ byte '"' :: (ws ++ byte ':' :: (ws' ++ (m.left ++ rest)))))
        (sep ++ byte '"' :: (m.name ++ byte '"' :: (ws ++ byte ':' :: (ws' ++ (m.right ++ rest')))))

/-- The texts of two values that differ in what their strings hold, and not in its length. -/
inductive Lookalike : Bytes → Bytes → Prop
  | null : Lookalike (Utf8.encode ['n', 'u', 'l', 'l']) (Utf8.encode ['n', 'u', 'l', 'l'])
  | yes : Lookalike (Utf8.encode ['t', 'r', 'u', 'e']) (Utf8.encode ['t', 'r', 'u', 'e'])
  | no : Lookalike (Utf8.encode ['f', 'a', 'l', 's', 'e']) (Utf8.encode ['f', 'a', 'l', 's', 'e'])
  | number {bs : Bytes} (h : NumberText bs) : Lookalike bs bs
  | string {bs bs' : Bytes} (h : LookalikeContents bs bs') :
      Lookalike (byte '"' :: (bs ++ [byte '"'])) (byte '"' :: (bs' ++ [byte '"']))
  | array {ps : List (Bytes × Bytes)} {bs bs' : Bytes} (h : LookalikeItems true ps bs bs')
      (hd : ∀ p ∈ ps, Lookalike p.1 p.2) : Lookalike (byte '[' :: bs) (byte '[' :: bs')
  | object {ms : List MemberPair} {bs bs' : Bytes} (h : LookalikeMembers true ms bs bs')
      (hn : ∀ m ∈ ms, Contents m.name) (hd : ∀ m ∈ ms, Lookalike m.left m.right) :
      Lookalike (byte '\x7b' :: bs) (byte '\x7b' :: bs')

theorem LookalikeItems.left {ps : List (Bytes × Bytes)} (h : LookalikeItems isFirst ps bs bs') :
    ItemsText isFirst (ps.map Prod.fst) bs := by
  induction h with
  | nil hw => exact .nil hw
  | cons hs _ ih => exact .cons hs ih

theorem LookalikeItems.right {ps : List (Bytes × Bytes)} (h : LookalikeItems isFirst ps bs bs') :
    ItemsText isFirst (ps.map Prod.snd) bs' := by
  induction h with
  | nil hw => exact .nil hw
  | cons hs _ ih => exact .cons hs ih

/-- The members on the left. -/
def MemberPair.onLeft (m : MemberPair) : Bytes × Bytes := (m.name, m.left)

/-- The members on the right. -/
def MemberPair.onRight (m : MemberPair) : Bytes × Bytes := (m.name, m.right)

theorem LookalikeMembers.left {ms : List MemberPair} (h : LookalikeMembers isFirst ms bs bs') :
    MembersText isFirst (ms.map MemberPair.onLeft) bs := by
  induction h with
  | nil hw => exact .nil hw
  | cons hs hw hw' _ ih => exact .cons hs hw hw' ih

theorem LookalikeMembers.right {ms : List MemberPair} (h : LookalikeMembers isFirst ms bs bs') :
    MembersText isFirst (ms.map MemberPair.onRight) bs' := by
  induction h with
  | nil hw => exact .nil hw
  | cons hs hw hw' _ ih => exact .cons hs hw hw' ih

/-- Both texts are well-formed. -/
theorem Lookalike.wellFormed (h : Lookalike d d') : WellFormed d ∧ WellFormed d' := by
  induction h with
  | null => exact ⟨.null, .null⟩
  | yes => exact ⟨.yes, .yes⟩
  | no => exact ⟨.no, .no⟩
  | number h => exact ⟨.number h, .number h⟩
  | string h => exact ⟨.string h.contents, .string h.symm.contents⟩
  | array h _ ih =>
    exact ⟨.array h.left (List.forall_mem_map.2 fun p hp => (ih p hp).1),
      .array h.right (List.forall_mem_map.2 fun p hp => (ih p hp).2)⟩
  | object h hn _ ih =>
    refine ⟨.object h.left (List.forall_mem_map.2 hn) ?_,
      .object h.right (List.forall_mem_map.2 hn) ?_⟩
    · exact List.forall_mem_map.2 fun m hm => (ih m hm).1
    · exact List.forall_mem_map.2 fun m hm => (ih m hm).2

/-- Two arrays, two objects, or two texts that begin with one byte that is no bracket. -/
theorem Lookalike.bracket_cases (h : Lookalike d d') :
    (∃ ps bs bs', LookalikeItems true ps bs bs' ∧ (∀ p ∈ ps, Lookalike p.1 p.2) ∧
      d = byte '[' :: bs ∧ d' = byte '[' :: bs') ∨
    (∃ ms bs bs', LookalikeMembers true ms bs bs' ∧
      (∀ m ∈ ms, Contents m.name ∧ Lookalike m.left m.right) ∧
      d = byte '\x7b' :: bs ∧ d' = byte '\x7b' :: bs') ∨
    ∃ b bs bs', d = b :: bs ∧ d' = b :: bs' ∧ isBlank b = false ∧ b ≠ byte '[' ∧
      b ≠ byte '\x7b' := by
  cases h with
  | array h hd => exact .inl ⟨_, _, _, h, hd, rfl, rfl⟩
  | object h hn hd => exact .inr (.inl ⟨_, _, _, h, fun m hm => ⟨hn m hm, hd m hm⟩, rfl, rfl⟩)
  | number h =>
    obtain ⟨b, rest, rfl, rfl | hb⟩ := h.head
    · exact .inr (.inr ⟨_, _, _, rfl, rfl, by decide, by decide, by decide⟩)
    · exact .inr (.inr ⟨b, rest, rest, rfl, rfl, isBlank_of_isDigit hb,
        ne_of_isDigit hb (by decide), ne_of_isDigit hb (by decide)⟩)
  | null | yes | no | string =>
    exact .inr (.inr ⟨_, _, _, rfl, rfl, by decide, by decide, by decide⟩)

/-- Two arrays, or two texts that begin with one byte that is no bracket of an array. -/
theorem Lookalike.array_cases (h : Lookalike d d') :
    (∃ ps bs bs', LookalikeItems true ps bs bs' ∧ (∀ p ∈ ps, Lookalike p.1 p.2) ∧
      d = byte '[' :: bs ∧ d' = byte '[' :: bs') ∨
    ∃ b bs bs', d = b :: bs ∧ d' = b :: bs' ∧ isBlank b = false ∧ b ≠ byte '[' := by
  rcases h.bracket_cases with harray | ⟨ms, bs, bs', -, -, rfl, rfl⟩ |
    ⟨b, bs, bs', rfl, rfl, hb, hbracket, -⟩
  · exact .inl harray
  · exact .inr ⟨_, bs, bs', rfl, rfl, by decide, by decide⟩
  · exact .inr ⟨b, bs, bs', rfl, rfl, hb, hbracket⟩

/-! ### Lines -/

/-- Two texts of one length that break lines at the same places. -/
def SameLines (bs bs' : Bytes) : Prop := List.Forall₂ (fun b b' => b = 10 ↔ b' = 10) bs bs'

theorem SameLines.refl (bs : Bytes) : SameLines bs bs := List.forall₂_same.2 fun _ _ => Iff.rfl

theorem SameLines.append {cs cs' : Bytes} (h : SameLines bs bs') (h' : SameLines cs cs') :
    SameLines (bs ++ cs) (bs' ++ cs') :=
  List.rel_append h h'

theorem SameLines.append_left (cs : Bytes) (h : SameLines bs bs') :
    SameLines (cs ++ bs) (cs ++ bs') :=
  (SameLines.refl cs).append h

theorem SameLines.cons (b : UInt8) (h : SameLines bs bs') : SameLines (b :: bs) (b :: bs') :=
  List.Forall₂.cons Iff.rfl h

theorem SameLines.length_eq (h : SameLines bs bs') : bs.length = bs'.length :=
  List.Forall₂.length_eq h

theorem sameLines_of_forall (hlen : bs.length = bs'.length) (h : ∀ b ∈ bs, b ≠ 10)
    (h' : ∀ b ∈ bs', b ≠ 10) : SameLines bs bs' := by
  induction bs generalizing bs' with
  | nil =>
    rw [List.eq_nil_of_length_eq_zero hlen.symm]
    exact .nil
  | cons b bs ih =>
    cases bs' with
    | nil => cases hlen
    | cons b' bs' =>
      obtain ⟨hb, hbs⟩ := List.forall_mem_cons.1 h
      obtain ⟨hb', hbs'⟩ := List.forall_mem_cons.1 h'
      exact List.Forall₂.cons (iff_of_false hb hb') (ih (Nat.succ.inj hlen) hbs hbs')

theorem Unescaped.sameLines {c c' : Char} (hc : Unescaped c) (hc' : Unescaped c')
    (hlen : (Utf8.encodeChar c).length = (Utf8.encodeChar c').length) :
    SameLines (Utf8.encodeChar c) (Utf8.encodeChar c') := by
  have hplain {c : Char} (hc : Unescaped c) : ∀ b ∈ Utf8.encodeChar c, b ≠ 10 := by
    rintro b hb rfl
    exact absurd (isPlain_of_mem_encodeChar hc.quote hc.slash hc.control hb) (by decide)
  exact sameLines_of_forall hlen (hplain hc) (hplain hc')

theorem Hex.sameLines {n n' : Nat} {ds ds' : Bytes} (hd : Hex n ds) (hd' : Hex n' ds') :
    SameLines ds ds' := by
  have hdigits {n : Nat} {ds : Bytes} (hd : Hex n ds) : ds.length = 4 ∧ ∀ b ∈ ds, b ≠ 10 := by
    cases hd with
    | mk ha hb hc hd =>
      have hne {b : UInt8} {i : Nat} (h : hexValue? b = some i) : b ≠ 10 := by
        rintro rfl
        rw [show hexValue? 10 = none by decide] at h
        cases h
      simp [hne ha, hne hb, hne hc, hne hd]
  exact sameLines_of_forall ((hdigits hd).1.trans (hdigits hd').1.symm) (hdigits hd).2
    (hdigits hd').2

theorem LookalikeContents.sameLines (h : LookalikeContents bs bs') : SameLines bs bs' := by
  induction h with
  | nil => exact .nil
  | plain hc hc' hlen _ ih => exact (hc.sameLines hc' hlen).append ih
  | short _ _ ih => exact (ih.cons _).cons _
  | code hd hd' _ _ _ ih => exact (((hd.sameLines hd').append ih).cons _).cons _

theorem LookalikeItems.sameLines {ps : List (Bytes × Bytes)} (h : LookalikeItems isFirst ps bs bs')
    (hd : ∀ p ∈ ps, SameLines p.1 p.2) : SameLines bs bs' := by
  induction h with
  | nil => exact .refl _
  | cons hs _ ih =>
    obtain ⟨hp, hps⟩ := List.forall_mem_cons.1 hd
    exact (hp.append (ih hps)).append_left _

theorem LookalikeMembers.sameLines {ms : List MemberPair} (h : LookalikeMembers isFirst ms bs bs')
    (hd : ∀ m ∈ ms, SameLines m.left m.right) : SameLines bs bs' := by
  induction h with
  | nil => exact .refl _
  | cons hs _ _ _ ih =>
    obtain ⟨hm, hms⟩ := List.forall_mem_cons.1 hd
    -- separator, quote, name, quote, blanks, colon and blanks are the same
    refine .append_left _ (.cons _ (.append_left _ (.cons _ (.append_left _ (.cons _
      (.append_left _ ?_))))))
    exact hm.append (ih hms)

/-- Lookalikes break lines at the same places, as no string of either breaks one. -/
theorem Lookalike.sameLines (h : Lookalike d d') : SameLines d d' := by
  induction h with
  | null | yes | no => exact .refl _
  | number => exact .refl _
  | string h => exact (h.sameLines.append (.refl _)).cons _
  | array h _ ih => exact (h.sameLines ih).cons _
  | object h _ _ ih => exact (h.sameLines ih).cons _

theorem position_eq (h : SameLines bs bs') : position bs = position bs' := by
  unfold position
  generalize ((1, 0) : Nat × Nat) = p
  induction h generalizing p with
  | nil => rfl
  | @cons b b' bs bs' hb _ ih =>
    rw [List.foldl_cons, List.foldl_cons]
    by_cases hbreak : b = 10
    · rw [if_pos hbreak, if_pos (hb.1 hbreak)]
      exact ih _
    · rw [if_neg hbreak, if_neg fun h => hbreak (hb.2 h)]
      exact ih _

/-- As many bytes before the end of two such texts the line and the column are the same. -/
theorem Fault.locate_eq (h : SameLines bs bs') {f f' : Fault}
    (hlen : f.rest.length = f'.rest.length) : ∃ line column,
      f.locate bs = ⟨f.reason, line, column⟩ ∧ f'.locate bs' = ⟨f'.reason, line, column⟩ := by
  have htake := position_eq (List.forall₂_take (bs.length - f.rest.length) h)
  refine ⟨(position (bs.take (bs.length - f.rest.length))).1,
    (position (bs.take (bs.length - f.rest.length))).2, rfl, ?_⟩
  rw [Fault.locate, ← h.length_eq, ← hlen, ← htake]

end SecretStore.Json
