import SecretStore.Proofs.Json.Scanning

/-!
# The grammar of documents

`Denotes` is the grammar of documents with what their texts stand for: strings may escape what they
like, numbers may be of any form, and there may be blanks between all tokens. `parse_eq_ok_iff` says
that a text is read as a document exactly if it is one of its texts, brackets nesting less than 128
deep, with blanks around it.

* `Denotes.reads`: a text is read as what it denotes, whatever follows it.
* `Sound`, `sound`: what is read is denoted by the text that was taken.
-/

namespace SecretStore.Json

variable {ws sep bs rest d : Bytes} {b : UInt8} {isFirst : Bool}

/-! ### Texts of documents -/

/-- The sign of a number. -/
def signOf (negative : Bool) : Bytes := if negative then [byte '-'] else []

/-- The texts of a number: those that it is read from when they stand alone. -/
inductive NumberOf (n : Number) : Bytes → Prop
  | mk {negative : Bool} {ds fraction exponent : Bytes} (hd : Integral ds) (hf : Fraction fraction)
      (he : Exponent exponent)
      (hn : taken (readNumber negative) (ds ++ (fraction ++ exponent)) = some n) :
      NumberOf n (signOf negative ++ (ds ++ (fraction ++ exponent)))

/-- The texts of a document, of the items of an array and of the members of an object. -/
inductive Denotes : Piece → Bytes → Prop
  | null : Denotes (.value .null) (Utf8.encode ['n', 'u', 'l', 'l'])
  | yes : Denotes (.value (.bool true)) (Utf8.encode ['t', 'r', 'u', 'e'])
  | no : Denotes (.value (.bool false)) (Utf8.encode ['f', 'a', 'l', 's', 'e'])
  | number {n : Number} {d : Bytes} (h : NumberOf n d) : Denotes (.value (.number n)) d
  | string {s : String} {d : Bytes} (h : StringText s d) : Denotes (.value (.string s)) d
  | array {vs : List Value} {bs : Bytes} (h : Denotes (.items true vs) bs) :
      Denotes (.value (.array vs)) (byte '[' :: bs)
  | object {ms : List (String × Value)} {bs : Bytes} (h : Denotes (.members true ms) bs) :
      Denotes (.value (.object ms)) (byte '\x7b' :: bs)
  | noItem {isFirst : Bool} {ws : Bytes} (hw : Blank ws) :
      Denotes (.items isFirst []) (ws ++ [byte ']'])
  | item {isFirst : Bool} {sep d rest : Bytes} {v : Value} {vs : List Value}
      (hs : Separator isFirst sep) (hv : Denotes (.value v) d)
      (hr : Denotes (.items false vs) rest) :
      Denotes (.items isFirst (v :: vs)) (sep ++ (d ++ rest))
  | noMember {isFirst : Bool} {ws : Bytes} (hw : Blank ws) :
      Denotes (.members isFirst []) (ws ++ [byte '\x7d'])
  | member {isFirst : Bool} {sep c ws ws' d rest : Bytes} {name : String} {v : Value}
      {ms : List (String × Value)} (hs : Separator isFirst sep) (hn : Spelling name.toList c)
      (hw : Blank ws) (hw' : Blank ws') (hv : Denotes (.value v) d)
      (hr : Denotes (.members false ms) rest) :
      Denotes (.members isFirst ((name, v) :: ms))
        (sep ++ byte '"' :: (c ++ byte '"' :: (ws ++ byte ':' :: (ws' ++ (d ++ rest)))))

theorem NumberOf.head {n : Number} (h : NumberOf n d) :
    ∃ b rest, d = b :: rest ∧ (b = byte '-' ∨ isDigit b = true) := by
  cases h with
  | @mk negative ds fraction exponent hd hf he hn =>
    obtain ⟨b, ds, rfl⟩ := List.exists_cons_of_ne_nil hd.1.1
    cases negative with
    | false => exact ⟨b, _, rfl, .inr (hd.1.2 b List.mem_cons_self)⟩
    | true => exact ⟨_, _, rfl, .inl rfl⟩

/-- The text of a document begins with neither a blank nor a bracket that ends an array. -/
theorem Denotes.head {v : Value} (h : Denotes (.value v) d) :
    ∃ b rest, d = b :: rest ∧ isBlank b = false ∧ b ≠ byte ']' := by
  generalize hp : Piece.value v = p at h
  cases h with
  | null | yes | no => exact ⟨_, _, rfl, by decide, by decide⟩
  | number h =>
    obtain ⟨b, rest, rfl, rfl | hb⟩ := h.head
    · exact ⟨_, _, rfl, by decide, by decide⟩
    · exact ⟨b, rest, rfl, isBlank_of_isDigit hb, ne_of_isDigit hb (by decide)⟩
  | string h =>
    obtain ⟨bs, -, rfl⟩ := h
    exact ⟨_, _, rfl, by decide, by decide⟩
  | array h => exact ⟨_, _, rfl, by decide, by decide⟩
  | object h => exact ⟨_, _, rfl, by decide, by decide⟩
  | noItem | item | noMember | member => cases hp

theorem Denotes.endsNumber_items {vs : List Value} (h : Denotes (.items false vs) bs) :
    EndsNumber (bs ++ rest) := by
  cases h with
  | noItem hw =>
    rw [List.append_assoc]
    exact endsNumber_of_blank hw (endsNumber_cons (by decide))
  | item hs hv hr =>
    rw [List.append_assoc]
    exact hs.endsNumber _

theorem Denotes.endsNumber_members {ms : List (String × Value)}
    (h : Denotes (.members false ms) bs) : EndsNumber (bs ++ rest) := by
  cases h with
  | noMember hw =>
    rw [List.append_assoc]
    exact endsNumber_of_blank hw (endsNumber_cons (by decide))
  | member hs hn hw hw' hv hr =>
    rw [List.append_assoc]
    exact hs.endsNumber _

theorem Denotes.length_pos {p : Piece} (h : Denotes p bs) : 0 < bs.length := by
  cases p with
  | value v =>
    obtain ⟨b, rest, rfl, -⟩ := h.head
    exact Nat.succ_pos _
  | items isFirst vs =>
    cases h with
    | noItem hw => simp
    | item hs hv hr =>
      obtain ⟨b, rest, rfl, -⟩ := hv.head
      simp only [List.length_append, List.length_cons]
      omega
  | members isFirst ms =>
    cases h with
    | noMember hw => simp
    | member hs hn hw hw' hv hr =>
      simp only [List.length_append, List.length_cons]
      omega

theorem Denotes.exists_fuel {p : Piece} {fuel : Nat} (h : Denotes p bs)
    (hfuel : 2 * bs.length ≤ fuel) : ∃ k, fuel = k + 1 := by
  have hpos := h.length_pos
  exact ⟨fuel - 1, by omega⟩

/-! ### Texts are read as what they denote -/

theorem NumberOf.reads {n : Number} (h : NumberOf n d) (hrest : EndsNumber rest)
    {fuel depth : Nat} : readValueWith (fuel + 1) depth (d ++ rest) = .ok (.number n, rest) := by
  cases h with
  | @mk negative ds fraction exponent hd hf he hn =>
    have hlocal : Local (readNumber negative) (ds ++ (fraction ++ exponent)) _ :=
      local_number hd hf he
    have hread := hlocal rest (hrest.stops _ _)
    rw [hn, Option.map_some, toOption_eq_some_iff] at hread
    cases negative with
    | true =>
      show readValueWith _ _ (byte '-' :: ((ds ++ (fraction ++ exponent)) ++ rest)) = _
      rw [readValueWith_minus, hread]
      rfl
    | false =>
      show readValueWith _ _ ((ds ++ (fraction ++ exponent)) ++ rest) = _
      obtain ⟨b, ds, rfl⟩ := List.exists_cons_of_ne_nil hd.1.1
      simp only [List.cons_append] at hread ⊢
      rw [readValueWith_digit (hd.1.2 b List.mem_cons_self), hread]
      rfl

theorem StringText.reads {s : String} (h : StringText s d) (rest : Bytes) {fuel depth : Nat} :
    readValueWith (fuel + 1) depth (d ++ rest) = .ok (.string s, rest) := by
  obtain ⟨bs, hs, rfl⟩ := h
  rw [List.cons_append, List.append_assoc, List.singleton_append, readValueWith_string, hs.read]
  rfl

section Turn

variable {k depth : Nat} {v : Value}

/-- One turn of the reader of items. -/
theorem readItemsWith_item {vs : List Value} (hs : Separator isFirst sep)
    (hv : Denotes (.value v) d) (hvalue : readValueWith k depth (d ++ bs) = .ok (v, bs))
    (hitems : readItemsWith k depth false bs = .ok (vs, rest)) :
    readItemsWith (k + 1) depth isFirst (sep ++ (d ++ bs)) = .ok (v :: vs, rest) := by
  obtain ⟨b, tail, rfl, hblank, hend⟩ := hv.head
  rw [List.cons_append] at hvalue ⊢
  rw [readItemsWith, nextItem_more hs hblank hend]
  simp only [hvalue, hitems]
  rfl

/-- One turn of the reader of members. -/
theorem readMembersWith_member {name : String} {c ws' : Bytes} {ms : List (String × Value)}
    (hs : Separator isFirst sep) (hn : Spelling name.toList c) (hw : Blank ws) (hw' : Blank ws')
    (hvalue : readValueWith k depth (d ++ bs) = .ok (v, bs))
    (hmembers : readMembersWith k depth false bs = .ok (ms, rest)) :
    readMembersWith (k + 1) depth isFirst (sep ++ byte '"' ::
        (c ++ byte '"' :: (ws ++ byte ':' :: (ws' ++ (d ++ bs))))) =
      .ok ((name, v) :: ms, rest) := by
  have hname : readString (c ++ byte '"' :: (ws ++ byte ':' :: (ws' ++ (d ++ bs)))) =
      .ok (name, ws ++ byte ':' :: (ws' ++ (d ++ bs))) := hn.read _
  rw [← readValueWith_blank hw'] at hvalue
  rw [readMembersWith, nextMember_more hs]
  simp only [hname, readColon_append hw, hvalue, hmembers]
  rfl

end Turn

/-- The text of a piece is read as the piece, and what follows it remains. Each turn of the readers
spends one unit of fuel, and there are at most two turns for each byte. -/
theorem Denotes.reads {p : Piece} (h : Denotes p bs) {fuel depth : Nat} {rest : Bytes}
    (hfuel : 2 * bs.length ≤ fuel) (hdepth : p.height < depth) (hrest : EndsNumber rest) :
    p.Reads fuel depth (bs ++ rest) rest := by
  obtain ⟨k, rfl⟩ := h.exists_fuel hfuel
  induction h generalizing k depth rest with
  | null =>
    show readValueWith _ _ (byte 'n' :: (Utf8.encode ['u', 'l', 'l'] ++ rest)) = _
    rw [readValueWith_null, readLiteral_append _ (by decide)]
    rfl
  | yes =>
    show readValueWith _ _ (byte 't' :: (Utf8.encode ['r', 'u', 'e'] ++ rest)) = _
    rw [readValueWith_true, readLiteral_append _ (by decide)]
    rfl
  | no =>
    show readValueWith _ _ (byte 'f' :: (Utf8.encode ['a', 'l', 's', 'e'] ++ rest)) = _
    rw [readValueWith_false, readLiteral_append _ (by decide)]
    rfl
  | number h => exact h.reads hrest
  | string h => exact h.reads rest
  | @array vs bs h ih =>
    have hheight : heightItems vs + 1 < depth := hdepth
    simp only [List.length_cons] at hfuel
    obtain ⟨k, rfl⟩ := h.exists_fuel (show 2 * bs.length ≤ k by omega)
    have hitems : readItemsWith (k + 1) (depth - 1) true (bs ++ rest) = .ok (vs, rest) :=
      ih (show heightItems vs < depth - 1 by omega) hrest k (by omega)
    show readValueWith _ _ (byte '[' :: (bs ++ rest)) = _
    rw [readValueWith_array (by omega), hitems]
    rfl
  | @object ms bs h ih =>
    have hheight : heightMembers ms + 1 < depth := hdepth
    simp only [List.length_cons] at hfuel
    obtain ⟨k, rfl⟩ := h.exists_fuel (show 2 * bs.length ≤ k by omega)
    have hmembers : readMembersWith (k + 1) (depth - 1) true (bs ++ rest) = .ok (ms, rest) :=
      ih (show heightMembers ms < depth - 1 by omega) hrest k (by omega)
    show readValueWith _ _ (byte '\x7b' :: (bs ++ rest)) = _
    rw [readValueWith_object (by omega), hmembers]
    rfl
  | noItem hw =>
    show readItemsWith _ _ _ _ = _
    rw [readItemsWith, List.append_assoc, List.singleton_append, nextItem_finished hw]
  | @item isFirst sep d rest' v vs hs hv hr ihv ihr =>
    have hheight : v.height < depth ∧ heightItems vs < depth := Nat.max_lt.1 hdepth
    have hlen := hv.length_pos
    have hlen' := hr.length_pos
    simp only [List.length_append] at hfuel
    obtain ⟨k, rfl⟩ := hv.exists_fuel (show 2 * d.length ≤ k by omega)
    have hvalue : readValueWith (k + 1) depth (d ++ (rest' ++ rest)) = .ok (v, rest' ++ rest) :=
      ihv hheight.1 hr.endsNumber_items k (by omega)
    have hitems : readItemsWith (k + 1) depth false (rest' ++ rest) = .ok (vs, rest) :=
      ihr hheight.2 hrest k (by omega)
    show readItemsWith _ _ _ _ = _
    rw [List.append_assoc, List.append_assoc]
    exact readItemsWith_item hs hv hvalue hitems
  | noMember hw =>
    show readMembersWith _ _ _ _ = _
    rw [readMembersWith, List.append_assoc, List.singleton_append, nextMember_finished hw]
  | @member isFirst sep c ws ws' d rest' name v ms hs hn hw hw' hv hr ihv ihr =>
    have hheight : v.height < depth ∧ heightMembers ms < depth := Nat.max_lt.1 hdepth
    have hlen := hv.length_pos
    have hlen' := hr.length_pos
    simp only [List.length_append, List.length_cons] at hfuel
    obtain ⟨k, rfl⟩ := hv.exists_fuel (show 2 * d.length ≤ k by omega)
    have hvalue : readValueWith (k + 1) depth (d ++ (rest' ++ rest)) = .ok (v, rest' ++ rest) :=
      ihv hheight.1 hr.endsNumber_members k (by omega)
    have hmembers : readMembersWith (k + 1) depth false (rest' ++ rest) = .ok (ms, rest) :=
      ihr hheight.2 hrest k (by omega)
    show readMembersWith _ _ _ _ = _
    simp only [List.append_assoc, List.cons_append]
    exact readMembersWith_member hs hn hw hw' hvalue hmembers

/-! ### What is read is denoted -/

theorem exists_blank (bs : Bytes) : ∃ ws, Blank ws ∧ bs = ws ++ skipBlanks bs :=
  ⟨bs.takeWhile isBlank, fun _ => List.mem_takeWhile_imp, List.takeWhile_append_dropWhile.symm⟩

theorem Blank.append {ws' : Bytes} (h : Blank ws) (h' : Blank ws') : Blank (ws ++ ws') := by
  intro b hb
  exact (List.mem_append.1 hb).elim (h b) (h' b)

theorem Separator.append (hs : Separator isFirst sep) (hw : Blank ws) :
    Separator isFirst (sep ++ ws) := by
  cases hs with
  | first hw' => exact .first (hw'.append hw)
  | next hw' hw'' =>
    rw [List.append_assoc, List.cons_append]
    exact .next hw' (hw''.append hw)

theorem eq_of_readLiteral {cs : List Char} (h : cs.all (·.toNat < 0x80) = true)
    (hread : readLiteral cs bs = .ok rest) : bs = Utf8.encode cs ++ rest := by
  induction cs generalizing bs with
  | nil =>
    cases hread
    rfl
  | cons c cs ih =>
    obtain ⟨hc, hcs⟩ := Bool.and_eq_true_iff.1 h
    cases bs with
    | nil => cases hread
    | cons b bs =>
      rw [readLiteral] at hread
      split at hread
      · next hb =>
        rw [Utf8.encode_cons, encodeChar_of_lt (of_decide_eq_true hc), ih hcs hread, hb]
        rfl
      · cases hread

theorem blank_of_readColon (h : readColon bs = .ok rest) :
    ∃ ws, Blank ws ∧ bs = ws ++ byte ':' :: rest := by
  obtain ⟨ws, hw, hbs⟩ := exists_blank bs
  rw [readColon] at h
  split at h
  · cases h
  · next hskip =>
    split at h
    · next hb =>
      cases h
      exact ⟨ws, hw, by rw [hbs, hskip, hb]⟩
    · cases h

/-- What stands in front of the next item or the end of an array. -/
theorem step_of_nextItem {step : Step} (h : nextItem isFirst bs = .ok step) :
    (∃ ws rest, step = .finished rest ∧ Blank ws ∧ bs = ws ++ byte ']' :: rest) ∨
      ∃ sep rest, step = .more rest ∧ Separator isFirst sep ∧ bs = sep ++ rest := by
  obtain ⟨ws, hw, hbs⟩ := exists_blank bs
  rw [nextItem] at h
  split at h
  · cases h
  · next b after hskip =>
    rw [hskip] at hbs
    split at h
    · next hb =>
      cases h
      exact .inl ⟨ws, after, rfl, hw, hb ▸ hbs⟩
    split at h
    · next hfirst =>
      cases h
      subst hfirst
      exact .inr ⟨ws, b :: after, rfl, .first hw, hbs⟩
    split at h
    · cases h
    · next hfirst hcomma =>
      obtain ⟨ws', hw', hafter⟩ := exists_blank after
      split at h
      · cases h
      · next c after' hskip' =>
        split at h
        · cases h
        · cases h
          have hnext : Separator isFirst (ws ++ byte ',' :: ws') := by
            rw [Bool.not_eq_true] at hfirst
            rw [hfirst]
            exact .next hw hw'
          refine .inr ⟨_, c :: after', rfl, hnext, ?_⟩
          rw [hbs, not_not.1 hcomma, hafter, hskip']
          simp

/-- What stands in front of the next member or the end of an object. -/
theorem step_of_nextMember {step : Step} (h : nextMember isFirst bs = .ok step) :
    (∃ ws rest, step = .finished rest ∧ Blank ws ∧ bs = ws ++ byte '\x7d' :: rest) ∨
      ∃ sep rest, step = .more rest ∧ Separator isFirst sep ∧ bs = sep ++ byte '"' :: rest := by
  obtain ⟨ws, hw, hbs⟩ := exists_blank bs
  rw [nextMember] at h
  dsimp only at h
  split at h
  · cases h
  · next b after hskip =>
    rw [hskip] at hbs
    split at h
    · next hb =>
      cases h
      exact .inl ⟨ws, after, rfl, hw, hb ▸ hbs⟩
    split at h
    · next hfirst =>
      subst hfirst
      split at h
      · next hquote =>
        cases h
        exact .inr ⟨ws, after, rfl, .first hw, hquote ▸ hbs⟩
      · cases h
    split at h
    · cases h
    · next hfirst hcomma =>
      obtain ⟨ws', hw', hafter⟩ := exists_blank after
      split at h
      · cases h
      · next c after' hskip' =>
        split at h
        · next hquote =>
          cases h
          have hnext : Separator isFirst (ws ++ byte ',' :: ws') := by
            rw [Bool.not_eq_true] at hfirst
            rw [hfirst]
            exact .next hw hw'
          refine .inr ⟨_, after', rfl, hnext, ?_⟩
          rw [hbs, not_not.1 hcomma, hafter, hskip', hquote]
          simp
        split at h <;> cases h

/-- A number that is read is one of its texts. -/
theorem numberOf_of_readNumber {negative : Bool} {n : Number}
    (h : readNumber negative bs = .ok (n, rest)) :
    ∃ d, NumberOf n (signOf negative ++ d) ∧ bs = d ++ rest := by
  obtain ⟨ds, fraction, exponent, hd, hf, he, hstops, hbs⟩ := exists_of_readNumber h
  have hread : readNumber negative ((ds ++ (fraction ++ exponent)) ++ rest) = .ok (n, rest) := by
    rw [← h, hbs]
    simp
  obtain ⟨-, hn⟩ := (local_number hd hf he).rest_eq hstops hread
  exact ⟨ds ++ (fraction ++ exponent), .mk hd hf he hn, by rw [hbs]; simp⟩

theorem eq_of_literal_value {cs : List Char} {v w : Value} (hcs : cs.all (·.toNat < 0x80) = true)
    (h : (readLiteral cs bs).map (w, ·) = .ok (v, rest)) :
    v = w ∧ bs = Utf8.encode cs ++ rest := by
  obtain ⟨after, hliteral, heq⟩ := exists_of_map_eq_ok h
  cases heq
  exact ⟨rfl, eq_of_readLiteral hcs hliteral⟩

theorem denotes_of_number_value {negative : Bool} {v : Value}
    (h : ((readNumber negative bs).map fun (n, r) => (.number n, r)) = .ok (v, rest)) :
    ∃ d, Denotes (.value v) (signOf negative ++ d) ∧ v.height = 0 ∧ bs = d ++ rest := by
  obtain ⟨⟨n, after⟩, hnumber, heq⟩ := exists_of_map_eq_ok h
  cases heq
  obtain ⟨d, hd, hbs⟩ := numberOf_of_readNumber hnumber
  exact ⟨d, .number hd, rfl, hbs⟩

/-- A string that is read behind its opening quote. -/
theorem spelling_of_readString {s : String} (h : readString bs = .ok (s, rest)) :
    ∃ c, Spelling s.toList c ∧ bs = c ++ byte '"' :: rest := by
  obtain ⟨⟨cs, after⟩, hchars, heq⟩ := exists_of_map_eq_ok h
  cases heq
  obtain ⟨c, hc, hbs⟩ := spelling_of_readChars hchars
  exact ⟨c, by rwa [String.toList_ofList], hbs⟩

theorem denotes_of_string_value {v : Value}
    (h : ((readString bs).map fun (s, r) => (.string s, r)) = .ok (v, rest)) :
    ∃ d, Denotes (.value v) (byte '"' :: d) ∧ v.height = 0 ∧ bs = d ++ rest := by
  obtain ⟨⟨s, after⟩, hstring, heq⟩ := exists_of_map_eq_ok h
  cases heq
  obtain ⟨c, hc, rfl⟩ := spelling_of_readString hstring
  exact ⟨c ++ [byte '"'], .string ⟨c, hc, rfl⟩, rfl, by simp⟩

/-- Readers whose results are denoted by what they took. -/
structure Sound (fuel : Nat) : Prop where
  value : ∀ {depth : Nat} {bs rest : Bytes} {v : Value}, 0 < depth →
    readValueWith fuel depth bs = .ok (v, rest) →
    ∃ ws d, Blank ws ∧ Denotes (.value v) d ∧ v.height < depth ∧ bs = ws ++ (d ++ rest)
  items : ∀ {depth : Nat} {isFirst : Bool} {bs rest : Bytes} {vs : List Value}, 0 < depth →
    readItemsWith fuel depth isFirst bs = .ok (vs, rest) →
    ∃ d, Denotes (.items isFirst vs) d ∧ heightItems vs < depth ∧ bs = d ++ rest
  members : ∀ {depth : Nat} {isFirst : Bool} {bs rest : Bytes} {ms : List (String × Value)},
    0 < depth → readMembersWith fuel depth isFirst bs = .ok (ms, rest) →
    ∃ d, Denotes (.members isFirst ms) d ∧ heightMembers ms < depth ∧ bs = d ++ rest

theorem Sound.items_succ {fuel : Nat} (h : Sound fuel) {depth : Nat} {vs : List Value}
    (hdepth : 0 < depth) (hread : readItemsWith (fuel + 1) depth isFirst bs = .ok (vs, rest)) :
    ∃ d, Denotes (.items isFirst vs) d ∧ heightItems vs < depth ∧ bs = d ++ rest := by
  rw [readItemsWith] at hread
  split at hread
  · cases hread
  · next hnext =>
    cases hread
    rcases step_of_nextItem hnext with ⟨ws, rest, ⟨⟩, hw, rfl⟩ | ⟨sep, rest, ⟨⟩, -⟩
    exact ⟨ws ++ [byte ']'], .noItem hw, hdepth, by simp⟩
  · next hnext =>
    split at hread
    · cases hread
    · next v after hvalue =>
      obtain ⟨⟨vs, after'⟩, hitems, heq⟩ := exists_of_map_eq_ok hread
      cases heq
      rcases step_of_nextItem hnext with ⟨ws, rest, ⟨⟩, -⟩ | ⟨sep, rest, ⟨⟩, hs, rfl⟩
      obtain ⟨ws, d, hw, hd, hheight, rfl⟩ := h.value hdepth hvalue
      obtain ⟨d', hd', hheights, rfl⟩ := h.items hdepth hitems
      refine ⟨(sep ++ ws) ++ (d ++ d'), .item (hs.append hw) hd hd',
        Nat.max_lt.2 ⟨hheight, hheights⟩, ?_⟩
      simp

theorem Sound.members_succ {fuel : Nat} (h : Sound fuel) {depth : Nat}
    {ms : List (String × Value)} (hdepth : 0 < depth)
    (hread : readMembersWith (fuel + 1) depth isFirst bs = .ok (ms, rest)) :
    ∃ d, Denotes (.members isFirst ms) d ∧ heightMembers ms < depth ∧ bs = d ++ rest := by
  rw [readMembersWith] at hread
  split at hread
  · cases hread
  · next hnext =>
    cases hread
    rcases step_of_nextMember hnext with ⟨ws, rest, ⟨⟩, hw, rfl⟩ | ⟨sep, rest, ⟨⟩, -⟩
    exact ⟨ws ++ [byte '\x7d'], .noMember hw, hdepth, by simp⟩
  · next hnext =>
    split at hread
    · cases hread
    · next name after hname =>
      split at hread
      · cases hread
      · next after' hcolon =>
        split at hread
        · cases hread
        · next v after'' hvalue =>
          obtain ⟨⟨ms, after⟩, hmembers, heq⟩ := exists_of_map_eq_ok hread
          cases heq
          rcases step_of_nextMember hnext with ⟨ws, rest, ⟨⟩, -⟩ | ⟨sep, rest, ⟨⟩, hs, rfl⟩
          obtain ⟨c, hn, rfl⟩ := spelling_of_readString hname
          obtain ⟨ws, hw, rfl⟩ := blank_of_readColon hcolon
          obtain ⟨ws', d, hw', hd, hheight, rfl⟩ := h.value hdepth hvalue
          obtain ⟨d', hd', hheights, rfl⟩ := h.members hdepth hmembers
          refine ⟨_, .member hs hn hw hw' hd hd', Nat.max_lt.2 ⟨hheight, hheights⟩, ?_⟩
          simp

theorem Sound.array_value {fuel : Nat} (h : Sound fuel) {depth : Nat} {v : Value}
    (hdepth : 1 < depth)
    (hread : ((readItemsWith fuel (depth - 1) true bs).map fun (vs, r) => (.array vs, r)) =
      .ok (v, rest)) :
    ∃ d, Denotes (.value v) (byte '[' :: d) ∧ v.height < depth ∧ bs = d ++ rest := by
  obtain ⟨⟨vs, after⟩, hitems, heq⟩ := exists_of_map_eq_ok hread
  cases heq
  obtain ⟨d, hd, hheight, hbs⟩ := h.items (by omega) hitems
  refine ⟨d, .array hd, ?_, hbs⟩
  show heightItems vs + 1 < depth
  omega

theorem Sound.object_value {fuel : Nat} (h : Sound fuel) {depth : Nat} {v : Value}
    (hdepth : 1 < depth)
    (hread : ((readMembersWith fuel (depth - 1) true bs).map fun (ms, r) => (.object ms, r)) =
      .ok (v, rest)) :
    ∃ d, Denotes (.value v) (byte '\x7b' :: d) ∧ v.height < depth ∧ bs = d ++ rest := by
  obtain ⟨⟨ms, after⟩, hmembers, heq⟩ := exists_of_map_eq_ok hread
  cases heq
  obtain ⟨d, hd, hheight, hbs⟩ := h.members (by omega) hmembers
  refine ⟨d, .object hd, ?_, hbs⟩
  show heightMembers ms + 1 < depth
  omega

/-- The text of a value that is read is found behind the blanks, by its first byte. -/
theorem Sound.value_succ {fuel : Nat} (h : Sound fuel) {depth : Nat} {v : Value}
    (hdepth : 0 < depth) (hread : readValueWith (fuel + 1) depth bs = .ok (v, rest)) :
    ∃ ws d, Blank ws ∧ Denotes (.value v) d ∧ v.height < depth ∧ bs = ws ++ (d ++ rest) := by
  obtain ⟨ws, hw, hbs⟩ := exists_blank bs
  suffices htext : ∃ d, Denotes (.value v) d ∧ v.height < depth ∧ skipBlanks bs = d ++ rest by
    obtain ⟨d, hd, hheight, hskip⟩ := htext
    exact ⟨ws, d, hw, hd, hheight, by rw [hbs, hskip]⟩
  rw [readValueWith] at hread
  split at hread
  · cases hread
  next b after hskip =>
  rw [hskip]
  split at hread
  · next hb =>
    obtain ⟨rfl, rfl⟩ := eq_of_literal_value (by decide) hread
    exact ⟨_, .null, hdepth, by rw [hb]; rfl⟩
  split at hread
  · next hb =>
    obtain ⟨rfl, rfl⟩ := eq_of_literal_value (by decide) hread
    exact ⟨_, .yes, hdepth, by rw [hb]; rfl⟩
  split at hread
  · next hb =>
    obtain ⟨rfl, rfl⟩ := eq_of_literal_value (by decide) hread
    exact ⟨_, .no, hdepth, by rw [hb]; rfl⟩
  split at hread
  · next hb =>
    obtain ⟨d, hd, hheight, rfl⟩ := denotes_of_number_value hread
    exact ⟨_, hd, hheight ▸ hdepth, by rw [hb]; rfl⟩
  split at hread
  · obtain ⟨d, hd, hheight, hafter⟩ := denotes_of_number_value hread
    exact ⟨_, hd, hheight ▸ hdepth, hafter⟩
  split at hread
  · next hb =>
    obtain ⟨d, hd, hheight, rfl⟩ := denotes_of_string_value hread
    exact ⟨_, hd, hheight ▸ hdepth, by rw [hb]; rfl⟩
  split at hread
  · next hb =>
    split at hread
    · cases hread
    · next hdeep =>
      obtain ⟨d, hd, hheight, rfl⟩ := h.array_value (Nat.not_le.1 hdeep) hread
      exact ⟨_, hd, hheight, by rw [hb]; rfl⟩
  split at hread
  · next hb =>
    split at hread
    · cases hread
    · next hdeep =>
      obtain ⟨d, hd, hheight, rfl⟩ := h.object_value (Nat.not_le.1 hdeep) hread
      exact ⟨_, hd, hheight, by rw [hb]; rfl⟩
  · cases hread

/-- What is read is denoted by the text that was taken. -/
theorem sound (fuel : Nat) : Sound fuel := by
  induction fuel with
  | zero =>
    constructor
    -- without fuel nothing is read
    all_goals
      intros
      contradiction
  | succ fuel ih => exact ⟨ih.value_succ, ih.items_succ, ih.members_succ⟩

/-! ### Whole texts -/

/-- A text of a document with blanks around it. -/
def IsText (v : Value) (bs : Bytes) : Prop :=
  ∃ ws d ws', Blank ws ∧ Blank ws' ∧ Denotes (.value v) d ∧ bs = ws ++ (d ++ ws')

theorem blank_of_skipBlanks (h : skipBlanks bs = []) : Blank bs := by
  obtain ⟨ws, hw, hbs⟩ := exists_blank bs
  rw [hbs, h, List.append_nil]
  exact hw

/-- A text is read as a document exactly if it is a text of the document, whose brackets nest less
than 128 deep. -/
theorem parse_eq_ok_iff {v : Value} :
    Value.parse bs = .ok v ↔ IsText v bs ∧ v.height < 128 := by
  constructor
  · intro h
    rw [Value.parse, whole] at h
    split at h
    · cases h
    · next w rest hread =>
      split at h
      · next hblank =>
        cases h
        obtain ⟨ws, d, hw, hd, hheight, hbs⟩ := (sound _).value (by decide) hread
        exact ⟨⟨ws, d, rest, hw, blank_of_skipBlanks hblank, hd, hbs⟩, hheight⟩
      · cases h
  · rintro ⟨⟨ws, d, ws', hw, hw', hd, rfl⟩, hheight⟩
    have hread : readValue (ws ++ (d ++ ws')) = .ok (v, ws') := by
      rw [readValue, readValueWith_blank hw]
      refine hd.reads ?_ hheight (endsNumber_blank hw')
      simp only [List.length_append]
      omega
    rw [Value.parse, whole, hread]
    simp [skipBlanks_of_blank hw']

/-! ### Printed texts -/

/-- What the printer writes for the characters of a string spells them. -/
theorem spelling_flatMap (cs : List Char) : Spelling cs (Utf8.encode (cs.flatMap escapeChar)) := by
  obtain ⟨ds, hds, heq⟩ := spelling_of_readChars (readChars_flatMap cs [])
  rwa [List.append_cancel_right heq]

/-- So do the digits it writes for a natural number. -/
theorem numberOf_toDigits {n : Nat} (hn : n ≤ maxCoefficient) :
    NumberOf (.unsigned n) (Utf8.encode (Nat.toDigits 10 n)) := by
  have hend : EndsNumber [] := nofun
  obtain ⟨d, hd, heq⟩ := numberOf_of_readNumber (readNumber_toDigits hn hend)
  rwa [List.append_cancel_right heq]

/-- A text with strings and numbers as the printer writes them denotes its piece. -/
theorem Written.denotes {p : Piece} (h : Written p bs) : Denotes p bs := by
  induction h with
  | null => exact .null
  | yes => exact .yes
  | no => exact .no
  | number hn => exact .number (numberOf_toDigits hn)
  | string s => exact .string ⟨_, spelling_flatMap s.toList, encode_quoted s⟩
  | array h ih => exact .array ih
  | object h ih => exact .object ih
  | noItem hw => exact .noItem hw
  | item hs hv hr ihv ihr => exact .item hs ihv ihr
  | noMember hw => exact .noMember hw
  | @member isFirst sep ws ws' d rest name v ms hs hw hw' hv hr ihv ihr =>
    have hmember := Denotes.member hs (spelling_flatMap name.toList) hw hw' ihv ihr
    simpa only [encode_quoted, List.cons_append, List.append_assoc, List.nil_append] using hmember

/-- A whole text is read as its document, blanks behind it being passed over. -/
theorem parse_of_written {v : Value} (h : Written (.value v) bs) (hv : v.height < 128)
    (hw : Blank ws) : Value.parse (bs ++ ws) = .ok v :=
  parse_eq_ok_iff.2 ⟨⟨[], bs, ws, Blank.nil, hw, h.denotes, rfl⟩, hv⟩

end SecretStore.Json
