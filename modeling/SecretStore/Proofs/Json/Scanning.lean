import Mathlib.Data.List.TakeWhile
import SecretStore.Proofs.Json.Tokens
import SecretStore.Proofs.Utf8

/-!
# Scanning strings and numbers

What the readers of strings and numbers take is a text of the grammar, and a number is read as a
whole: what follows it makes no difference as long as it cannot belong to it.

* `spelling_of_readChars`: the contents of a string that is read spell its characters.
* `steady_number`, `local_number`, `exists_of_readNumber`: a number is read up to where its text
  `Stops`, or it is too large.
-/

namespace SecretStore.Json

variable {α β : Type} {r : Reader α} {bs rest : Bytes} {b : UInt8}

/-! ### What a reader takes -/

/-- What a reader takes from a text that stands alone. -/
def taken (r : Reader α) (d : Bytes) : Option α := (r d).toOption.map Prod.fst

theorem toOption_eq_none_iff {ε : Type} {x : Except ε α} :
    x.toOption = none ↔ ∃ e, x = .error e := by
  cases x with
  | error e => exact ⟨fun _ => ⟨e, rfl⟩, fun _ => rfl⟩
  | ok a => exact ⟨nofun, nofun⟩

theorem toOption_eq_some_iff {ε : Type} {x : Except ε α} {a : α} :
    x.toOption = some a ↔ x = .ok a := by
  cases x with
  | error e => exact ⟨nofun, nofun⟩
  | ok a' => exact ⟨fun h => congrArg _ (Option.some.inj h), fun h => congrArg _ (Except.ok.inj h)⟩

theorem toOption_map {ε : Type} (f : α → β) (x : Except ε α) :
    (x.map f).toOption = x.toOption.map f := by
  cases x <;> rfl

theorem exists_of_map_eq_ok {ε : Type} {x : Except ε α} {f : α → β} {b : β}
    (h : x.map f = .ok b) : ∃ a, x = .ok a ∧ f a = b := by
  cases x with
  | error e => cases h
  | ok a => exact ⟨a, rfl, Except.ok.inj h⟩

/-- A reader takes this much of a text, whatever of some kind follows. -/
def Local (r : Reader α) (d : Bytes) (follows : Bytes → Prop) : Prop :=
  ∀ rest, follows rest → (r (d ++ rest)).toOption = (taken r d).map fun a => (a, rest)

theorem local_of_forall {d : Bytes} {follows : Bytes → Prop} (hnil : follows []) {o : Option α}
    (h : ∀ rest, follows rest → (r (d ++ rest)).toOption = o.map fun a => (a, rest)) :
    Local r d follows := by
  have ho : taken r d = o := by
    have hread := h [] hnil
    rw [List.append_nil] at hread
    rw [taken, hread, Option.map_map]
    exact Option.map_id' ..
  rwa [Local, ho]

/-- A reader takes the same of a text, or finds it too large at the same place, whatever of some
kind follows. -/
inductive Steady (r : Reader α) (d : Bytes) (follows : Bytes → Prop) : Prop
  | ok (a : α) (h : ∀ rest, follows rest → r (d ++ rest) = .ok (a, rest))
  | error (es : Bytes)
      (h : ∀ rest, follows rest → r (d ++ rest) = .error ⟨.numberOutOfRange, es ++ rest⟩)

theorem Steady.local {d : Bytes} {follows : Bytes → Prop} (h : Steady r d follows)
    (hnil : follows []) : Local r d follows := by
  cases h with
  | ok a h =>
    refine local_of_forall hnil (o := some a) fun rest hr => ?_
    rw [h rest hr]
    rfl
  | error es h =>
    refine local_of_forall hnil (o := none) fun rest hr => ?_
    rw [h rest hr]
    rfl

/-- Reading one text may amount to reading another one. -/
theorem Steady.of_eq {r' : Reader α} {d d' : Bytes} {follows follows' : Bytes → Prop}
    (h : Steady r' d' follows') (hf : ∀ rest, follows rest → follows' rest)
    (heq : ∀ rest, follows rest → r (d ++ rest) = r' (d' ++ rest)) : Steady r d follows := by
  cases h with
  | ok a h => exact .ok a fun rest hr => (heq rest hr).trans (h rest (hf rest hr))
  | error es h => exact .error es fun rest hr => (heq rest hr).trans (h rest (hf rest hr))

/-! ### Strings -/

/-- Four digits that are read are those of the number. -/
theorem hex_of_readHex {n : Nat} (h : readHex bs = .ok (n, rest)) :
    ∃ ds, Hex n ds ∧ bs = ds ++ rest := by
  match bs, h with
  | a :: b :: c :: d :: bs, h =>
    rw [readHex] at h
    split at h
    · next ha hb hc hd =>
      cases h
      exact ⟨[a, b, c, d], .mk ha hb hc hd, rfl⟩
    · cases h
  | [], h | [_], h | [_, _], h | [_, _, _], h => cases h

/-- So is the second half of a surrogate pair. -/
theorem hex_of_readPair {high : Nat} {c : Char} (h : readPair high bs = .ok (c, rest)) :
    ∃ low ds, Hex low ds ∧ isTrailing low = true ∧ c = paired high low ∧
      bs = byte '\\' :: byte 'u' :: (ds ++ rest) := by
  unfold readPair at h
  split at h
  · cases h
  split at h
  · cases h
  · next hslash =>
    split at h
    · cases h
    split at h
    · cases h
    · next hu =>
      split at h
      · cases h
      · next low rest' hhex =>
        split at h
        · next ht =>
          obtain ⟨ds, hds, rfl⟩ := hex_of_readHex hhex
          obtain ⟨hc, rfl⟩ := Prod.mk.inj (Except.ok.inj h)
          exact ⟨low, ds, hds, ht, hc.symm, by rw [not_not.1 hslash, not_not.1 hu]⟩
        · cases h

/-- In front of the contents of a string some bytes spell one more character. -/
def Leads (c : Char) (front : Bytes) : Prop :=
  ∀ cs bs, Spelling cs bs → Spelling (c :: cs) (front ++ bs)

theorem leads_code {n : Nat} {ds : Bytes} (hd : Hex n ds) (hl : isLeading n = false)
    (ht : isTrailing n = false) : Leads (Char.ofNat n) (byte '\\' :: byte 'u' :: ds) := by
  intro cs bs hs
  rw [List.cons_append, List.cons_append]
  exact .code hd hl ht hs

theorem leads_pair {high low : Nat} {ds es : Bytes} (hd : Hex high ds) (he : Hex low es)
    (hl : isLeading high = true) (ht : isTrailing low = true) :
    Leads (paired high low) (byte '\\' :: byte 'u' :: (ds ++ byte '\\' :: byte 'u' :: es)) := by
  intro cs bs hs
  simpa using Spelling.pair hd he hl ht hs

/-- An escape that is read spells a character. -/
theorem front_of_readEscape {c : Char} (h : readEscape bs = .ok (c, rest)) :
    ∃ front, byte '\\' :: bs = front ++ rest ∧ Leads c front := by
  unfold readEscape at h
  split at h
  · cases h
  · next b bs =>
    split at h
    · next he =>
      cases h
      exact ⟨[byte '\\', b], rfl, fun cs tail => .short he⟩
    · split at h
      · cases h
      · next hu =>
        split at h
        · cases h
        · next n rest' hhex =>
          obtain ⟨ds, hds, rfl⟩ := hex_of_readHex hhex
          rw [not_not.1 hu]
          split at h
          · cases h
          · next ht =>
            split at h
            · next hl =>
              obtain ⟨low, es, hes, htl, hc, rfl⟩ := hex_of_readPair h
              exact ⟨byte '\\' :: byte 'u' :: (ds ++ byte '\\' :: byte 'u' :: es), by simp,
                hc ▸ leads_pair hds hes hl htl⟩
            · next hl =>
              obtain ⟨rfl, rfl⟩ := Prod.mk.inj (Except.ok.inj h)
              simp only [Bool.not_eq_true] at ht hl
              exact ⟨byte '\\' :: byte 'u' :: ds, by simp, leads_code hds hl ht⟩

/-- So does a character that needs no escape. -/
theorem leads_of_next {b : UInt8} {c : Char} (hq : b ≠ byte '"') (hs : b ≠ byte '\\')
    (hc : ¬b < 0x20) (h : Utf8.next? (b :: bs) = some (c, rest)) :
    b :: bs = Utf8.encodeChar c ++ rest ∧ Leads c (Utf8.encodeChar c) := by
  have heq := Utf8.eq_encodeChar_append h
  have hhead (hlt : c.toNat < 0x80) : b = byte c := by
    rw [encodeChar_of_lt hlt] at heq
    exact (List.cons.inj heq).1
  refine ⟨heq, fun cs tail => .plain ?_ ?_ ?_⟩
  · rintro rfl
    exact hq (hhead (by decide))
  · rintro rfl
    exact hs (hhead (by decide))
  · by_contra hlt
    have hb := hhead (by omega)
    refine hc ?_
    rw [UInt8.lt_iff_toNat_lt, hb, toNat_byte (by omega)]
    exact Nat.lt_of_not_le hlt

/-- What is read up to the closing quote is spelled by the contents. -/
theorem spelling_of_readChars {cs : List Char} (h : readChars bs = .ok (cs, rest)) :
    ∃ ds, Spelling cs ds ∧ bs = ds ++ byte '"' :: rest := by
  fun_induction readChars bs generalizing cs with
  | case1 => cases h
  | case2 =>
    cases h
    exact ⟨[], .nil, rfl⟩
  | case3 => cases h
  | case4 bs c rest' hescape _ _ ih =>
    obtain ⟨⟨cs, after⟩, hread, heq⟩ := exists_of_map_eq_ok h
    cases heq
    obtain ⟨ds, hds, rfl⟩ := ih hread
    obtain ⟨front, hfront, hleads⟩ := front_of_readEscape hescape
    exact ⟨front ++ ds, hleads cs ds hds, by rw [hfront, List.append_assoc]⟩
  | case5 => cases h
  | case6 b bs hq hs hcontrol c rest' hnext _ ih =>
    obtain ⟨⟨cs, after⟩, hread, heq⟩ := exists_of_map_eq_ok h
    cases heq
    obtain ⟨ds, hds, rfl⟩ := ih hread
    obtain ⟨hfront, hleads⟩ := leads_of_next hq hs hcontrol hnext
    exact ⟨Utf8.encodeChar c ++ ds, hleads cs ds hds, by rw [hfront, List.append_assoc]⟩
  | case7 => cases h

/-! ### Exponents -/

section Reading

variable {negative full : Bool} {coefficient : Nat} {shift : Int}

theorem noDigit_nil : NoDigit [] := nofun

theorem noDigit_dropWhile (bs : Bytes) : NoDigit (bs.dropWhile isDigit) := by
  intro b hb
  have hhead := List.head?_dropWhile_not isDigit bs
  rw [Option.mem_def.1 hb] at hhead
  exact hhead

/-- What ends with the digits that were gathered. -/
theorem steady_of_scaled {r : Reader Number} {d : Bytes} {follows : Bytes → Prop} {exponent : Int}
    (h : ∀ rest, follows rest → r (d ++ rest) = scaled negative coefficient exponent rest) :
    Steady r d follows := by
  cases hx : Binary64.ofScaled negative coefficient exponent with
  | some x => exact .ok (.float x) fun rest hr => by rw [h rest hr, scaled, hx]
  | none => exact .error [] fun rest hr => by rw [h rest hr, scaled, hx, List.nil_append]

/-- The digits of an exponent are gathered whatever follows them, or one of them is too many. -/
theorem gatherExponent_append {ds : Bytes} (hd : ∀ b ∈ ds, isDigit b = true) (start : Nat) :
    (∃ n, ∀ rest, NoDigit rest → gatherExponent start (ds ++ rest) = .ok (n, rest)) ∨
      ∃ es, (∀ b ∈ es, isDigit b = true) ∧
        ∀ rest, NoDigit rest → gatherExponent start (ds ++ rest) = .error (es ++ rest) := by
  induction ds generalizing start with
  | nil =>
    refine .inl ⟨start, fun rest hr => ?_⟩
    cases rest with
    | nil => rfl
    | cons b rest => simp [gatherExponent, hr b rfl]
  | cons b ds ih =>
    obtain ⟨hb, hds⟩ := List.forall_mem_cons.1 hd
    by_cases hlarge : start * 10 + (b.toNat - 0x30) > maxExponent
    · exact .inr ⟨ds, hds, fun rest _ => by simp [gatherExponent, hb, hlarge]⟩
    · refine (ih hds (start * 10 + (b.toNat - 0x30))).imp ?_ ?_
      · rintro ⟨n, h⟩
        exact ⟨n, fun rest hr => by simp [gatherExponent, hb, hlarge, h rest hr]⟩
      · rintro ⟨es, hes, h⟩
        exact ⟨es, hes, fun rest hr => by simp [gatherExponent, hb, hlarge, h rest hr]⟩

/-- An exponent whose sign is known. -/
theorem readExponent_append {sign : Bytes}
    (hs : sign = [] ∨ sign = [byte '+'] ∨ sign = [byte '-']) (hb : isDigit b = true) (bs : Bytes) :
    readExponent negative coefficient shift (sign ++ b :: bs) =
      match gatherExponent (b.toNat - 0x30) bs with
      | .ok (n, rest) =>
        scaled negative coefficient (if sign = [byte '-'] then shift - n else shift + n) rest
      | .error rest =>
        if coefficient ≠ 0 ∧ sign ≠ [byte '-'] then .error ⟨.numberOutOfRange, rest⟩
        else .ok (.float (Binary64.zero negative), rest.dropWhile isDigit) := by
  have hplus : b ≠ byte '+' := ne_of_isDigit hb (by decide)
  have hminus : b ≠ byte '-' := ne_of_isDigit hb (by decide)
  have hne : byte '+' ≠ byte '-' := by decide
  rcases hs with rfl | rfl | rfl
  · simp only [readExponent, List.nil_append, if_neg hplus, if_neg hminus, if_pos hb]
    cases gatherExponent (b.toNat - 0x30) bs <;> simp
  · simp only [readExponent, List.singleton_append, if_true, if_pos hb]
    cases gatherExponent (b.toNat - 0x30) bs <;> simp [hne]
  · simp only [readExponent, List.singleton_append, if_neg hne.symm, if_true, if_pos hb]
    cases gatherExponent (b.toNat - 0x30) bs <;> simp

theorem steady_exponent {sign ds : Bytes}
    (hs : sign = [] ∨ sign = [byte '+'] ∨ sign = [byte '-']) (hd : Digits ds) :
    Steady (readExponent negative coefficient shift) (sign ++ ds) NoDigit := by
  obtain ⟨hne, hall⟩ := hd
  obtain ⟨b, ds, rfl⟩ := List.exists_cons_of_ne_nil hne
  obtain ⟨hb, hds⟩ := List.forall_mem_cons.1 hall
  rcases gatherExponent_append hds (b.toNat - 0x30) with ⟨n, hn⟩ | ⟨es, hes, hlarge⟩
  · apply steady_of_scaled
    intro rest hr
    rw [List.append_assoc, List.cons_append, readExponent_append hs hb, hn rest hr]
  · by_cases hout : coefficient ≠ 0 ∧ sign ≠ [byte '-']
    · refine .error es fun rest hr => ?_
      rw [List.append_assoc, List.cons_append, readExponent_append hs hb, hlarge rest hr]
      exact if_pos hout
    · refine .ok (.float (Binary64.zero negative)) fun rest hr => ?_
      rw [List.append_assoc, List.cons_append, readExponent_append hs hb, hlarge rest hr]
      simp only [if_neg hout, dropWhile_digits hes hr]

theorem eq_of_scaled {exponent : Int} {n : Number} {rest' : Bytes}
    (h : scaled negative coefficient exponent rest = .ok (n, rest')) : rest' = rest := by
  rw [scaled] at h
  split at h
  · cases h
    rfl
  · cases h

theorem Local.rest_eq {d : Bytes} {follows : Bytes → Prop} (h : Local r d follows)
    (hr : follows rest) {a : α} {rest' : Bytes} (hread : r (d ++ rest) = .ok (a, rest')) :
    rest' = rest ∧ taken r d = some a := by
  have hlocal := h rest hr
  rw [hread] at hlocal
  obtain ⟨a', ha', heq⟩ := Option.map_eq_some_iff.1 hlocal.symm
  obtain ⟨rfl, rfl⟩ := Prod.mk.inj heq
  exact ⟨rfl, ha'⟩

/-- The digits from some byte on, and what follows them. -/
theorem digits_of_isDigit (hb : isDigit b = true) (bs : Bytes) :
    ∃ ds rest, Digits (b :: ds) ∧ NoDigit rest ∧ bs = ds ++ rest := by
  refine ⟨bs.takeWhile isDigit, bs.dropWhile isDigit, ⟨List.cons_ne_nil _ _, ?_⟩,
    noDigit_dropWhile bs, (List.takeWhile_append_dropWhile).symm⟩
  exact List.forall_mem_cons.2 ⟨hb, fun b hb => (List.mem_takeWhile_imp hb)⟩

/-- What is read behind an exponent mark is a sign and digits. -/
theorem exists_of_readExponent {n : Number}
    (h : readExponent negative coefficient shift bs = .ok (n, rest)) :
    ∃ sign ds, (sign = [] ∨ sign = [byte '+'] ∨ sign = [byte '-']) ∧ Digits ds ∧ NoDigit rest ∧
      bs = sign ++ (ds ++ rest) := by
  obtain ⟨sign, b, bs', hs, hb, rfl⟩ : ∃ sign b bs',
      (sign = [] ∨ sign = [byte '+'] ∨ sign = [byte '-']) ∧ isDigit b = true ∧
        bs = sign ++ b :: bs' := by
    have hne : byte '-' ≠ byte '+' := by decide
    -- behind a sign, or at once, there has to be a digit
    match bs with
    | [] => simp [readExponent] at h
    | a :: bs =>
      by_cases hplus : a = byte '+'
      · subst hplus
        cases bs with
        | nil => simp [readExponent] at h
        | cons b bs =>
          by_cases hb : isDigit b = true
          · exact ⟨[byte '+'], b, bs, .inr (.inl rfl), hb, rfl⟩
          · simp [readExponent, hb] at h
      by_cases hminus : a = byte '-'
      · subst hminus
        cases bs with
        | nil => simp [readExponent, hne] at h
        | cons b bs =>
          by_cases hb : isDigit b = true
          · exact ⟨[byte '-'], b, bs, .inr (.inr rfl), hb, rfl⟩
          · simp [readExponent, hne, hb] at h
      · by_cases hb : isDigit a = true
        · exact ⟨[], a, bs, .inl rfl, hb, rfl⟩
        · simp [readExponent, hplus, hminus, hb] at h
  obtain ⟨ds, rest', hd, hr, rfl⟩ := digits_of_isDigit hb bs'
  have hlocal : Local (readExponent negative coefficient shift) (sign ++ b :: ds) NoDigit :=
    (steady_exponent hs hd).local noDigit_nil
  have hread : readExponent negative coefficient shift ((sign ++ b :: ds) ++ rest') =
      .ok (n, rest) := by
    rw [← h]
    simp
  obtain ⟨rfl, -⟩ := hlocal.rest_eq hr hread
  exact ⟨sign, b :: ds, hs, hd, hr, by simp⟩

/-! ### Fractions -/

/-- What may follow a number without becoming a part of it. -/
def Stops (fraction exponent rest : Bytes) : Prop :=
  NoDigit rest ∧ (exponent = [] → ∀ b ∈ rest.head?, isExponentMark b = false) ∧
    (exponent = [] → fraction = [] → ∀ b ∈ rest.head?, b ≠ byte '.')

theorem EndsNumber.stops (h : EndsNumber rest) (fraction exponent : Bytes) :
    Stops fraction exponent rest :=
  ⟨h.noDigit, fun _ b hb => (h b hb).2.2, fun _ _ b hb => (h b hb).2.1⟩

/-- The coefficient with one more digit. -/
def Gathered.step (g : Gathered) (b : UInt8) : Gathered :=
  let n := g.coefficient * 10 + (b.toNat - 0x30)
  if g.full then g
  else if n > maxCoefficient then { g with full := true }
  else { g with coefficient := n, taken := g.taken + 1 }

theorem gather_eq_foldl (start : Nat) (ds : Bytes) :
    gather start ds = ds.foldl Gathered.step ⟨start, 0, false⟩ := rfl

/-- Once a digit was taken or did not fit, one was or did not. -/
theorem started_foldl (ds : Bytes) {g : Gathered} (h : g.full = true ∨ 0 < g.taken) :
    (ds.foldl Gathered.step g).full = true ∨ 0 < (ds.foldl Gathered.step g).taken := by
  induction ds generalizing g with
  | nil => exact h
  | cons b ds ih =>
    refine ih ?_
    unfold Gathered.step
    dsimp only
    split
    · exact h
    split
    · exact .inl rfl
    · exact .inr (Nat.succ_pos _)

theorem gather_started (start : Nat) {ds : Bytes} (h : ds ≠ []) :
    ¬((gather start ds).taken = 0 ∧ (!(gather start ds).full) = true) := by
  obtain ⟨b, ds, rfl⟩ := List.exists_cons_of_ne_nil h
  rw [gather_eq_foldl, List.foldl_cons]
  have hfirst : (Gathered.step ⟨start, 0, false⟩ b).full = true ∨
      0 < (Gathered.step ⟨start, 0, false⟩ b).taken := by
    unfold Gathered.step
    simp only [Bool.false_eq_true, if_false]
    split
    · exact .inl rfl
    · exact .inr (Nat.succ_pos _)
  rcases started_foldl ds hfirst with h | h
  · simp [h]
  · exact fun ⟨hzero, _⟩ => absurd hzero (Nat.ne_of_gt h)

theorem Stops.noDigit_exponent {fraction exponent : Bytes} (he : Exponent exponent)
    (h : Stops fraction exponent rest) : NoDigit (exponent ++ rest) := by
  cases he with
  | none => exact h.1
  | some he hs hd =>
    rintro _ ⟨⟩
    exact (not_isDigit_of_isExponentMark he).1

theorem stops_nil (fraction exponent : Bytes) : Stops fraction exponent [] :=
  ⟨noDigit_nil, fun _ => nofun, fun _ _ => nofun⟩

/-- A fraction without an exponent. -/
theorem readFraction_stop {ds : Bytes} (hd : Digits ds) (hr : NoDigit rest)
    (hm : ∀ b ∈ rest.head?, isExponentMark b = false) :
    readFraction negative coefficient shift (ds ++ rest) =
      scaled negative (gather coefficient ds).coefficient (shift - (gather coefficient ds).taken)
        rest := by
  unfold readFraction
  simp only [takeWhile_digits hd.2 hr, dropWhile_digits hd.2 hr]
  rw [if_neg (gather_started _ hd.1)]
  cases rest with
  | nil => rfl
  | cons b rest => simp only [hm b rfl, Bool.false_eq_true, if_false]

/-- A fraction with an exponent. -/
theorem readFraction_mark {ds : Bytes} {e : UInt8} (hd : Digits ds) (he : isExponentMark e = true)
    (rest : Bytes) :
    readFraction negative coefficient shift (ds ++ e :: rest) =
      readExponent negative (gather coefficient ds).coefficient
        (shift - (gather coefficient ds).taken) rest := by
  have hr : NoDigit (e :: rest) := by
    rintro _ ⟨⟩
    exact (not_isDigit_of_isExponentMark he).1
  unfold readFraction
  simp only [takeWhile_digits hd.2 hr, dropWhile_digits hd.2 hr]
  rw [if_neg (gather_started _ hd.1)]
  simp only [he, if_true]

theorem steady_fraction {ds exponent : Bytes} (hd : Digits ds) (he : Exponent exponent) :
    Steady (readFraction negative coefficient shift) (ds ++ exponent)
      (Stops (byte '.' :: ds) exponent) := by
  cases he with
  | none =>
    apply steady_of_scaled
    intro rest h
    rw [List.append_nil, readFraction_stop hd h.1 (h.2.1 rfl)]
  | @some e sign es he hs hes =>
    apply (steady_exponent hs hes).of_eq fun rest h => h.1
    intro rest h
    rw [List.append_assoc, List.cons_append, readFraction_mark hd he]

/-- What is read behind a point is digits and an exponent. -/
theorem exists_of_readFraction {n : Number}
    (h : readFraction negative coefficient shift bs = .ok (n, rest)) :
    ∃ ds exponent, Digits ds ∧ Exponent exponent ∧ Stops (byte '.' :: ds) exponent rest ∧
      bs = ds ++ (exponent ++ rest) := by
  obtain ⟨b, bs', hb, rfl⟩ : ∃ b bs', isDigit b = true ∧ bs = b :: bs' := by
    match bs with
    | [] => simp [readFraction, gather] at h
    | b :: bs =>
      by_cases hb : isDigit b = true
      · exact ⟨b, bs, hb, rfl⟩
      · simp [readFraction, gather, hb] at h
  obtain ⟨ds, rest', hd, hr, rfl⟩ := digits_of_isDigit hb bs'
  rw [← List.cons_append] at h ⊢
  by_cases hm : ∀ b ∈ rest'.head?, isExponentMark b = false
  · have hstops : Stops (byte '.' :: b :: ds) [] rest' := ⟨hr, fun _ => hm, fun _ => nofun⟩
    have hlocal : Local (readFraction negative coefficient shift) (b :: ds ++ []) _ :=
      (steady_fraction hd .none).local (stops_nil _ _)
    rw [← List.append_nil (b :: ds)] at h
    obtain ⟨rfl, -⟩ := hlocal.rest_eq hstops h
    exact ⟨b :: ds, [], hd, .none, hstops, rfl⟩
  · cases rest' with
    | nil => exact absurd nofun hm
    | cons e rest' =>
      have he : isExponentMark e = true := by simpa using hm
      rw [readFraction_mark hd he] at h
      obtain ⟨sign, es, hs, hes, hnd, rfl⟩ := exists_of_readExponent h
      refine ⟨b :: ds, e :: (sign ++ es), hd, .some he hs hes, ⟨hnd, nofun, nofun⟩, ?_⟩
      simp

/-! ### Numbers -/

theorem readNumber_integral {ds : Bytes} (hd : Integral ds) (hr : NoDigit rest) :
    readNumber negative (ds ++ rest) =
      readRest negative (gather 0 ds).coefficient (ds.length - (gather 0 ds).taken)
        (gather 0 ds).full rest := by
  obtain ⟨⟨hne, hall⟩, hzero⟩ := hd
  obtain ⟨b, ds, rfl⟩ := List.exists_cons_of_ne_nil hne
  by_cases hb : b = byte '0'
  · obtain rfl : ds = [] := by simpa [hb] using hzero
    subst hb
    rw [List.singleton_append, readNumber.eq_def]
    dsimp only
    rw [if_pos rfl]
    cases rest with
    | nil => rfl
    | cons e rest =>
      simp only [hr e rfl, Bool.false_eq_true, if_false]
      rfl
  · rw [List.cons_append, readNumber.eq_def]
    dsimp only
    rw [if_neg hb, if_pos (hall b List.mem_cons_self), ← List.cons_append,
      takeWhile_digits hall hr, dropWhile_digits hall hr]

section Rest

variable {places : Nat}

/-- What the digits amount to without a fraction and an exponent. -/
theorem readRest_stop (hm : ∀ b ∈ rest.head?, isExponentMark b = false)
    (hp : ∀ b ∈ rest.head?, b ≠ byte '.') :
    readRest negative coefficient places full rest =
      if full then scaled negative coefficient places rest
      else .ok (integer negative coefficient, rest) := by
  cases rest with
  | nil => rfl
  | cons b rest =>
    simp only [readRest, if_neg (hp b rfl), hm b rfl, Bool.false_eq_true, if_false]

theorem readRest_mark {e : UInt8} (he : isExponentMark e = true) (rest : Bytes) :
    readRest negative coefficient places full (e :: rest) =
      readExponent negative coefficient places rest := by
  simp only [readRest, if_neg (not_isDigit_of_isExponentMark he).2, he, if_true]

/-- What follows the integral digits. -/
theorem steady_rest {fraction exponent : Bytes} (hf : Fraction fraction) (he : Exponent exponent) :
    Steady (readRest negative coefficient places full) (fraction ++ exponent)
      (Stops fraction exponent) := by
  cases hf with
  | @some ds hd => exact (steady_fraction hd he).of_eq (fun rest h => h) fun rest h => rfl
  | none =>
    cases he with
    | none =>
      cases full with
      | true =>
        apply steady_of_scaled
        intro rest h
        rw [List.append_nil, List.nil_append, readRest_stop (h.2.1 rfl) (h.2.2 rfl rfl)]
        exact if_pos rfl
      | false =>
        refine .ok (integer negative coefficient) fun rest h => ?_
        rw [List.append_nil, List.nil_append, readRest_stop (h.2.1 rfl) (h.2.2 rfl rfl)]
        exact if_neg (by decide)
    | @some e sign es he hs hes =>
      apply (steady_exponent hs hes).of_eq fun rest h => h.1
      intro rest h
      rw [List.nil_append, List.cons_append, readRest_mark he]

/-- What is read behind integral digits is a fraction and an exponent. -/
theorem exists_of_readRest {n : Number} (hnd : NoDigit bs)
    (h : readRest negative coefficient places full bs = .ok (n, rest)) :
    ∃ fraction exponent, Fraction fraction ∧ Exponent exponent ∧ Stops fraction exponent rest ∧
      bs = fraction ++ (exponent ++ rest) := by
  by_cases hp : ∀ b ∈ bs.head?, b ≠ byte '.'
  · by_cases hm : ∀ b ∈ bs.head?, isExponentMark b = false
    · rw [readRest_stop hm hp] at h
      have hrest : rest = bs := by
        split at h
        · exact eq_of_scaled h
        · cases h
          rfl
      subst hrest
      exact ⟨[], [], .none, .none, ⟨hnd, fun _ => hm, fun _ _ => hp⟩, rfl⟩
    · cases bs with
      | nil => exact absurd nofun hm
      | cons e bs =>
        have he : isExponentMark e = true := by simpa using hm
        rw [readRest_mark he] at h
        obtain ⟨sign, es, hs, hes, hr, rfl⟩ := exists_of_readExponent h
        exact ⟨[], e :: (sign ++ es), .none, .some he hs hes, ⟨hr, nofun, nofun⟩, by simp⟩
  · cases bs with
    | nil => exact absurd nofun hp
    | cons b bs =>
      obtain rfl : b = byte '.' := by simpa using hp
      have hread : readFraction negative coefficient places bs = .ok (n, rest) := h
      obtain ⟨ds, exponent, hd, he, hstops, rfl⟩ := exists_of_readFraction hread
      exact ⟨byte '.' :: ds, exponent, .some hd, he, hstops, rfl⟩

end Rest

theorem Stops.noDigit {fraction exponent : Bytes} (hf : Fraction fraction) (he : Exponent exponent)
    (h : Stops fraction exponent rest) : NoDigit (fraction ++ (exponent ++ rest)) := by
  cases hf with
  | none =>
    rw [List.nil_append]
    exact h.noDigit_exponent he
  | some hd =>
    rintro _ ⟨⟩
    decide

/-- A number whose sign has been taken. -/
theorem steady_number {ds fraction exponent : Bytes} (hd : Integral ds) (hf : Fraction fraction)
    (he : Exponent exponent) :
    Steady (readNumber negative) (ds ++ (fraction ++ exponent)) (Stops fraction exponent) := by
  apply (steady_rest hf he).of_eq fun rest h => h
  intro rest h
  rw [List.append_assoc, List.append_assoc, readNumber_integral hd (h.noDigit hf he),
    ← List.append_assoc]

theorem local_number {ds fraction exponent : Bytes} (hd : Integral ds) (hf : Fraction fraction)
    (he : Exponent exponent) :
    Local (readNumber negative) (ds ++ (fraction ++ exponent)) (Stops fraction exponent) :=
  (steady_number hd hf he).local (stops_nil _ _)

/-- What is read of a number is its text. -/
theorem exists_of_readNumber {n : Number} (h : readNumber negative bs = .ok (n, rest)) :
    ∃ ds fraction exponent, Integral ds ∧ Fraction fraction ∧ Exponent exponent ∧
      Stops fraction exponent rest ∧ bs = ds ++ (fraction ++ (exponent ++ rest)) := by
  obtain ⟨ds, rest', hd, hr, rfl⟩ : ∃ ds rest', Integral ds ∧ NoDigit rest' ∧ bs = ds ++ rest' := by
    match bs with
    | [] => cases h
    | b :: bs =>
      by_cases hzero : b = byte '0'
      · subst hzero
        have hdigits : Digits [byte '0'] :=
          ⟨List.cons_ne_nil _ _, List.forall_mem_singleton.2 (by decide)⟩
        refine ⟨[byte '0'], bs, ⟨hdigits, fun _ => rfl⟩, ?_, rfl⟩
        intro c hc
        cases bs with
        | nil => cases hc
        | cons c bs =>
          cases hc
          by_contra hdigit
          simp only [Bool.not_eq_false] at hdigit
          simp [readNumber, hdigit] at h
      · by_cases hb : isDigit b = true
        · obtain ⟨ds, rest', hd, hr, rfl⟩ := digits_of_isDigit hb bs
          refine ⟨b :: ds, rest', ⟨hd, fun hhead => ?_⟩, hr, rfl⟩
          exact absurd (Option.some.inj hhead) hzero
        · rw [readNumber.eq_def] at h
          simp [hzero, hb] at h
  rw [readNumber_integral hd hr] at h
  obtain ⟨fraction, exponent, hf, he, hstops, rfl⟩ := exists_of_readRest hr h
  exact ⟨ds, fraction, exponent, hd, hf, he, hstops, rfl⟩

end Reading

end SecretStore.Json
