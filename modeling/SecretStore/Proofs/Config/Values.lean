import Mathlib.Data.List.DropRight
import SecretStore.Config.Environment

/-!
# What the value of a variable stands for

The value of a variable is a text only by its looks. `Plain` describes the texts that stand for
themselves: those that are no truth value, no number, and no list, table or quoted text up to their
end.

* `parse_eq_text_iff`: the plain texts are exactly those, among texts without blanks.
* `parse_quote`: every text of one line is what its quoted form stands for.
-/

namespace SecretStore.Config.Environment

open Text (isBlank trim trimLeft trimRight)

variable {cs : List Char} {c : Char}

/-! ### Blanks -/

theorem trim_eq_self (hhead : ∀ c ∈ cs.head?, isBlank c = false)
    (hlast : ∀ c ∈ cs.getLast?, isBlank c = false) : trim cs = cs := by
  have hleft : cs.dropWhile isBlank = cs := by
    cases cs with
    | nil => rfl
    | cons c cs => exact List.dropWhile_cons_of_neg (by simpa using hhead c rfl)
  have hright : cs.rdropWhile isBlank = cs := by
    rw [List.rdropWhile_eq_self_iff]
    intro hne
    simpa using hlast _ (List.getLast?_eq_getLast_of_ne_nil hne)
  rw [trim, trimLeft, hleft]
  exact hright

theorem trim_of_no_blank (h : ∀ c ∈ cs, isBlank c = false) : trim cs = cs :=
  trim_eq_self (fun c hc => h c (List.mem_of_mem_head? hc))
    fun c hc => h c (List.mem_of_mem_getLast? hc)

theorem isSpace_eq_false (h : isBlank c = false) : isSpace c = false := by
  rw [Bool.eq_false_iff] at h ⊢
  refine fun hs => h ?_
  simp only [isSpace, Bool.or_eq_true, decide_eq_true_eq] at hs
  rcases hs with (((rfl | rfl) | rfl) | rfl) | rfl <;> decide

theorem skipSpace_of_no_blank (h : ∀ c ∈ cs, isBlank c = false) : skipSpace cs = cs := by
  cases cs with
  | nil => rfl
  | cons c cs =>
    exact List.dropWhile_cons_of_neg (by simpa using isSpace_eq_false (h c List.mem_cons_self))

/-! ### Numbers -/

/-- A text spells a number. -/
def IsNumber (cs : List Char) : Prop :=
  ('.' ∈ cs ∧ (Number.float? cs).isSome) ∨ (Number.natural? cs).isSome ∨
    (Number.integer? cs).isSome

/-- A value without structure is a number or a text by its looks. -/
theorem bare_cases (h : ∀ c ∈ cs, isBlank c = false) :
    (IsNumber cs ∧ ∃ n, bare cs = .number .environment n) ∨
      ¬IsNumber cs ∧ bare cs = .text .environment (String.ofList cs) := by
  unfold bare
  simp only [trim_of_no_blank h]
  split
  · next x hx =>
    rw [Option.ite_none_right_eq_some] at hx
    exact .inl ⟨.inl ⟨hx.1, by rw [hx.2]; rfl⟩, _, rfl⟩
  next hfloat =>
  split
  · next n hn => exact .inl ⟨.inr (.inl (by rw [hn]; rfl)), _, rfl⟩
  next hnatural =>
  split
  · next i hi => exact .inl ⟨.inr (.inr (by rw [hi]; rfl)), _, rfl⟩
  next hinteger =>
  refine .inr ⟨?_, rfl⟩
  rintro (⟨hpoint, hsome⟩ | hsome | hsome)
  · rw [if_pos hpoint] at hfloat
    simp [hfloat] at hsome
  · simp [hnatural] at hsome
  · simp [hinteger] at hsome

/-- A character that stands in numbers. -/
def inNumber (c : Char) : Prop := c.isDigit ∨ c ∈ ['+', '-', '.', 'e', 'E']

/-- A character of a number has no other part to play in a value. -/
theorem ne_of_inNumber (h : inNumber c) : isBlank c = false ∧ isSeparator c = false ∧ c ≠ 't' ∧
    c ≠ 'f' ∧ c ≠ '"' ∧ c ≠ '\'' := by
  rcases h with h | h
  · have hall : ∀ n < 58, 48 ≤ n → isBlank (Char.ofNat n) = false ∧
        isSeparator (Char.ofNat n) = false ∧ Char.ofNat n ≠ 't' ∧ Char.ofNat n ≠ 'f' ∧
        Char.ofNat n ≠ '"' ∧ Char.ofNat n ≠ '\'' := by decide
    obtain ⟨hl, hu⟩ := Char.isDigit_iff_toNat.1 h
    simpa only [Char.ofNat_toNat] using hall c.toNat (Nat.lt_succ_of_le hu) hl
  · simp only [List.mem_cons, List.not_mem_nil, or_false] at h
    rcases h with rfl | rfl | rfl | rfl | rfl <;> decide

theorem inNumber_of_digits? {n : Nat} (h : Number.digits? cs = some n) :
    ∀ c ∈ cs, inNumber c := by
  rw [Number.digits?, Option.ite_none_right_eq_some] at h
  exact fun c hc => .inl (List.all_eq_true.1 h.1.2 c hc)

theorem inNumber_cons (hc : c ∈ ['+', '-', '.', 'e', 'E']) (h : ∀ c ∈ cs, inNumber c) :
    ∀ d ∈ c :: cs, inNumber d :=
  List.forall_mem_cons.2 ⟨.inr hc, h⟩

theorem inNumber_of_natural? {n : Nat} (h : Number.natural? cs = some n) :
    ∀ c ∈ cs, inNumber c := by
  obtain ⟨m, hm, -⟩ := Option.bind_eq_some_iff.1 h
  split at hm
  · exact inNumber_cons (by decide) (inNumber_of_digits? hm)
  · exact inNumber_of_digits? hm

/-- The digits of a number with a sign. -/
theorem inNumber_of_signed {f : Int → Int} {j : Int}
    (h : (((Number.digits? cs).bind fun n => some (n : Int)).map f) = some j) :
    ∀ c ∈ cs, inNumber c := by
  obtain ⟨i, hi, -⟩ := Option.map_eq_some_iff.1 h
  obtain ⟨n, hn, -⟩ := Option.bind_eq_some_iff.1 hi
  exact inNumber_of_digits? hn

theorem inNumber_of_integer? {i : Int} (h : Number.integer? cs = some i) :
    ∀ c ∈ cs, inNumber c := by
  unfold Number.integer? at h
  split at h
  all_goals obtain ⟨j, hj, -⟩ := Option.bind_eq_some_iff.1 h
  · exact inNumber_cons (by decide) (inNumber_of_signed hj)
  · exact inNumber_cons (by decide) (inNumber_of_signed hj)
  · exact inNumber_of_signed hj

theorem inNumber_of_exponent? {i : Int} (h : Number.exponent? cs = some i) :
    ∀ c ∈ cs, inNumber c := by
  unfold Number.exponent? at h
  split at h
  · exact inNumber_cons (by decide) (inNumber_of_signed h)
  · exact inNumber_cons (by decide) (inNumber_of_signed h)
  · exact inNumber_of_signed h

theorem exists_of_dropWhile {p : Char → Bool} {d : Char} {rest : List Char}
    (h : cs.dropWhile p = d :: rest) : cs = cs.takeWhile p ++ d :: rest ∧ p d = false := by
  refine ⟨by rw [← h, List.takeWhile_append_dropWhile], ?_⟩
  have hhead := List.head?_dropWhile_not p cs
  rw [h] at hhead
  simpa using hhead

theorem inNumber_of_mantissa {n : Nat}
    (h : Number.digits? (cs.takeWhile (· ≠ '.') ++ (cs.dropWhile (· ≠ '.')).drop 1) = some n) :
    ∀ c ∈ cs, inNumber c := by
  have hall := inNumber_of_digits? h
  cases hd : cs.dropWhile (· ≠ '.') with
  | nil =>
    rw [List.takeWhile_eq_self_iff.2 (List.dropWhile_eq_nil_iff.1 hd), hd] at hall
    simpa using hall
  | cons d rest =>
    obtain ⟨hcs, hpoint⟩ := exists_of_dropWhile hd
    rw [hd] at hall
    obtain ⟨hwhole, hfraction⟩ := List.forall_mem_append.1 hall
    rw [hcs]
    refine List.forall_mem_append.2 ⟨hwhole, inNumber_cons ?_ hfraction⟩
    rw [show d = '.' by simpa using hpoint]
    decide

theorem inNumber_of_float? {x : Binary64} (h : Number.float? cs = some x) :
    ∀ c ∈ cs, inNumber c := by
  unfold Number.float? at h
  split at h
  next negative unsigned hsign =>
  suffices hunsigned : ∀ c ∈ unsigned, inNumber c by
    split at hsign
    all_goals obtain ⟨-, rfl⟩ := Prod.mk.inj hsign
    · exact inNumber_cons (by decide) hunsigned
    · exact inNumber_cons (by decide) hunsigned
    · exact hunsigned
  dsimp only at h
  split at h
  · next hdrop =>
    obtain ⟨e, -, h⟩ := Option.bind_eq_some_iff.1 h
    obtain ⟨n, hn, -⟩ := Option.bind_eq_some_iff.1 h
    have hmantissa := inNumber_of_mantissa hn
    rwa [List.takeWhile_eq_self_iff.2 (List.dropWhile_eq_nil_iff.1 hdrop)] at hmantissa
  · next mark rest hdrop =>
    obtain ⟨e, he, h⟩ := Option.bind_eq_some_iff.1 h
    obtain ⟨n, hn, -⟩ := Option.bind_eq_some_iff.1 h
    obtain ⟨hcs, hmark⟩ := exists_of_dropWhile hdrop
    rw [hcs]
    refine List.forall_mem_append.2 ⟨inNumber_of_mantissa hn,
      inNumber_cons ?_ (inNumber_of_exponent? he)⟩
    simp only [Bool.not_eq_false', Bool.or_eq_true, decide_eq_true_eq] at hmark
    rcases hmark with rfl | rfl <;> decide

theorem IsNumber.inNumber (h : IsNumber cs) : ∀ c ∈ cs, inNumber c := by
  rcases h with ⟨-, hsome⟩ | hsome | hsome
  all_goals obtain ⟨a, ha⟩ := Option.isSome_iff_exists.1 hsome
  · exact inNumber_of_float? ha
  · exact inNumber_of_natural? ha
  · exact inNumber_of_integer? ha

/-! ### Texts that stand for themselves -/

/-- A character that begins a list, a table or a quoted text. -/
def opens (c : Char) : Prop := c ∈ ['\x7b', '[', '"', '\'']

/-- A text is read as one value up to its end. -/
def Complete (cs : List Char) : Prop := ∃ v, value? (2 * cs.length + 2) cs = some (v, [])

/-- A text that stands for itself. -/
structure Plain (s : String) : Prop where
  noFlag : s ≠ "true" ∧ s ≠ "false"
  noNumber : ¬IsNumber s.toList
  noStructure : (∃ c ∈ s.toList.head?, opens c) → ¬Complete s.toList

theorem length_escape? {c : Char} {rest : List Char} (h : Toml.escape? cs = some (c, rest)) :
    rest.length ≤ cs.length := by
  have hdigits {n m : Nat} {cs : List Char} (h : Toml.hexDigits n cs = some (m, rest)) :
      rest.length ≤ cs.length := by
    rw [Toml.hexDigits, Option.ite_none_right_eq_some] at h
    obtain ⟨-, rfl⟩ := Prod.mk.inj (Option.some.inj h.2)
    rw [List.length_drop]
    exact Nat.sub_le _ _
  unfold Toml.escape? at h
  split at h
  case h_8 | h_9 =>
    obtain ⟨⟨m, r⟩, hm, h⟩ := Option.bind_eq_some_iff.1 h
    obtain ⟨c', -, h⟩ := Option.bind_eq_some_iff.1 h
    cases h
    exact Nat.le_succ_of_le (hdigits hm)
  case h_10 => cases h
  all_goals
    cases h
    exact Nat.le_succ _

/-- A text is not longer than its spelling with escapes. -/
theorem length_unescape {fuel : Nat} {s : List Char} (h : unescape fuel cs = some s) :
    s.length ≤ cs.length := by
  induction fuel generalizing cs s with
  | zero => cases h
  | succ fuel ih =>
    unfold unescape at h
    split at h
    · cases h
      exact Nat.le_refl _
    · obtain ⟨⟨c, rest⟩, hc, h⟩ := Option.bind_eq_some_iff.1 h
      obtain ⟨s', hs, h⟩ := Option.bind_eq_some_iff.1 h
      cases h
      exact Nat.succ_le_succ (Nat.le_trans (ih hs) (length_escape? hc))
    · obtain ⟨-, h⟩ := Option.ite_none_right_eq_some.1 h
      obtain ⟨s', hs, rfl⟩ := Option.map_eq_some_iff.1 h
      exact Nat.succ_le_succ (ih hs)

theorem length_upToQuote {inner rest : List Char} (h : upToQuote cs = some (inner, rest)) :
    inner.length < cs.length := by
  induction cs using upToQuote.induct generalizing inner with
  | case1 => cases h
  | case2 =>
    cases h
    exact Nat.succ_pos _
  | case3 c tail ih =>
    rw [upToQuote] at h
    obtain ⟨⟨s, r⟩, hs, heq⟩ := Option.map_eq_some_iff.1 h
    cases heq
    exact Nat.succ_lt_succ (Nat.succ_lt_succ (ih hs))
  | case4 c tail hquote hescape ih =>
    rw [upToQuote] at h
    · obtain ⟨⟨s, r⟩, hs, heq⟩ := Option.map_eq_some_iff.1 h
      cases heq
      exact Nat.succ_lt_succ (ih hs)
    · exact hquote
    · exact hescape

theorem length_quoted? {t : String} {rest : List Char} (h : quoted? cs = some (t, rest)) :
    t.length + 1 < cs.length := by
  unfold quoted? at h
  split at h
  · obtain ⟨⟨inner, r⟩, hinner, h⟩ := Option.bind_eq_some_iff.1 h
    obtain ⟨s, hs, h⟩ := Option.bind_eq_some_iff.1 h
    cases h
    have hlt := length_upToQuote hinner
    have hle := length_unescape hs
    rw [String.length_ofList, List.length_cons]
    omega
  · cases h

/-- A text without blanks that is read as one value up to its end is a truth value, or has
structure and does not stand for itself, or has none. -/
theorem value?_cases (hblank : ∀ c ∈ cs, isBlank c = false) {fuel : Nat} {v : Setting}
    (h : value? (fuel + 1) cs = some (v, [])) :
    (cs = "true".toList ∧ v = .flag .environment true) ∨
      (cs = "false".toList ∧ v = .flag .environment false) ∨
      ((∃ c ∈ cs.head?, opens c) ∧ v ≠ .text .environment (String.ofList cs)) ∨
      (¬∃ c ∈ cs.head?, opens c) ∧ v = bare cs := by
  have hskip {rest : List Char} (hsuffix : rest <:+ cs) (hnil : skipSpace rest = []) :
      rest = [] := by
    rwa [skipSpace_of_no_blank fun c hc => hblank c (hsuffix.mem hc)] at hnil
  unfold value? at h
  rw [skipSpace_of_no_blank hblank] at h
  split at h
  · next rest =>
    obtain ⟨rfl, hrest⟩ := Prod.mk.inj (Option.some.inj h)
    obtain rfl := hskip ⟨['t', 'r', 'u', 'e'], rfl⟩ hrest
    exact .inl ⟨rfl, rfl⟩
  · next rest =>
    obtain ⟨rfl, hrest⟩ := Prod.mk.inj (Option.some.inj h)
    obtain rfl := hskip ⟨['f', 'a', 'l', 's', 'e'], rfl⟩ hrest
    exact .inr (.inl ⟨rfl, rfl⟩)
  · obtain ⟨⟨es, r⟩, -, heq⟩ := Option.map_eq_some_iff.1 h
    obtain ⟨rfl, -⟩ := Prod.mk.inj heq
    exact .inr (.inr (.inl ⟨⟨_, rfl, by simp [opens]⟩, by rintro ⟨⟩⟩))
  · obtain ⟨⟨vs, r⟩, -, heq⟩ := Option.map_eq_some_iff.1 h
    obtain ⟨rfl, -⟩ := Prod.mk.inj heq
    exact .inr (.inr (.inl ⟨⟨_, rfl, by simp [opens]⟩, by rintro ⟨⟩⟩))
  · obtain ⟨⟨t, r⟩, ht, heq⟩ := Option.map_eq_some_iff.1 h
    obtain ⟨rfl, -⟩ := Prod.mk.inj heq
    refine .inr (.inr (.inl ⟨⟨_, rfl, by simp [opens]⟩, fun hself => ?_⟩))
    -- what is quoted is shorter than the text itself
    have hlength := length_quoted? ht
    rw [(Setting.text.inj hself).2, String.length_ofList] at hlength
    omega
  · split at h
    · obtain ⟨rfl, -⟩ := Prod.mk.inj (Option.some.inj h)
      refine .inr (.inr (.inl ⟨⟨_, rfl, by simp [opens]⟩, fun hself => ?_⟩))
      have hlength := congrArg String.length (Setting.text.inj hself).2
      rw [String.length_ofList, Char.toString_eq_singleton, String.length_singleton] at hlength
      cases hlength
    · cases h
  · next hbrace hbracket hquote happostrophe =>
    obtain ⟨rfl, hrest⟩ := Prod.mk.inj (Option.some.inj h)
    have hdrop := hskip (List.dropWhile_suffix _) hrest
    rw [List.takeWhile_eq_self_iff.2 (List.dropWhile_eq_nil_iff.1 hdrop)]
    refine .inr (.inr (.inr ⟨?_, rfl⟩))
    rintro ⟨c, hc, hopens⟩
    obtain ⟨rest, rfl⟩ := List.head?_eq_some_iff.1 hc
    simp only [opens, List.mem_cons, List.not_mem_nil, or_false] at hopens
    rcases hopens with rfl | rfl | rfl | rfl
    · exact hbrace _ rfl
    · exact hbracket _ rfl
    · exact hquote _ rfl
    · exact happostrophe _ rfl

/-- The spelling of a number is read as that number. -/
theorem value?_of_inNumber (h : ∀ c ∈ cs, inNumber c) (fuel : Nat) :
    value? (fuel + 1) cs = some (bare cs, []) := by
  have hseparator : ∀ c ∈ cs, (!isSeparator c) = true := fun c hc => by
    rw [(ne_of_inNumber (h c hc)).2.1]
    rfl
  unfold value?
  rw [skipSpace_of_no_blank fun c hc => (ne_of_inNumber (h c hc)).1]
  split
  · exact absurd rfl (ne_of_inNumber (h _ List.mem_cons_self)).2.2.1
  · exact absurd rfl (ne_of_inNumber (h _ List.mem_cons_self)).2.2.2.1
  · cases hseparator _ List.mem_cons_self
  · cases hseparator _ List.mem_cons_self
  · exact absurd rfl (ne_of_inNumber (h _ List.mem_cons_self)).2.2.2.2.1
  · exact absurd rfl (ne_of_inNumber (h _ List.mem_cons_self)).2.2.2.2.2
  · rw [List.takeWhile_eq_self_iff.2 hseparator, List.dropWhile_eq_nil_iff.2 hseparator]
    rfl

theorem parse_of_complete {s : String} {v : Setting} (hblank : ∀ c ∈ s.toList, isBlank c = false)
    (h : value? (2 * s.toList.length + 2) s.toList = some (v, [])) : parse s = v := by
  simp only [parse, trim_of_no_blank hblank, h]

theorem parse_of_not_complete {s : String} (hblank : ∀ c ∈ s.toList, isBlank c = false)
    (h : ¬Complete s.toList) : parse s = .text .environment s := by
  simp only [parse, trim_of_no_blank hblank]
  split
  · next v hv => exact absurd ⟨v, hv⟩ h
  · rw [String.ofList_toList]

/-- The texts without blanks that stand for themselves are the plain ones. -/
theorem parse_eq_text_iff {s : String} (hblank : ∀ c ∈ s.toList, isBlank c = false) :
    parse s = .text .environment s ↔ Plain s := by
  constructor
  · intro h
    refine ⟨⟨?_, ?_⟩, fun hnumber => ?_, ?_⟩
    · rintro rfl
      cases h
    · rintro rfl
      cases h
    · rw [parse_of_complete hblank (value?_of_inNumber hnumber.inNumber _)] at h
      rcases bare_cases hblank with ⟨-, n, hn⟩ | ⟨hnone, -⟩
      · rw [hn] at h
        cases h
      · exact hnone hnumber
    · rintro hopens ⟨v, hv⟩
      obtain rfl := (parse_of_complete hblank hv).symm.trans h
      rcases value?_cases hblank hv with ⟨-, ⟨⟩⟩ | ⟨-, ⟨⟩⟩ | ⟨-, hne⟩ | ⟨hnone, -⟩
      · exact hne (by rw [String.ofList_toList])
      · exact hnone hopens
  · intro hplain
    by_cases hcomplete : Complete s.toList
    · obtain ⟨v, hv⟩ := hcomplete
      rw [parse_of_complete hblank hv]
      rcases value?_cases hblank hv with ⟨htrue, -⟩ | ⟨hfalse, -⟩ | ⟨hopens, -⟩ | ⟨-, rfl⟩
      · exact absurd (String.toList_inj.1 htrue) hplain.noFlag.1
      · exact absurd (String.toList_inj.1 hfalse) hplain.noFlag.2
      · exact absurd ⟨v, hv⟩ (hplain.noStructure hopens)
      · rcases bare_cases hblank with ⟨hnumber, -⟩ | ⟨-, hbare⟩
        · exact absurd hnumber hplain.noNumber
        · rw [hbare, String.ofList_toList]
    · exact parse_of_not_complete hblank hcomplete

theorem source_value? {fuel : Nat} {v : Setting} {rest : List Char}
    (h : value? fuel cs = some (v, rest)) : v.source = .environment := by
  cases fuel with
  | zero => cases h
  | succ fuel =>
    unfold value? at h
    split at h
    case h_3 | h_4 | h_5 =>
      obtain ⟨⟨_, _⟩, -, heq⟩ := Option.map_eq_some_iff.1 h
      cases heq
      rfl
    case h_6 =>
      split at h
      · cases h
        rfl
      · cases h
    case h_7 =>
      cases h
      unfold bare
      dsimp only
      split
      · rfl
      · split
        · rfl
        · split <;> rfl
    all_goals
      cases h
      rfl

/-- The value of a variable comes from the environment. -/
theorem source_parse (s : String) : (parse s).source = .environment := by
  rw [parse]
  split
  · next h => exact source_value? h
  · rfl

/-! ### Quoted texts -/

/-- A text with a backslash in front of quotes and backslashes. -/
def escaped (cs : List Char) : List Char :=
  cs.flatMap fun c => if c = '"' ∨ c = '\\' then ['\\', c] else [c]

/-- A text between double quotes. -/
def quote (t : String) : String := String.ofList ('"' :: (escaped t.toList ++ ['"']))

theorem escaped_cons_of_mark (h : c = '"' ∨ c = '\\') (cs : List Char) :
    escaped (c :: cs) = '\\' :: c :: escaped cs := by
  rw [escaped, List.flatMap_cons, if_pos h]
  rfl

theorem escaped_cons_of_plain (h : ¬(c = '"' ∨ c = '\\')) (cs : List Char) :
    escaped (c :: cs) = c :: escaped cs := by
  rw [escaped, List.flatMap_cons, if_neg h]
  rfl

theorem upToQuote_escaped (cs rest : List Char) :
    upToQuote (escaped cs ++ '"' :: rest) = some (escaped cs, rest) := by
  induction cs with
  | nil => rfl
  | cons c cs ih =>
    by_cases hc : c = '"' ∨ c = '\\'
    · rw [escaped_cons_of_mark hc, List.cons_append, List.cons_append, upToQuote, ih]
      rfl
    · rw [escaped_cons_of_plain hc, List.cons_append, upToQuote, ih]
      · rfl
      · exact fun he => hc (.inl he)
      · exact fun _ _ he => absurd he (fun he => hc (.inr he))

theorem unescape_escaped (h : ∀ c ∈ cs, Toml.inString c = true) {fuel : Nat}
    (hfuel : (escaped cs).length < fuel) : unescape fuel (escaped cs) = some cs := by
  induction cs generalizing fuel with
  | nil =>
    obtain ⟨fuel, rfl⟩ := Nat.exists_eq_add_one_of_ne_zero (Nat.ne_zero_of_lt hfuel)
    rfl
  | cons c cs ih =>
    obtain ⟨hc, hcs⟩ := List.forall_mem_cons.1 h
    obtain ⟨fuel, rfl⟩ := Nat.exists_eq_add_one_of_ne_zero (Nat.ne_zero_of_lt hfuel)
    by_cases hmark : c = '"' ∨ c = '\\'
    · rw [escaped_cons_of_mark hmark] at hfuel ⊢
      have hrest : unescape fuel (escaped cs) = some cs :=
        ih hcs (by simp only [List.length_cons] at hfuel; omega)
      rcases hmark with rfl | rfl
      · simp only [unescape, Toml.escape?, Option.bind_eq_bind, Option.bind_some, hrest]
        rfl
      · simp only [unescape, Toml.escape?, Option.bind_eq_bind, Option.bind_some, hrest]
        rfl
    · rw [escaped_cons_of_plain hmark] at hfuel ⊢
      have hrest : unescape fuel (escaped cs) = some cs :=
        ih hcs (by simp only [List.length_cons] at hfuel; omega)
      rw [unescape, if_pos hc, hrest]
      · rfl
      · exact fun he => hmark (.inr he)

/-- Every text of one line is what its quoted form stands for. -/
theorem parse_quote {t : String} (h : ∀ c ∈ t.toList, Toml.inString c = true) :
    parse (quote t) = .text .environment t := by
  have htrim : trim (quote t).toList = '"' :: (escaped t.toList ++ ['"']) := by
    rw [quote, String.toList_ofList]
    refine trim_eq_self (fun c hc => ?_) fun c hc => ?_
    · cases hc
      rfl
    · rw [← List.cons_append, List.getLast?_concat] at hc
      cases hc
      rfl
  have hquoted : quoted? ('"' :: (escaped t.toList ++ ['"'])) = some (t, []) := by
    simp only [quoted?, upToQuote_escaped, Option.bind_eq_bind, Option.bind_some,
      unescape_escaped h (Nat.lt_succ_self _), Option.pure_def, String.ofList_toList]
  have hskip : skipSpace ('"' :: (escaped t.toList ++ ['"'])) =
      '"' :: (escaped t.toList ++ ['"']) :=
    List.dropWhile_cons_of_neg (by decide)
  have hvalue (fuel : Nat) : value? (fuel + 1) ('"' :: (escaped t.toList ++ ['"'])) =
      some (.text .environment t, []) := by
    unfold value?
    rw [hskip]
    simp only [hquoted, Option.map_some]
    rfl
  simp only [parse, htrim, hvalue]

end SecretStore.Config.Environment
