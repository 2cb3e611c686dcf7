import SecretStore.Proofs.Json.Lookalike
import SecretStore.Proofs.Json.Members

/-!
# Reading texts that look alike

From two lookalikes a reader takes a value each, up to the same place, or it fails on both, there
and for the same reason. A reason shows something of what was read: that is the same in both as
well, unless it is a text that stands where a value of another type is expected.

* `Fault.InStep`, `InStep`: faults and readings of two texts. `P` and `P'` say which text of each of
  them may be shown.
* `LookalikeContents.charsInStep`: strings are read in step, escape by escape.
* `Lookalike.mismatch`: a value of another type is reported in step.
* `Lookalike.readText`, `Lookalike.readList`: where a text is expected nothing is shown, and where a
  list is expected a text is, but none of those in a list.
-/

namespace SecretStore.Json

variable {α β σ : Type} {P P' Q Q' : String → Prop} {R : α → β → Prop}
variable {ws sep bs bs' rest rest' d d' : Bytes} {isFirst : Bool}

/-! ### Faults and readings in step -/

/-- The text that stands where a value of another type is expected. -/
def Reason.strayText? : Reason → Option String
  | mismatch (.type (.text t) _) => some t
  | _ => none

/-- Two faults for one reason at one place, but that both may show a stray text. `P` and `P'` say
which one. -/
inductive Fault.InStep (P P' : String → Prop) : Fault → Fault → Prop
  | same {reason : Reason} {rest rest' : Bytes} (hr : reason.strayText? = none)
      (h : rest.length = rest'.length) : InStep P P' ⟨reason, rest⟩ ⟨reason, rest'⟩
  | stray {t t' expected : String} {rest rest' : Bytes} (ht : P t) (ht' : P' t')
      (h : rest.length = rest'.length) :
      InStep P P' ⟨.mismatch (.type (.text t) expected), rest⟩
        ⟨.mismatch (.type (.text t') expected), rest'⟩

/-- Two readings that both take a value up to here, or both fail in step. -/
inductive InStep (P P' : String → Prop) (R : α → β → Prop) (rest rest' : Bytes) :
    Except Fault (α × Bytes) → Except Fault (β × Bytes) → Prop
  | ok {a : α} {b : β} (h : R a b) : InStep P P' R rest rest' (.ok (a, rest)) (.ok (b, rest'))
  | error {f f' : Fault} (h : f.InStep P P' f') : InStep P P' R rest rest' (.error f) (.error f')

theorem Fault.InStep.length_eq {f f' : Fault} (h : f.InStep P P' f') :
    f.rest.length = f'.rest.length := by
  cases h with
  | same _ h => exact h
  | stray _ _ h => exact h

theorem Fault.InStep.mono {f f' : Fault} (h : f.InStep P P' f') (hP : ∀ t, P t → Q t)
    (hP' : ∀ t, P' t → Q' t) : f.InStep Q Q' f' := by
  cases h with
  | same hr h => exact .same hr h
  | stray ht ht' h => exact .stray (hP _ ht) (hP' _ ht') h

/-- Both readings fail for one reason at one place. -/
theorem inStep_error {reason : Reason} {after after' : Bytes} (hr : reason.strayText? = none)
    (h : after.length = after'.length) :
    InStep P P' R rest rest' (.error ⟨reason, after⟩) (.error ⟨reason, after'⟩) :=
  .error (.same hr h)

theorem InStep.map {γ δ : Type} {R' : γ → δ → Prop} {x : Except Fault (α × Bytes)}
    {y : Except Fault (β × Bytes)} (h : InStep P P' R rest rest' x y) (f : α → γ) (g : β → δ)
    (hR : ∀ a b, R a b → R' (f a) (g b)) :
    InStep P P' R' rest rest' (x.map fun (a, r) => (f a, r)) (y.map fun (b, r) => (g b, r)) := by
  cases h with
  | ok h => exact .ok (hR _ _ h)
  | error h => exact .error h

theorem InStep.mono {x : Except Fault (α × Bytes)} {y : Except Fault (β × Bytes)}
    (h : InStep P P' R rest rest' x y) (hP : ∀ t, P t → Q t) (hP' : ∀ t, P' t → Q' t) :
    InStep Q Q' R rest rest' x y := by
  cases h with
  | ok h => exact .ok h
  | error h => exact .error (h.mono hP hP')

theorem InStep.imp {R' : α → β → Prop} {x : Except Fault (α × Bytes)}
    {y : Except Fault (β × Bytes)} (h : InStep P P' R rest rest' x y)
    (hR : ∀ a b, R a b → R' a b) : InStep P P' R' rest rest' x y := by
  cases h with
  | ok h => exact .ok (hR _ _ h)
  | error h => exact .error h

/-- The two ways in which readings in step end. -/
theorem InStep.outcome {x : Except Fault (α × Bytes)} {y : Except Fault (β × Bytes)}
    (h : InStep P P' R rest rest' x y) :
    (∃ a b, x = .ok (a, rest) ∧ y = .ok (b, rest') ∧ R a b) ∨
      ∃ f f', x = .error f ∧ y = .error f' ∧ f.InStep P P' f' := by
  cases h with
  | ok h => exact .inl ⟨_, _, rfl, rfl, h⟩
  | error h => exact .inr ⟨_, _, rfl, rfl, h⟩

/-! ### Strings -/

/-- The characters of two strings are read in step, whatever follows the strings. -/
def CharsInStep (P P' : String → Prop) (bs bs' : Bytes) : Prop :=
  ∀ rest rest', rest.length = rest'.length →
    InStep P P' (fun cs cs' => Spelling cs bs ∧ Spelling cs' bs') rest rest'
      (readChars (bs ++ byte '"' :: rest)) (readChars (bs' ++ byte '"' :: rest'))

theorem CharsInStep.front {c c' : Char} {front front' : Bytes} (h : CharsInStep P P' bs bs')
    (hf : Fronts c front) (hf' : Fronts c' front') (hl : Leads c front) (hl' : Leads c' front') :
    CharsInStep P P' (front ++ bs) (front' ++ bs') := by
  intro rest rest' hlen
  rw [List.append_assoc, List.append_assoc, hf, hf']
  exact (h rest rest' hlen).map (c :: ·) (c' :: ·) fun cs cs' ⟨hcs, hcs'⟩ =>
    ⟨hl cs bs hcs, hl' cs' bs' hcs'⟩

/-- Both escapes are refused in step. -/
theorem charsInStep_of_escape (h : ∀ rest rest', rest.length = rest'.length →
    InStep P P' (fun _ _ => False) rest rest' (readEscape (bs ++ byte '"' :: rest))
      (readEscape (bs' ++ byte '"' :: rest'))) :
    CharsInStep P P' (byte '\\' :: bs) (byte '\\' :: bs') := by
  intro rest rest' hlen
  obtain ⟨f, f', hread, hread', hf⟩ := (h rest rest' hlen).outcome.resolve_left
    fun ⟨_, _, _, _, hfalse⟩ => hfalse
  rw [List.cons_append, List.cons_append, readChars_of_escape_error hread,
    readChars_of_escape_error hread']
  exact .error hf

theorem Unescaped.leads {c : Char} (hc : Unescaped c) : Leads c (Utf8.encodeChar c) :=
  fun _ _ => .plain hc.quote hc.slash hc.control

theorem Unescaped.fronts {c : Char} (hc : Unescaped c) : Fronts c (Utf8.encodeChar c) :=
  fronts_plain hc.quote hc.slash hc.control

/-- A character that needs no escape is not taken for the second half of a surrogate pair. -/
theorem Unescaped.readPair_eq {c : Char} (hc : Unescaped c) (high : Nat) (bs : Bytes) :
    readPair high (Utf8.encodeChar c ++ bs) =
      .error ⟨.escapeEnded, (Utf8.encodeChar c ++ bs).tail⟩ := by
  obtain ⟨b, cs, hcs, -⟩ := exists_plain hc.quote hc.slash hc.control
  have hb : b ≠ byte '\\' := by
    have hplain := isPlain_of_mem_encodeChar hc.quote hc.slash hc.control
      (hcs ▸ List.mem_cons_self)
    rintro rfl
    exact absurd hplain (by decide)
  rw [hcs, List.cons_append, readPair.eq_def]
  exact if_pos hb

/-- Behind one half of a surrogate pair the other one follows in both, or both halves are refused
in step. -/
theorem readPair_lookalike (high high' : Nat) (h : LookalikeContents bs bs') :
    (∃ n n' ds ds' cs cs', bs = byte '\\' :: byte 'u' :: (ds ++ cs) ∧
      bs' = byte '\\' :: byte 'u' :: (ds' ++ cs') ∧ Hex n ds ∧ Hex n' ds' ∧ isTrailing n = true ∧
      isTrailing n' = true ∧ LookalikeContents cs cs') ∨
    ∀ rest rest', rest.length = rest'.length → InStep P P' (fun _ _ => False) rest rest'
      (readPair high (bs ++ byte '"' :: rest)) (readPair high' (bs' ++ byte '"' :: rest')) := by
  have hsame := h.sameLines.length_eq
  cases h with
  | nil => exact .inr fun rest rest' hlen => inStep_error rfl hlen
  | @plain c c' bs bs' hc hc' hlen h =>
    refine .inr fun rest rest' hrest => ?_
    rw [List.append_assoc, List.append_assoc, hc.readPair_eq, hc'.readPair_eq]
    apply inStep_error rfl
    simp only [List.length_tail, List.length_append, List.length_cons] at hsame ⊢
    omega
  | @short e c bs bs' he h =>
    have hu : e ≠ byte 'u' := by
      rintro rfl
      rw [show simpleEscape? (byte 'u') = none by decide] at he
      cases he
    refine .inr fun rest rest' hrest => ?_
    simp only [List.cons_append, readPair, ne_eq, not_true_eq_false, if_false, hu,
      not_false_eq_true, if_true]
    apply inStep_error rfl
    simp only [List.length_append, List.length_cons] at hsame ⊢
    omega
  | @code n n' ds ds' bs bs' hd hd' _ htrail h =>
    by_cases ht : isTrailing n = true
    · exact .inl ⟨n, n', ds, ds', bs, bs', rfl, rfl, hd, hd', ht, htrail ▸ ht, h⟩
    · have ht' : ¬isTrailing n' = true := htrail ▸ ht
      refine .inr fun rest rest' hrest => ?_
      simp only [List.cons_append, List.append_assoc]
      rw [readPair_code hd, readPair_code hd', if_neg ht, if_neg ht']
      apply inStep_error rfl
      rw [List.length_append, List.length_append, List.length_cons, List.length_cons,
        h.sameLines.length_eq, hrest]

/-- Contents that look alike are read in step. -/
theorem LookalikeContents.charsInStep (h : LookalikeContents bs bs') : CharsInStep P P' bs bs' := by
  -- a pair takes two escapes at once, so the induction is on the length
  induction hlen : bs.length using Nat.strongRecOn generalizing bs bs' with
  | ind len ih =>
  subst hlen
  have hsame := h.sameLines.length_eq
  cases h with
  | nil =>
    intro rest rest' hrest
    rw [List.nil_append, List.nil_append, readChars_quote, readChars_quote]
    exact .ok ⟨.nil, .nil⟩
  | @plain c c' bs bs' hc hc' _ h =>
    have hpos := List.length_pos_of_ne_nil (Utf8.encodeChar_ne_nil c)
    have hshort := ih bs.length (by rw [List.length_append]; omega) h rfl
    exact hshort.front hc.fronts hc'.fronts hc.leads hc'.leads
  | @short e c bs bs' he h =>
    have hshort := ih bs.length (by simp only [List.length_cons]; omega) h rfl
    have hleads : Leads c [byte '\\', e] := fun cs bs => .short he
    exact hshort.front (fronts_short he) (fronts_short he) hleads hleads
  | @code n n' ds ds' bs bs' hd hd' hlead htrail h =>
    have htail : bs.length = bs'.length := h.sameLines.length_eq
    by_cases ht : isTrailing n = true
    · apply charsInStep_of_escape
      intro rest rest' hrest
      rw [List.cons_append, List.cons_append, List.append_assoc, List.append_assoc,
        readEscape_code hd, readEscape_code hd', ← htrail, if_pos ht, if_pos ht]
      apply inStep_error rfl
      simp only [List.length_append, List.length_cons]
      omega
    have ht' : ¬isTrailing n' = true := htrail ▸ ht
    by_cases hl : isLeading n = true
    · have hl' : isLeading n' = true := hlead ▸ hl
      rcases readPair_lookalike n n' h with
        ⟨m, m', es, es', cs, cs', rfl, rfl, he, he', hm, hm', h'⟩ | herr
      · have hshort := ih cs.length (by simp; omega) h' rfl
        simpa using hshort.front (fronts_pair hd he hl hm) (fronts_pair hd' he' hl' hm')
          (leads_pair hd he hl hm) (leads_pair hd' he' hl' hm')
      · apply charsInStep_of_escape
        intro rest rest' hrest
        rw [List.cons_append, List.cons_append, List.append_assoc, List.append_assoc,
          readEscape_code hd, readEscape_code hd', if_neg ht, if_neg ht', if_pos hl, if_pos hl']
        exact herr rest rest' hrest
    · have hl' : ¬isLeading n' = true := hlead ▸ hl
      simp only [Bool.not_eq_true] at ht ht' hl hl'
      have hshort := ih bs.length (by simp; omega) h rfl
      simpa using hshort.front (fronts_code hd hl ht) (fronts_code hd' hl' ht')
        (leads_code hd hl ht) (leads_code hd' hl' ht')

theorem LookalikeContents.readString (h : LookalikeContents bs bs')
    (hlen : rest.length = rest'.length) :
    InStep P P' (fun t t' => Spelling t.toList bs ∧ Spelling t'.toList bs') rest rest'
      (readString (bs ++ byte '"' :: rest)) (readString (bs' ++ byte '"' :: rest')) := by
  refine (h.charsInStep rest rest' hlen).map String.ofList String.ofList fun cs cs' hcs => ?_
  rwa [String.toList_ofList, String.toList_ofList]

/-- A name is read as the same one in both, or refused in step. -/
theorem Contents.name_cases (h : Contents bs) (hlen : rest.length = rest'.length) :
    (∃ n, Spelling n.toList bs ∧ Json.readString (bs ++ byte '"' :: rest) = .ok (n, rest) ∧
      Json.readString (bs ++ byte '"' :: rest') = .ok (n, rest')) ∨
    ∃ f f', Json.readString (bs ++ byte '"' :: rest) = .error f ∧
      Json.readString (bs ++ byte '"' :: rest') = .error f' ∧ ∀ P P', f.InStep P P' f' := by
  have hread : InStep (fun _ => False) (fun _ => False) _ rest rest' _ _ :=
    h.lookalike.readString hlen
  rcases hread.outcome with ⟨n, n', hn, hn', hs, hs'⟩ | ⟨f, f', hf, hf', hstep⟩
  · obtain rfl : n = n' := Option.some.inj (hs.spelled_eq.symm.trans hs'.spelled_eq)
    exact .inl ⟨n, hs, hn, hn'⟩
  · exact .inr ⟨f, f', hf, hf', fun P P' => hstep.mono (fun t => False.elim) fun t => False.elim⟩

/-! ### Values of another type -/

/-- The fault that shows what was read. -/
def shown (expected : String) (f : α → Found) : Except Fault (α × Bytes) → Fault
  | .error fault => fault
  | .ok (a, after) => ⟨.mismatch (.type (f a) expected), after⟩

section Mismatch

variable {expected : String} {b : UInt8}

theorem mismatch_null (rest : Bytes) :
    mismatch expected (Utf8.encode ['n', 'u', 'l', 'l'] ++ rest) =
      ⟨.mismatch (.type .null expected), rest⟩ := by
  show mismatch _ (byte 'n' :: (Utf8.encode ['u', 'l', 'l'] ++ rest)) = _
  simp only [mismatch, if_true, readLiteral_append ['u', 'l', 'l'] (by decide)]

theorem mismatch_true (rest : Bytes) :
    mismatch expected (Utf8.encode ['t', 'r', 'u', 'e'] ++ rest) =
      ⟨.mismatch (.type (.boolean true) expected), rest⟩ := by
  have hn : byte 't' ≠ byte 'n' := by decide
  show mismatch _ (byte 't' :: (Utf8.encode ['r', 'u', 'e'] ++ rest)) = _
  simp only [mismatch, if_neg hn, if_true, readLiteral_append ['r', 'u', 'e'] (by decide)]

theorem mismatch_false (rest : Bytes) :
    mismatch expected (Utf8.encode ['f', 'a', 'l', 's', 'e'] ++ rest) =
      ⟨.mismatch (.type (.boolean false) expected), rest⟩ := by
  have hn : byte 'f' ≠ byte 'n' := by decide
  have ht : byte 'f' ≠ byte 't' := by decide
  show mismatch _ (byte 'f' :: (Utf8.encode ['a', 'l', 's', 'e'] ++ rest)) = _
  simp only [mismatch, if_neg hn, if_neg ht, if_true,
    readLiteral_append ['a', 'l', 's', 'e'] (by decide)]

theorem mismatch_minus (bs : Bytes) :
    mismatch expected (byte '-' :: bs) = shown expected .number (readNumber true bs) := by
  have hn : byte '-' ≠ byte 'n' := by decide
  have ht : byte '-' ≠ byte 't' := by decide
  have hf : byte '-' ≠ byte 'f' := by decide
  simp only [mismatch, if_neg hn, if_neg ht, if_neg hf, if_true, shown]
  cases readNumber true bs <;> rfl

theorem mismatch_digit (hb : isDigit b = true) (bs : Bytes) :
    mismatch expected (b :: bs) = shown expected .number (readNumber false (b :: bs)) := by
  have hn : b ≠ byte 'n' := ne_of_isDigit hb (by decide)
  have ht : b ≠ byte 't' := ne_of_isDigit hb (by decide)
  have hf : b ≠ byte 'f' := ne_of_isDigit hb (by decide)
  have hm : b ≠ byte '-' := ne_of_isDigit hb (by decide)
  simp only [mismatch, if_neg hn, if_neg ht, if_neg hf, if_neg hm, if_pos hb, shown]
  cases readNumber false (b :: bs) <;> rfl

theorem mismatch_quote (bs : Bytes) :
    mismatch expected (byte '"' :: bs) = shown expected .text (readString bs) := by
  have hd : isDigit (byte '"') = false := by decide
  have hn : byte '"' ≠ byte 'n' := by decide
  have ht : byte '"' ≠ byte 't' := by decide
  have hf : byte '"' ≠ byte 'f' := by decide
  have hm : byte '"' ≠ byte '-' := by decide
  simp only [mismatch, if_neg hn, if_neg ht, if_neg hf, if_neg hm, hd, Bool.false_eq_true, if_false,
    if_true, shown]
  cases readString bs <;> rfl

/-- A number that is shown is the same in both. -/
theorem InStep.shown_number {x y : Except Fault (Number × Bytes)}
    (h : InStep P P' (· = ·) rest rest' x y) (hlen : rest.length = rest'.length) :
    (shown expected .number x).InStep P P' (shown expected .number y) := by
  cases h with
  | ok h =>
    subst h
    exact .same rfl hlen
  | error h => exact h

/-- Of a text that is shown it is known what it is. -/
theorem InStep.shown_text {x y : Except Fault (String × Bytes)}
    (h : InStep P P' (fun t t' => P t ∧ P' t') rest rest' x y) (hlen : rest.length = rest'.length) :
    (shown expected .text x).InStep P P' (shown expected .text y) := by
  cases h with
  | ok h => exact .stray h.1 h.2 hlen
  | error h => exact h

theorem readNumber_inStep (negative : Bool) {ds fraction exponent : Bytes} (hd : Integral ds)
    (hf : Fraction fraction) (he : Exponent exponent) (hr : EndsNumber rest)
    (hr' : EndsNumber rest') (hlen : rest.length = rest'.length) :
    InStep P P' (· = ·) rest rest' (readNumber negative ((ds ++ (fraction ++ exponent)) ++ rest))
      (readNumber negative ((ds ++ (fraction ++ exponent)) ++ rest')) := by
  have hsteady : Steady (readNumber negative) (ds ++ (fraction ++ exponent)) _ :=
    steady_number hd hf he
  cases hsteady with
  | ok n h =>
    rw [h rest (hr.stops _ _), h rest' (hr'.stops _ _)]
    exact .ok rfl
  | error es h =>
    rw [h rest (hr.stops _ _), h rest' (hr'.stops _ _)]
    apply inStep_error rfl
    rw [List.length_append, List.length_append, hlen]

theorem NumberText.mismatch_inStep (h : NumberText d) (hr : EndsNumber rest)
    (hr' : EndsNumber rest') (hlen : rest.length = rest'.length) :
    (mismatch expected (d ++ rest)).InStep P P' (mismatch expected (d ++ rest')) := by
  cases h with
  | @mk sign ds fraction exponent hs hd hf he =>
    rcases hs with rfl | rfl
    · have hread : InStep P P' _ rest rest' _ _ := readNumber_inStep false hd hf he hr hr' hlen
      obtain ⟨b, ds, rfl⟩ := List.exists_cons_of_ne_nil hd.1.1
      have hb : isDigit b = true := hd.1.2 b List.mem_cons_self
      simp only [List.nil_append, List.cons_append] at hread ⊢
      rw [mismatch_digit hb, mismatch_digit hb]
      exact hread.shown_number hlen
    · have hread : InStep P P' _ rest rest' _ _ := readNumber_inStep true hd hf he hr hr' hlen
      simp only [List.cons_append]
      rw [mismatch_minus, mismatch_minus]
      exact hread.shown_number hlen

/-- A value of another type is reported in step, and a text is shown only if the value is one. -/
theorem Lookalike.mismatch (h : Lookalike d d') (hP : ∀ t, StringText t d → P t)
    (hP' : ∀ t, StringText t d' → P' t) (hr : EndsNumber rest) (hr' : EndsNumber rest')
    (hlen : rest.length = rest'.length) (expected : String) :
    (mismatch expected (d ++ rest)).InStep P P' (mismatch expected (d' ++ rest')) := by
  have hsame : (d ++ rest).length = (d' ++ rest').length := by
    rw [List.length_append, List.length_append, h.sameLines.length_eq, hlen]
  cases h with
  | null =>
    rw [mismatch_null, mismatch_null]
    exact .same rfl hlen
  | yes =>
    rw [mismatch_true, mismatch_true]
    exact .same rfl hlen
  | no =>
    rw [mismatch_false, mismatch_false]
    exact .same rfl hlen
  | number h => exact h.mismatch_inStep hr hr' hlen
  | @string bs bs' h =>
    simp only [List.cons_append, List.append_assoc, List.nil_append]
    rw [mismatch_quote, mismatch_quote]
    refine InStep.shown_text ((h.readString hlen).imp fun t t' hspell => ?_) hlen
    exact ⟨hP t ⟨bs, hspell.1, rfl⟩, hP' t' ⟨bs', hspell.2, rfl⟩⟩
  | array => exact .same rfl hsame
  | object => exact .same rfl hsame

end Mismatch

/-! ### Texts and lists -/

/-- A value is read in step by each of two readers, whatever stands around it. -/
def ReadsInStep (P P' : String → Prop) (R : α → β → Prop) (r : Reader α) (r' : Reader β)
    (d d' : Bytes) : Prop :=
  ∀ ⦃ws rest rest'⦄, Blank ws → EndsNumber rest → EndsNumber rest' → rest.length = rest'.length →
    InStep P P' R rest rest' (r (ws ++ (d ++ rest))) (r' (ws ++ (d' ++ rest')))

theorem ReadsInStep.map {γ δ : Type} {R' : γ → δ → Prop} {r : Reader α} {r' : Reader β}
    (h : ReadsInStep P P' R r r' d d') (f : α → γ) (g : β → δ)
    (hR : ∀ a b, R a b → R' (f a) (g b)) :
    ReadsInStep P P' R' (fun bs => (r bs).map fun (a, rest) => (f a, rest))
      (fun bs => (r' bs).map fun (b, rest) => (g b, rest)) d d' :=
  fun _ _ _ hw hr hr' hlen => (h hw hr hr' hlen).map f g hR

/-- Two strings, or two texts that begin with one byte that is no quote. -/
theorem Lookalike.quote_cases (h : Lookalike d d') :
    (∃ bs bs', LookalikeContents bs bs' ∧ d = byte '"' :: (bs ++ [byte '"']) ∧
      d' = byte '"' :: (bs' ++ [byte '"'])) ∨
    ∃ b bs bs', d = b :: bs ∧ d' = b :: bs' ∧ isBlank b = false ∧ b ≠ byte '"' := by
  cases h with
  | string h => exact .inl ⟨_, _, h, rfl, rfl⟩
  | number h =>
    obtain ⟨b, rest, rfl, rfl | hb⟩ := h.head
    · exact .inr ⟨_, _, _, rfl, rfl, by decide, by decide⟩
    · exact .inr ⟨b, rest, rest, rfl, rfl, isBlank_of_isDigit hb, ne_of_isDigit hb (by decide)⟩
  | null | yes | no | array | object =>
    exact .inr ⟨_, _, _, rfl, rfl, by decide, by decide⟩

theorem not_stringText_of_head {b : UInt8} (hb : b ≠ byte '"') (t : String) :
    ¬StringText t (b :: bs) := by
  rintro ⟨cs, -, heq⟩
  exact hb (List.cons.inj heq).1

/-- Where a text is expected, no text is shown. -/
theorem Lookalike.readText (h : Lookalike d d') :
    ReadsInStep P P' (fun _ _ => True) readText readText d d' := by
  intro ws rest rest' hw hr hr' hlen
  rcases h.quote_cases with ⟨bs, bs', hc, rfl, rfl⟩ | ⟨b, bs, bs', rfl, rfl, hb, hq⟩
  · rw [List.cons_append, List.cons_append, Json.readText, Json.readText,
      onByte_append hw (by decide), onByte_append hw (by decide), if_pos rfl, if_pos rfl,
      List.append_assoc, List.append_assoc]
    exact (hc.readString hlen).imp fun _ _ _ => trivial
  · have hnone (t : String) (bs : Bytes) (ht : StringText t (b :: bs)) : False :=
      not_stringText_of_head hq t ht
    have hfault : Fault.InStep P P' _ _ := h.mismatch (fun t ht => (hnone t _ ht).elim)
      (fun t ht => (hnone t _ ht).elim) hr hr' hlen "a string"
    rw [List.cons_append, List.cons_append] at hfault ⊢
    rw [Json.readText, Json.readText, onByte_append hw hb, onByte_append hw hb, if_neg hq,
      if_neg hq]
    exact .error hfault

/-- The items of two arrays are read in step if each pair of them is. -/
theorem LookalikeItems.readItems {r r' : Reader α} {R : α → α → Prop} {ps : List (Bytes × Bytes)}
    (h : LookalikeItems isFirst ps bs bs')
    (hd : ∀ p ∈ ps, Lookalike p.1 p.2 ∧ ReadsInStep P P' R r r' p.1 p.2) {fuel : Nat}
    (hfuel : bs.length ≤ fuel) (hlen : rest.length = rest'.length) :
    InStep P P' (List.Forall₂ R) rest rest' (readItems r fuel isFirst (bs ++ rest))
      (readItems r' fuel isFirst (bs' ++ rest')) := by
  induction h generalizing fuel with
  | nil hw =>
    obtain ⟨k, rfl⟩ : ∃ k, fuel = k + 1 := ⟨fuel - 1, by simp at hfuel; omega⟩
    rw [Json.readItems, Json.readItems, List.append_assoc, List.append_assoc, List.singleton_append,
      List.singleton_append, nextItem_finished hw, nextItem_finished hw]
    exact .ok .nil
  | @cons isFirst sep d d' bs bs' ps hs h ih =>
    obtain ⟨⟨hd', hread⟩, hps⟩ := List.forall_mem_cons.1 hd
    have hpos : 0 < d.length := hd'.wellFormed.1.length_pos
    simp only [List.length_append] at hfuel
    obtain ⟨k, rfl⟩ : ∃ k, fuel = k + 1 := ⟨fuel - 1, by omega⟩
    have htails : (bs ++ rest).length = (bs' ++ rest').length := by
      rw [List.length_append, List.length_append, hlen,
        (h.sameLines fun p hp => (hps p hp).1.sameLines).length_eq]
    have hitem := hread Blank.nil (h.left.endsNumber rest) (h.right.endsNumber rest') htails
    rw [Json.readItems, Json.readItems, List.append_assoc, List.append_assoc, List.append_assoc,
      List.append_assoc, nextItem_text hs hd'.wellFormed.1, nextItem_text hs hd'.wellFormed.2]
    rw [List.nil_append, List.nil_append] at hitem
    rcases hitem.outcome with ⟨a, a', hx, hx', hR⟩ | ⟨f, f', hx, hx', hf⟩
    all_goals simp only [hx, hx']
    · have hitems := ih hps (show bs.length ≤ k by omega)
      exact hitems.map (_ :: ·) (_ :: ·) fun as as' has => .cons hR has
    · exact .error hf

/-- Where a list is expected, a text is shown only if it stands in the place of the list. -/
theorem Lookalike.readList {r r' : Reader α} {R : α → α → Prop} (h : Lookalike d d')
    (hr : ∀ p p', Lookalike p p' → ReadsInStep P P' R r r' p p') (hP : ∀ t, StringText t d → P t)
    (hP' : ∀ t, StringText t d' → P' t) :
    ReadsInStep P P' (List.Forall₂ R) (readList r) (readList r') d d' := by
  intro ws rest rest' hw hrest hrest' hlen
  rcases h.array_cases with
    ⟨ps, bs, bs', hi, hps, rfl, rfl⟩ | ⟨b, bs, bs', rfl, rfl, hb, hbracket⟩
  · have hlen' : (bs ++ rest).length = (bs' ++ rest').length := by
      rw [List.length_append, List.length_append, hlen,
        (hi.sameLines fun p hp => (hps p hp).sameLines).length_eq]
    rw [List.cons_append, List.cons_append, Json.readList, Json.readList,
      onByte_append hw (by decide), onByte_append hw (by decide), if_pos rfl, if_pos rfl, ← hlen']
    refine hi.readItems (fun p hp => ⟨hps p hp, hr _ _ (hps p hp)⟩) ?_ hlen
    rw [List.length_append]
    omega
  · have hfault := h.mismatch hP hP' hrest hrest' hlen "a sequence"
    rw [List.cons_append, List.cons_append] at hfault ⊢
    rw [Json.readList, Json.readList, onByte_append hw hb, onByte_append hw hb, if_neg hbracket,
      if_neg hbracket]
    exact .error hfault

end SecretStore.Json
