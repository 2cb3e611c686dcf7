import SecretStore.Proofs.Json.Tokens

/-!
# Well-formed values

`WellFormed` is the grammar of values: literals, strings, numbers, and arrays and objects with any
blanks between their tokens, nested to any depth. `WellFormed.skip` says that a value of the grammar
is passed over as a whole, whatever it is.

`ItemsText` and `MembersText` are the rows of an array and of an object. They list the texts of the
values without saying what these are, so that a statement can speak of one value of a row.
-/

namespace SecretStore.Json

variable {ws sep bs rest d : Bytes} {b : UInt8} {isFirst : Bool}

/-! ### Rows -/

/-- The texts of some values with commas between them, up to the bracket that ends the array. -/
inductive ItemsText : Bool → List Bytes → Bytes → Prop
  | nil {isFirst : Bool} {ws : Bytes} (hw : Blank ws) : ItemsText isFirst [] (ws ++ [byte ']'])
  | cons {isFirst : Bool} {sep d rest : Bytes} {ds : List Bytes} (hs : Separator isFirst sep)
      (hr : ItemsText false ds rest) : ItemsText isFirst (d :: ds) (sep ++ (d ++ rest))

/-- The contents of some names and the texts of the values behind them, up to the brace that ends
the object. -/
inductive MembersText : Bool → List (Bytes × Bytes) → Bytes → Prop
  | nil {isFirst : Bool} {ws : Bytes} (hw : Blank ws) : MembersText isFirst [] (ws ++ [byte '\x7d'])
  | cons {isFirst : Bool} {sep name ws ws' d rest : Bytes} {ms : List (Bytes × Bytes)}
      (hs : Separator isFirst sep) (hw : Blank ws) (hw' : Blank ws')
      (hr : MembersText false ms rest) :
      MembersText isFirst ((name, d) :: ms)
        (sep ++ byte '"' :: (name ++ byte '"' :: (ws ++ byte ':' :: (ws' ++ (d ++ rest)))))

theorem ItemsText.endsNumber {ds : List Bytes} (h : ItemsText false ds bs) (rest : Bytes) :
    EndsNumber (bs ++ rest) := by
  cases h with
  | nil hw =>
    rw [List.append_assoc]
    exact endsNumber_of_blank hw (endsNumber_cons (by decide))
  | cons hs hr =>
    rw [List.append_assoc]
    exact hs.endsNumber _

theorem MembersText.endsNumber {ms : List (Bytes × Bytes)} (h : MembersText false ms bs)
    (rest : Bytes) : EndsNumber (bs ++ rest) := by
  cases h with
  | nil hw =>
    rw [List.append_assoc]
    exact endsNumber_of_blank hw (endsNumber_cons (by decide))
  | cons hs hw hw' hr =>
    rw [List.append_assoc]
    exact hs.endsNumber _

/-! ### Values -/

/-- The texts of values. -/
inductive WellFormed : Bytes → Prop
  | null : WellFormed (Utf8.encode ['n', 'u', 'l', 'l'])
  | yes : WellFormed (Utf8.encode ['t', 'r', 'u', 'e'])
  | no : WellFormed (Utf8.encode ['f', 'a', 'l', 's', 'e'])
  | number {bs : Bytes} (h : NumberText bs) : WellFormed bs
  | string {bs : Bytes} (h : Contents bs) : WellFormed (byte '"' :: (bs ++ [byte '"']))
  | array {ds : List Bytes} {bs : Bytes} (h : ItemsText true ds bs)
      (hd : ∀ d ∈ ds, WellFormed d) : WellFormed (byte '[' :: bs)
  | object {ms : List (Bytes × Bytes)} {bs : Bytes} (h : MembersText true ms bs)
      (hn : ∀ m ∈ ms, Contents m.1) (hd : ∀ m ∈ ms, WellFormed m.2) :
      WellFormed (byte '\x7b' :: bs)

/-- A number begins with a digit or its sign. -/
theorem NumberText.head (h : NumberText bs) :
    ∃ b rest, bs = b :: rest ∧ (b = byte '-' ∨ isDigit b = true) := by
  cases h with
  | mk hs hd hf he =>
    obtain ⟨b, ds, rfl⟩ := List.exists_cons_of_ne_nil hd.1.1
    rcases hs with rfl | rfl
    · exact ⟨b, _, rfl, .inr (hd.1.2 b List.mem_cons_self)⟩
    · exact ⟨_, _, rfl, .inl rfl⟩

/-- The text of a value begins with neither a blank nor a mark between values. -/
theorem WellFormed.head (h : WellFormed d) :
    ∃ b rest, d = b :: rest ∧ isBlank b = false ∧ b ≠ byte ']' ∧ b ≠ byte ',' := by
  cases h with
  | null | yes | no => exact ⟨_, _, rfl, by decide, by decide, by decide⟩
  | number h =>
    obtain ⟨b, rest, rfl, rfl | hb⟩ := h.head
    · exact ⟨_, _, rfl, by decide, by decide, by decide⟩
    · exact ⟨b, rest, rfl, isBlank_of_isDigit hb, ne_of_isDigit hb (by decide),
        ne_of_isDigit hb (by decide)⟩
  | string | array | object => exact ⟨_, _, rfl, by decide, by decide, by decide⟩

theorem WellFormed.length_pos (h : WellFormed d) : 0 < d.length := by
  obtain ⟨b, rest, rfl, -⟩ := h.head
  simp

/-- The text of an array of values with these texts. -/
def ArrayText (ds : List Bytes) (d : Bytes) : Prop :=
  ∃ bs, ItemsText true ds bs ∧ (∀ d ∈ ds, WellFormed d) ∧ d = byte '[' :: bs

/-- A value is an array, an object, or begins with no bracket. -/
theorem WellFormed.bracket_cases (h : WellFormed d) :
    (∃ ds, ArrayText ds d) ∨
      (∃ ms bs, MembersText true ms bs ∧ (∀ m ∈ ms, Contents m.1 ∧ WellFormed m.2) ∧
        d = byte '\x7b' :: bs) ∨
      ∃ b bs, d = b :: bs ∧ isBlank b = false ∧ b ≠ byte '[' ∧ b ≠ byte '\x7b' := by
  cases h with
  | array h hd => exact .inl ⟨_, _, h, hd, rfl⟩
  | object h hn hd => exact .inr (.inl ⟨_, _, h, fun m hm => ⟨hn m hm, hd m hm⟩, rfl⟩)
  | number h =>
    obtain ⟨b, rest, rfl, rfl | hb⟩ := h.head
    · exact .inr (.inr ⟨_, _, rfl, by decide, by decide, by decide⟩)
    · exact .inr (.inr ⟨b, rest, rfl, isBlank_of_isDigit hb, ne_of_isDigit hb (by decide),
        ne_of_isDigit hb (by decide)⟩)
  | null | yes | no | string =>
    exact .inr (.inr ⟨_, _, rfl, by decide, by decide, by decide⟩)

/-! ### Passing over a value -/

theorem skipValueWith_blank {fuel : Nat} (hw : Blank ws) (bs : Bytes) :
    skipValueWith fuel (ws ++ bs) = skipValueWith fuel bs := by
  cases fuel with
  | zero => rfl
  | succ fuel => rw [skipValueWith, skipValueWith, skipBlanks_append hw]

/-- What the next value may begin with, and how it is passed over then. -/
theorem skipValueWith_cons {fuel : Nat} (hb : isBlank b = false) (bs : Bytes) :
    skipValueWith (fuel + 1) (b :: bs) =
      if b = byte 'n' then readLiteral ['u', 'l', 'l'] bs
      else if b = byte 't' then readLiteral ['r', 'u', 'e'] bs
      else if b = byte 'f' then readLiteral ['a', 'l', 's', 'e'] bs
      else if b = byte '-' then skipNumber bs
      else if isDigit b then skipNumber (b :: bs)
      else if b = byte '"' then skipString bs
      else if b = byte '[' then
        match skipBlanks bs with
        | [] => .error ⟨.listEnded, []⟩
        | c :: after => if c = byte ']' then .ok after else skipItemsWith fuel (c :: after)
      else if b = byte '\x7b' then
        match skipBlanks bs with
        | [] => .error ⟨.objectEnded, []⟩
        | c :: after => if c = byte '\x7d' then .ok after else skipMembersWith fuel (c :: after)
      else .error ⟨.expectedValue, bs⟩ := by
  have hskip := skipBlanks_cons hb bs
  rw [skipValueWith]
  split
  · next hnil => cases hskip.symm.trans hnil
  · next hcons =>
    cases hskip.symm.trans hcons
    rfl

/-- A value is passed over by that much fuel. -/
def Skips (d : Bytes) : Prop :=
  ∀ ⦃fuel rest⦄, 2 * d.length ≤ fuel → EndsNumber rest → skipValueWith fuel (d ++ rest) = .ok rest

theorem skips_number (h : NumberText bs) : Skips bs := by
  intro fuel rest hfuel hrest
  cases h with
  | @mk sign ds fraction exponent hs hd hf he =>
    have hskip := skipNumber_append hd hf he hrest
    obtain ⟨b, ds, rfl⟩ := List.exists_cons_of_ne_nil hd.1.1
    have hb : isDigit b = true := hd.1.2 b List.mem_cons_self
    obtain ⟨k, rfl⟩ : ∃ k, fuel = k + 1 :=
      ⟨fuel - 1, by simp only [List.length_append, List.length_cons] at hfuel; omega⟩
    rcases hs with rfl | rfl
    · simp only [List.nil_append, List.cons_append, List.append_assoc] at hskip ⊢
      rw [skipValueWith_cons (isBlank_of_isDigit hb), if_neg (ne_of_isDigit hb (by decide)),
        if_neg (ne_of_isDigit hb (by decide)), if_neg (ne_of_isDigit hb (by decide)),
        if_neg (ne_of_isDigit hb (by decide)), if_pos hb, hskip]
    · simp only [List.nil_append, List.cons_append, List.append_assoc] at hskip ⊢
      rw [skipValueWith_cons (by decide), if_neg (by decide), if_neg (by decide),
        if_neg (by decide), if_pos rfl, hskip]

theorem ItemsText.length_pos {ds : List Bytes} (h : ItemsText isFirst ds bs)
    (hd : ∀ d ∈ ds, WellFormed d) : 0 < bs.length := by
  cases h with
  | nil hw => simp
  | cons hs hr =>
    have := (hd _ List.mem_cons_self).length_pos
    simp only [List.length_append]
    omega

theorem MembersText.length_pos {ms : List (Bytes × Bytes)} (h : MembersText isFirst ms bs) :
    0 < bs.length := by
  cases h with
  | nil hw => simp
  | cons hs hw hw' hr =>
    simp only [List.length_append, List.length_cons]
    omega

/-- The items of an array from some value on are passed over if each of them is. -/
theorem skipItemsWith_append {ds : List Bytes} (h : ItemsText false ds bs)
    (hd : ∀ d ∈ ds, WellFormed d ∧ Skips d) (hsd : WellFormed d ∧ Skips d) (hw : Blank ws)
    {fuel : Nat} (hfuel : 2 * (d.length + bs.length) ≤ fuel) :
    skipItemsWith fuel (ws ++ (d ++ (bs ++ rest))) = .ok rest := by
  induction ds generalizing bs d ws fuel with
  | nil =>
    have hlen := hsd.1.length_pos
    have hlen' := h.length_pos nofun
    obtain ⟨k, rfl⟩ : ∃ k, fuel = k + 1 := ⟨fuel - 1, by omega⟩
    have hskip := hsd.2 (show 2 * d.length ≤ k by omega) (h.endsNumber rest)
    rw [skipItemsWith, skipValueWith_blank hw, hskip]
    cases h with
    | nil hw =>
      simp only [List.append_assoc, List.singleton_append]
      rw [skipBlanks_append hw, skipBlanks_cons (by decide)]
      rfl
  | cons d' ds ih =>
    have hlen := hsd.1.length_pos
    have hlen' := h.length_pos fun d hm => (hd d hm).1
    obtain ⟨k, rfl⟩ : ∃ k, fuel = k + 1 := ⟨fuel - 1, by omega⟩
    have hskip := hsd.2 (show 2 * d.length ≤ k by omega) (h.endsNumber rest)
    obtain ⟨hd', hds⟩ := List.forall_mem_cons.1 hd
    rw [skipItemsWith, skipValueWith_blank hw, hskip]
    cases h with
    | @cons _ sep _ bs _ hs hr =>
      cases hs with
      | @next ws ws' hw hw' =>
        simp only [List.length_append, List.length_cons] at hfuel
        have hrest : skipItemsWith k (ws' ++ (d' ++ (bs ++ rest))) = .ok rest :=
          ih hr hds hd' hw' (by omega)
        simp only [List.append_assoc, List.cons_append]
        rw [skipBlanks_append hw, skipBlanks_cons (by decide)]
        simp [hrest]

/-- So are the members of an object. -/
theorem skipMembersWith_append {name : Bytes} {ms : List (Bytes × Bytes)}
    (h : MembersText false ms bs)
    (hd : ∀ m ∈ ms, Contents m.1 ∧ WellFormed m.2 ∧ Skips m.2) (hn : Contents name)
    (hsd : WellFormed d ∧ Skips d) {ws' ws'' : Bytes} (hw : Blank ws) (hw' : Blank ws')
    (hw'' : Blank ws'') {fuel : Nat} (hfuel : 2 * (d.length + bs.length) ≤ fuel) :
    skipMembersWith fuel (ws ++ byte '"' ::
      (name ++ byte '"' :: (ws' ++ byte ':' :: (ws'' ++ (d ++ (bs ++ rest)))))) = .ok rest := by
  have hcomma : byte ',' ≠ byte '\x7d' := by decide
  induction ms generalizing bs d ws ws' ws'' name fuel with
  | nil =>
    have hlen := hsd.1.length_pos
    have hlen' := h.length_pos
    obtain ⟨k, rfl⟩ : ∃ k, fuel = k + 1 := ⟨fuel - 1, by omega⟩
    have hskip := hsd.2 (show 2 * d.length ≤ k by omega) (h.endsNumber rest)
    rw [skipMembersWith, skipBlanks_append hw, skipBlanks_cons (by decide)]
    simp only [ne_eq, not_true_eq_false, if_false, hn.skip, readColon_append hw',
      skipValueWith_blank hw'', hskip]
    cases h with
    | nil hw =>
      simp only [List.append_assoc, List.singleton_append]
      rw [skipBlanks_append hw, skipBlanks_cons (by decide)]
      rfl
  | cons m ms ih =>
    have hlen := hsd.1.length_pos
    have hlen' := h.length_pos
    obtain ⟨k, rfl⟩ : ∃ k, fuel = k + 1 := ⟨fuel - 1, by omega⟩
    have hskip := hsd.2 (show 2 * d.length ≤ k by omega) (h.endsNumber rest)
    obtain ⟨⟨hn', hd'⟩, hds⟩ := List.forall_mem_cons.1 hd
    rw [skipMembersWith, skipBlanks_append hw, skipBlanks_cons (by decide)]
    simp only [ne_eq, not_true_eq_false, if_false, hn.skip, readColon_append hw',
      skipValueWith_blank hw'', hskip]
    cases h with
    | @cons _ sep name ws ws' d' bs _ hs hw hw' hr =>
      cases hs with
      | @next ws₁ ws₂ hw₁ hw₂ =>
        simp only [List.length_append, List.length_cons] at hfuel
        have hvalue : WellFormed d' ∧ Skips d' := hd'
        have hrest : skipMembersWith k (ws₂ ++ byte '"' ::
            (name ++ byte '"' :: (ws ++ byte ':' :: (ws' ++ (d' ++ (bs ++ rest)))))) = .ok rest :=
          ih hr hds hn' hvalue hw₂ hw hw' (by omega)
        simp only [List.append_assoc, List.cons_append]
        rw [skipBlanks_append hw₁, skipBlanks_cons (by decide)]
        simp [hrest]

/-- It is enough to look at the fuel that one turn leaves. -/
theorem skips_of_cons (h : ∀ fuel rest, 2 * bs.length ≤ fuel → EndsNumber rest →
    skipValueWith (fuel + 1) (b :: (bs ++ rest)) = .ok rest) : Skips (b :: bs) := by
  intro fuel rest hfuel hrest
  rw [List.length_cons] at hfuel
  obtain ⟨k, rfl⟩ : ∃ k, fuel = k + 1 := ⟨fuel - 1, by omega⟩
  exact h k rest (by omega) hrest

theorem skips_null : Skips (Utf8.encode ['n', 'u', 'l', 'l']) := by
  show Skips (byte 'n' :: Utf8.encode ['u', 'l', 'l'])
  refine skips_of_cons fun fuel rest _ _ => ?_
  rw [skipValueWith_cons (by decide), if_pos rfl]
  exact readLiteral_append _ (by decide) rest

theorem skips_true : Skips (Utf8.encode ['t', 'r', 'u', 'e']) := by
  show Skips (byte 't' :: Utf8.encode ['r', 'u', 'e'])
  refine skips_of_cons fun fuel rest _ _ => ?_
  rw [skipValueWith_cons (by decide), if_neg (by decide), if_pos rfl]
  exact readLiteral_append _ (by decide) rest

theorem skips_false : Skips (Utf8.encode ['f', 'a', 'l', 's', 'e']) := by
  show Skips (byte 'f' :: Utf8.encode ['a', 'l', 's', 'e'])
  refine skips_of_cons fun fuel rest _ _ => ?_
  rw [skipValueWith_cons (by decide), if_neg (by decide), if_neg (by decide), if_pos rfl]
  exact readLiteral_append _ (by decide) rest

theorem skips_string (h : Contents bs) : Skips (byte '"' :: (bs ++ [byte '"'])) := by
  refine skips_of_cons fun fuel rest _ _ => ?_
  have hdigit : isDigit (byte '"') = false := by decide
  rw [skipValueWith_cons (by decide), if_neg (by decide), if_neg (by decide), if_neg (by decide),
    if_neg (by decide), if_neg (by simp [hdigit]), if_pos rfl, List.append_assoc]
  exact h.skip rest

/-- An array is passed over if each of its items is. -/
theorem skips_array {ds : List Bytes} (h : ItemsText true ds bs)
    (hd : ∀ d ∈ ds, WellFormed d ∧ Skips d) : Skips (byte '[' :: bs) := by
  refine skips_of_cons fun fuel rest hfuel _ => ?_
  have hdigit : isDigit (byte '[') = false := by decide
  rw [skipValueWith_cons (by decide), if_neg (by decide), if_neg (by decide), if_neg (by decide),
    if_neg (by decide), if_neg (by simp [hdigit]), if_neg (by decide), if_pos rfl]
  cases h with
  | nil hw =>
    rw [List.append_assoc, skipBlanks_append hw, List.singleton_append,
      skipBlanks_cons (by decide)]
    rfl
  | @cons _ sep d bs ds hs hr =>
    cases hs with
    | first hw =>
      obtain ⟨hd', hds⟩ := List.forall_mem_cons.1 hd
      obtain ⟨b, tail, hb, hblank, hend, -⟩ := hd'.1.head
      simp only [List.length_append] at hfuel
      have hitems : skipItemsWith fuel ([] ++ (d ++ (bs ++ rest))) = .ok rest :=
        skipItemsWith_append hr hds hd' Blank.nil (by omega)
      simp only [List.append_assoc]
      rw [skipBlanks_append hw]
      rw [hb, List.nil_append, List.cons_append] at hitems
      rw [hb, List.cons_append, skipBlanks_cons hblank]
      simpa [hend] using hitems

/-- So is an object if the values of its members are. -/
theorem skips_object {ms : List (Bytes × Bytes)} (h : MembersText true ms bs)
    (hd : ∀ m ∈ ms, Contents m.1 ∧ WellFormed m.2 ∧ Skips m.2) : Skips (byte '\x7b' :: bs) := by
  refine skips_of_cons fun fuel rest hfuel _ => ?_
  have hdigit : isDigit (byte '\x7b') = false := by decide
  have hquote : byte '"' ≠ byte '\x7d' := by decide
  rw [skipValueWith_cons (by decide), if_neg (by decide), if_neg (by decide), if_neg (by decide),
    if_neg (by decide), if_neg (by simp [hdigit]), if_neg (by decide), if_neg (by decide),
    if_pos rfl]
  cases h with
  | nil hw =>
    rw [List.append_assoc, skipBlanks_append hw, List.singleton_append,
      skipBlanks_cons (by decide)]
    rfl
  | @cons _ sep name ws ws' d bs ms hs hw hw' hr =>
    cases hs with
    | first hws =>
      obtain ⟨⟨hn, hd'⟩, hds⟩ := List.forall_mem_cons.1 hd
      have hvalue : WellFormed d ∧ Skips d := hd'
      simp only [List.length_append, List.length_cons] at hfuel
      have hmembers : skipMembersWith fuel ([] ++ byte '"' ::
          (name ++ byte '"' :: (ws ++ byte ':' :: (ws' ++ (d ++ (bs ++ rest)))))) = .ok rest :=
        skipMembersWith_append hr hds hn hvalue Blank.nil hw hw' (by omega)
      simp only [List.append_assoc, List.cons_append]
      rw [skipBlanks_append hws, skipBlanks_cons (by decide)]
      simpa [hquote] using hmembers

/-- A value is passed over, whatever it is, and what follows it remains. -/
theorem WellFormed.skips (h : WellFormed d) : Skips d := by
  induction h with
  | null => exact skips_null
  | yes => exact skips_true
  | no => exact skips_false
  | string h => exact skips_string h
  | number h => exact skips_number h
  | array h hd ih => exact skips_array h fun d hm => ⟨hd d hm, ih d hm⟩
  | object h hn hd ih => exact skips_object h fun m hm => ⟨hn m hm, hd m hm, ih m hm⟩

theorem WellFormed.skip (h : WellFormed d) (hw : Blank ws) (hrest : EndsNumber rest) :
    skipValue (ws ++ (d ++ rest)) = .ok rest := by
  rw [skipValue, skipValueWith_blank hw]
  refine h.skips ?_ hrest
  simp only [List.length_append]
  omega

end SecretStore.Json
