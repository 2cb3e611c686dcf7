import Mathlib.Data.List.TakeWhile
import SecretStore.Proofs.Json.Readers

/-!
# Members of objects

The text of an object is told by its members: a name, however it is spelled, and the text of a
value. Objects are read as maps, whose values all have one reader, or as records, whose fields have
one each. Both are taken as a whole if their values are: `Spells.map` and `Shape.exact`.

* `ObjectText`: the members of the text of an object.
* `takenEntries`, `readEntries_text`: a map is taken entry by entry.
* `fill`, `readFields_text`: the members fill the fields of a record one after another, those with
  other names being passed over.
-/

namespace SecretStore.Json

variable {α β σ : Type} {r : Reader α} {ws bs rest d : Bytes} {b : UInt8} {isFirst : Bool}

/-! ### Names -/

/-- What the contents of a string spell, if they spell something. -/
def spelled (c : Bytes) : Option String := (readString (c ++ [byte '"'])).toOption.map Prod.fst

theorem Contents.readString (h : Contents bs) (rest : Bytes) :
    (readString (bs ++ byte '"' :: rest)).toOption = (spelled bs).map fun s => (s, rest) := by
  rcases h.settled with ⟨cs, hcs⟩ | herr
  · simp only [spelled, Json.readString, readChars_spelling hcs]
    rfl
  · obtain ⟨f, hf⟩ := herr rest
    obtain ⟨f', hf'⟩ := herr []
    simp only [spelled, Json.readString, hf, hf']
    rfl

theorem Spelling.spelled_eq {s : String} (h : Spelling s.toList bs) : spelled bs = some s := by
  rw [spelled, h.read]
  rfl

theorem Contents.spelling_of_spelled (h : Contents bs) {s : String} (hs : spelled bs = some s) :
    Spelling s.toList bs := by
  rcases h.settled with ⟨cs, hcs⟩ | herr
  · have hcs' : Spelling (String.ofList cs).toList bs := by rwa [String.toList_ofList]
    obtain rfl := Option.some.inj (hcs'.spelled_eq.symm.trans hs)
    exact hcs'
  · obtain ⟨f, hf⟩ := herr []
    simp only [spelled, Json.readString, hf] at hs
    cases hs

/-- The names of some members, if they all spell something, with the texts behind them. -/
def named (raw : List (Bytes × Bytes)) : Option (List (String × Bytes)) :=
  raw.mapM fun m => (spelled m.1).map fun name => (name, m.2)

/-- Some members with these names, however they are spelled, and values with these texts. -/
def Names (ms : List (String × Bytes)) (raw : List (Bytes × Bytes)) : Prop :=
  List.Forall₂ (fun m m' => Spelling m.1.toList m'.1 ∧ m.2 = m'.2) ms raw

/-- The text of an object with these names and values with these texts. -/
def ObjectText (ms : List (String × Bytes)) (d : Bytes) : Prop :=
  ∃ raw bs, Names ms raw ∧ MembersText true raw bs ∧ (∀ m ∈ ms, WellFormed m.2) ∧
    d = byte '\x7b' :: bs

theorem named_cons (m : Bytes × Bytes) (raw : List (Bytes × Bytes)) :
    named (m :: raw) =
      (spelled m.1).bind fun name => (named raw).map fun ms => (name, m.2) :: ms := by
  rw [named, List.mapM_cons, ← named]
  cases spelled m.1 <;> cases named raw <;> rfl

theorem Names.named_eq {ms : List (String × Bytes)} {raw : List (Bytes × Bytes)}
    (h : Names ms raw) : named raw = some ms := by
  induction h with
  | nil => rfl
  | @cons m m' ms raw hm h ih =>
    obtain ⟨hname, htext⟩ := hm
    rw [named_cons, hname.spelled_eq, ih, ← htext]
    rfl

theorem Names.forall_raw {ms : List (String × Bytes)} {raw : List (Bytes × Bytes)}
    (h : Names ms raw) (hd : ∀ m ∈ ms, WellFormed m.2) :
    ∀ m ∈ raw, Contents m.1 ∧ WellFormed m.2 := by
  induction h with
  | nil => nofun
  | @cons m m' ms raw hm h ih =>
    obtain ⟨hd', hds⟩ := List.forall_mem_cons.1 hd
    exact List.forall_mem_cons.2 ⟨⟨hm.1.contents, hm.2 ▸ hd'⟩, ih hds⟩

theorem names_of_named {raw : List (Bytes × Bytes)} (hraw : ∀ m ∈ raw, Contents m.1)
    {ms : List (String × Bytes)} (h : named raw = some ms) : Names ms raw := by
  induction raw generalizing ms with
  | nil =>
    cases h
    exact .nil
  | cons m raw ih =>
    obtain ⟨hm, htail⟩ := List.forall_mem_cons.1 hraw
    rw [named_cons] at h
    obtain ⟨name, hname, h⟩ := Option.bind_eq_some_iff.1 h
    obtain ⟨ms, hms, rfl⟩ := Option.map_eq_some_iff.1 h
    exact .cons ⟨hm.spelling_of_spelled hname, rfl⟩ (ih htail hms)

theorem Names.forall {ms : List (String × Bytes)} {raw : List (Bytes × Bytes)}
    (h : Names ms raw) (hd : ∀ m ∈ raw, WellFormed m.2) : ∀ m ∈ ms, WellFormed m.2 := by
  induction h with
  | nil => nofun
  | @cons m m' ms raw hm h ih =>
    obtain ⟨hd', hds⟩ := List.forall_mem_cons.1 hd
    exact List.forall_mem_cons.2 ⟨hm.2 ▸ hd', ih hds⟩

theorem ObjectText.wellFormed {ms : List (String × Bytes)} (h : ObjectText ms d) :
    WellFormed d := by
  obtain ⟨raw, bs, hn, hm, hd, rfl⟩ := h
  have hraw := hn.forall_raw hd
  exact .object hm (fun m hm => (hraw m hm).1) fun m hm => (hraw m hm).2

/-! ### Objects of one kind of value -/

/-- The members of an object, each value taken by a reader. -/
def takenEntries (r : Reader α) (ms : List (String × Bytes)) : Option (List (String × α)) :=
  ms.mapM fun m => (taken r m.2).map fun a => (m.1, a)

theorem takenEntries_cons (m : String × Bytes) (ms : List (String × Bytes)) :
    takenEntries r (m :: ms) =
      (taken r m.2).bind fun a => (takenEntries r ms).map fun as => (m.1, a) :: as := by
  rw [takenEntries, List.mapM_cons, ← takenEntries]
  cases taken r m.2 <;> cases takenEntries r ms <;> rfl

theorem takenEntries_eq_none {m : String × Bytes} {ms : List (String × Bytes)} (h : m ∈ ms)
    (hm : taken r m.2 = none) : takenEntries r ms = none := by
  induction h with
  | head ms => rw [takenEntries_cons, hm, Option.bind_none]
  | @tail m' ms h ih =>
    rw [takenEntries_cons, ih]
    cases taken r m'.2 <;> rfl

theorem map_fst_takenEntries {ms : List (String × Bytes)} {as : List (String × α)}
    (h : takenEntries r ms = some as) : as.map Prod.fst = ms.map Prod.fst := by
  induction ms generalizing as with
  | nil =>
    cases h
    rfl
  | cons m ms ih =>
    rw [takenEntries_cons] at h
    obtain ⟨a, -, h⟩ := Option.bind_eq_some_iff.1 h
    obtain ⟨as, has, rfl⟩ := Option.map_eq_some_iff.1 h
    rw [List.map_cons, List.map_cons, ih has]

/-- Members in another order are taken in that order. -/
theorem takenEntries_perm {ms ms' : List (String × Bytes)} (h : ms.Perm ms')
    {as : List (String × α)} (has : takenEntries r ms = some as) :
    ∃ as', takenEntries r ms' = some as' ∧ as.Perm as' := by
  induction h generalizing as with
  | nil => exact ⟨as, has, .rfl⟩
  | @cons m ms ms' h ih =>
    rw [takenEntries_cons] at has
    obtain ⟨a, ha, htail⟩ := Option.bind_eq_some_iff.1 has
    obtain ⟨as, hms, rfl⟩ := Option.map_eq_some_iff.1 htail
    obtain ⟨as', hms', hp⟩ := ih hms
    exact ⟨(m.1, a) :: as', by rw [takenEntries_cons, ha, hms']; rfl, hp.cons _⟩
  | swap m m' ms =>
    rw [takenEntries_cons, takenEntries_cons] at has
    obtain ⟨a', ha', htail⟩ := Option.bind_eq_some_iff.1 has
    obtain ⟨as', htail', rfl⟩ := Option.map_eq_some_iff.1 htail
    obtain ⟨a, ha, hmap⟩ := Option.bind_eq_some_iff.1 htail'
    obtain ⟨as, hms, rfl⟩ := Option.map_eq_some_iff.1 hmap
    exact ⟨_, by rw [takenEntries_cons, takenEntries_cons, ha, ha', hms]; rfl, .swap _ _ _⟩
  | trans _ _ ih ih' =>
    obtain ⟨as', has', hp⟩ := ih has
    obtain ⟨as'', has'', hp'⟩ := ih' has'
    exact ⟨as'', has'', hp.trans hp'⟩

section Step

variable {sep name ws' : Bytes} {fuel : Nat}

theorem readEntries_member (hr : Exact r) (hs : Separator isFirst sep) (hn : Contents name)
    (hw : Blank ws) (hw' : Blank ws') (hd : WellFormed d) (hrest : EndsNumber rest) :
    (readEntries r (fuel + 1) isFirst (sep ++ byte '"' ::
        (name ++ byte '"' :: (ws ++ byte ':' :: (ws' ++ (d ++ rest)))))).toOption =
      (spelled name).bind fun s => (taken r d).bind fun a =>
        (readEntries r fuel false rest).toOption.map fun (as, after) => ((s, a) :: as, after) := by
  have hname := hn.readString (ws ++ byte ':' :: (ws' ++ (d ++ rest)))
  rw [readEntries, nextMember_more hs]
  cases hspelled : spelled name with
  | none =>
    rw [hspelled] at hname
    obtain ⟨f, hf⟩ := toOption_eq_none_iff.1 hname
    simp [hf, Except.toOption]
  | some s =>
    rw [hspelled] at hname
    have hvalue := hr hd hw' hrest
    simp only [toOption_eq_some_iff.1 hname, readColon_append hw]
    cases ht : taken r d with
    | none =>
      rw [ht] at hvalue
      obtain ⟨f, hf⟩ := toOption_eq_none_iff.1 hvalue
      simp [hf, Except.toOption]
    | some a =>
      rw [ht] at hvalue
      simp only [toOption_eq_some_iff.1 hvalue, toOption_map]
      rfl

theorem readEntries_text (hr : Exact r) {raw : List (Bytes × Bytes)}
    (h : MembersText isFirst raw bs) (hraw : ∀ m ∈ raw, Contents m.1 ∧ WellFormed m.2)
    (hfuel : bs.length ≤ fuel) (rest : Bytes) :
    (readEntries r fuel isFirst (bs ++ rest)).toOption =
      ((named raw).bind (takenEntries r)).map fun as => (as, rest) := by
  obtain ⟨k, rfl⟩ : ∃ k, fuel = k + 1 := ⟨fuel - 1, by have := h.length_pos; omega⟩
  induction h generalizing k with
  | nil hw =>
    rw [readEntries, List.append_assoc, List.singleton_append, nextMember_finished hw]
    rfl
  | @cons isFirst sep name ws ws' d bs raw hs hw hw' h ih =>
    obtain ⟨⟨hn, hd⟩, htail⟩ := List.forall_mem_cons.1 hraw
    have hlen := h.length_pos
    simp only [List.length_append, List.length_cons] at hfuel
    obtain ⟨k, rfl⟩ : ∃ j, k = j + 1 := ⟨k - 1, by omega⟩
    simp only [List.append_assoc, List.cons_append]
    rw [readEntries_member hr hs hn hw hw' hd (h.endsNumber rest), ih htail k (by omega),
      named_cons]
    cases spelled name with
    | none => rfl
    | some n =>
      cases named raw with
      | none => cases taken r d <;> rfl
      | some ms =>
        simp only [Option.bind_some, Option.map_some, takenEntries_cons]
        cases taken r d with
        | none => rfl
        | some a => cases takenEntries r ms <;> rfl

end Step

/-! ### Records -/

/-- What has been read of a record after one more member. -/
def fillOne (fields : List (Field σ)) (s : σ) (m : String × Bytes) : Option σ :=
  match fields.find? (·.name == m.1) with
  | none => some s
  | some field => if field.isSet s then none else taken (field.read s) m.2

/-- What has been read of a record after some members. -/
def fill (fields : List (Field σ)) (s : σ) (ms : List (String × Bytes)) : Option σ :=
  ms.foldlM (fillOne fields) s

section Step

variable {sep name ws' : Bytes} {fuel : Nat} {fields : List (Field σ)}

/-- A member is read by the field of its name, and passed over if there is none. -/
theorem readFields_member (hf : ∀ f ∈ fields, ∀ s, Exact (f.read s)) (hs : Separator isFirst sep)
    (hn : Contents name) (hw : Blank ws) (hw' : Blank ws') (hd : WellFormed d)
    (hrest : EndsNumber rest) (s : σ) :
    (readFields fields (fuel + 1) isFirst s (sep ++ byte '"' ::
        (name ++ byte '"' :: (ws ++ byte ':' :: (ws' ++ (d ++ rest)))))).toOption =
      (spelled name).bind fun n => (fillOne fields s (n, d)).bind fun s' =>
        (readFields fields fuel false s' rest).toOption := by
  have hname := hn.readString (ws ++ byte ':' :: (ws' ++ (d ++ rest)))
  rw [readFields, nextMember_more hs]
  cases hspelled : spelled name with
  | none =>
    rw [hspelled] at hname
    obtain ⟨f, hf⟩ := toOption_eq_none_iff.1 hname
    simp [hf, Except.toOption]
  | some n =>
    rw [hspelled] at hname
    simp only [toOption_eq_some_iff.1 hname, Option.bind_some, fillOne]
    cases hfind : fields.find? (·.name == n) with
    | none => simp only [readColon_append hw, hd.skip hw' hrest, Option.bind_some]
    | some field =>
      have hvalue := hf field (List.mem_of_find?_eq_some hfind) s hd hw' hrest
      by_cases hset : field.isSet s = true
      · simp only [hset, if_true]
        rfl
      · simp only [hset, readColon_append hw]
        cases ht : taken (field.read s) d with
        | none =>
          rw [ht] at hvalue
          obtain ⟨f, hf⟩ := toOption_eq_none_iff.1 hvalue
          simp [hf, Except.toOption]
        | some s' =>
          rw [ht] at hvalue
          simp [toOption_eq_some_iff.1 hvalue]

/-- The members of an object fill the fields of a record one after another. -/
theorem readFields_text (hf : ∀ f ∈ fields, ∀ s, Exact (f.read s)) {raw : List (Bytes × Bytes)}
    (h : MembersText isFirst raw bs) (hraw : ∀ m ∈ raw, Contents m.1 ∧ WellFormed m.2)
    (hfuel : bs.length ≤ fuel) (s : σ) (rest : Bytes) :
    (readFields fields fuel isFirst s (bs ++ rest)).toOption =
      ((named raw).bind (fill fields s)).map fun s' => (s', rest) := by
  obtain ⟨k, rfl⟩ : ∃ k, fuel = k + 1 := ⟨fuel - 1, by have := h.length_pos; omega⟩
  induction h generalizing k s with
  | nil hw =>
    rw [readFields, List.append_assoc, List.singleton_append, nextMember_finished hw]
    rfl
  | @cons isFirst sep name ws ws' d bs raw hs hw hw' h ih =>
    obtain ⟨⟨hn, hd⟩, htail⟩ := List.forall_mem_cons.1 hraw
    have hlen := h.length_pos
    simp only [List.length_append, List.length_cons] at hfuel
    obtain ⟨k, rfl⟩ : ∃ j, k = j + 1 := ⟨k - 1, by omega⟩
    have hmembers (s : σ) := ih htail s k (by omega)
    simp only [List.append_assoc, List.cons_append]
    rw [readFields_member hf hs hn hw hw' hd (h.endsNumber rest), named_cons]
    simp only [hmembers]
    cases spelled name with
    | none => rfl
    | some n =>
      cases named raw with
      | none => simp
      | some ms =>
        simp only [Option.bind_some, Option.map_some, fill, List.foldlM_cons]
        cases fillOne fields s (n, d) <;> rfl

end Step

/-- The object of some members, of which each name spells something or one does not. -/
theorem object_cases {raw : List (Bytes × Bytes)} (h : MembersText true raw bs)
    (hraw : ∀ m ∈ raw, Contents m.1 ∧ WellFormed m.2) :
    (∃ ms, ObjectText ms (byte '\x7b' :: bs)) ∨ named raw = none := by
  cases hn : named raw with
  | none => exact .inr rfl
  | some ms =>
    have hnames := names_of_named (fun m hm => (hraw m hm).1) hn
    exact .inl ⟨ms, raw, bs, hnames, h, hnames.forall fun m hm => (hraw m hm).2, rfl⟩

theorem yields_map_raw (hr : Exact r) {raw : List (Bytes × Bytes)} (h : MembersText true raw bs)
    (hraw : ∀ m ∈ raw, Contents m.1 ∧ WellFormed m.2) :
    Yields (readMap r) (byte '\x7b' :: bs) ((named raw).bind (takenEntries r)) := by
  intro ws rest hw hrest
  rw [List.cons_append, readMap, onByte_append hw (by decide), if_pos rfl]
  refine readEntries_text hr h hraw ?_ rest
  rw [List.length_append]
  omega

theorem ObjectText.yields_map (hr : Exact r) {ms : List (String × Bytes)} (h : ObjectText ms d) :
    Yields (readMap r) d (takenEntries r ms) := by
  obtain ⟨raw, bs, hn, hm, hd, rfl⟩ := h
  have hyields := yields_map_raw hr hm (hn.forall_raw hd)
  rwa [hn.named_eq] at hyields

/-- A value is an object, or no map is taken from it. -/
theorem WellFormed.map_cases (hr : Exact r) (h : WellFormed d) :
    (∃ ms, ObjectText ms d) ∨ Yields (readMap r) d none := by
  have hhead {b : UInt8} (bs : Bytes) (hb : isBlank b = false) (h : b ≠ byte '\x7b') :
      Yields (readMap r) (b :: bs) none := yields_none_of_head hb fun _ => ⟨_, if_neg h⟩
  rcases h.bracket_cases with
    ⟨ds, bs, -, -, rfl⟩ | ⟨raw, bs, hm, hraw, rfl⟩ | ⟨b, bs, rfl, hb, -, h⟩
  · exact .inr (hhead bs (by decide) (by decide))
  · refine (object_cases hm hraw).imp_right fun hnone => ?_
    have hyields := yields_map_raw hr hm hraw
    rwa [hnone] at hyields
  · exact .inr (hhead bs hb h)

/-- The text of an object whose members have these texts. -/
def MapText (P : α → Bytes → Prop) (as : List (String × α)) (d : Bytes) : Prop :=
  ∃ ms, ObjectText ms d ∧ List.Forall₂ (fun a m => a.1 = m.1 ∧ P a.2 m.2) as ms

theorem Spells.takenEntries_iff {P : α → Bytes → Prop} (h : Spells r P)
    {ms : List (String × Bytes)} (hd : ∀ m ∈ ms, WellFormed m.2) {as : List (String × α)} :
    takenEntries r ms = some as ↔ List.Forall₂ (fun a m => a.1 = m.1 ∧ P a.2 m.2) as ms := by
  induction ms generalizing as with
  | nil => simp [takenEntries, eq_comm]
  | cons m ms ih =>
    obtain ⟨hd', hds⟩ := List.forall_mem_cons.1 hd
    simp only [takenEntries_cons, Option.bind_eq_some_iff, Option.map_eq_some_iff,
      h.taken_iff hd', ih hds, List.forall₂_cons_right_iff]
    constructor
    · rintro ⟨a, ha, as, has, rfl⟩
      exact ⟨(m.1, a), as, ⟨rfl, ha⟩, has, rfl⟩
    · rintro ⟨⟨name, a⟩, as, ⟨rfl, ha⟩, has, rfl⟩
      exact ⟨a, ha, as, has, rfl⟩

theorem ObjectText.forall {ms : List (String × Bytes)} (h : ObjectText ms d) :
    ∀ m ∈ ms, WellFormed m.2 := by
  obtain ⟨raw, bs, -, -, hd, -⟩ := h
  exact hd

theorem Spells.map {P : α → Bytes → Prop} (h : Spells r P) : Spells (readMap r) (MapText P) where
  exact d hd := by
    rcases hd.map_cases h.exact with ⟨ms, hms⟩ | hnone
    · exact (hms.yields_map h.exact).exact
    · exact hnone.exact
  taken_iff d as hd := by
    have hiff {ms : List (String × Bytes)} (hobject : ObjectText ms d) :
        taken (readMap r) d = some as ↔
          List.Forall₂ (fun a m => a.1 = m.1 ∧ P a.2 m.2) as ms := by
      rw [(hobject.yields_map h.exact).taken_eq, h.takenEntries_iff hobject.forall]
    constructor
    · intro htaken
      rcases hd.map_cases h.exact with ⟨ms, hms⟩ | hnone
      · exact ⟨ms, hms, (hiff hms).1 htaken⟩
      · rw [hnone.taken_eq] at htaken
        cases htaken
    · rintro ⟨ms, hms, has⟩
      exact (hiff hms).2 has

/-! ### Records written as arrays -/

/-- What has been read of a record after the items of an array, which may end early. -/
def fillInOrder : List (Field σ) → σ → List Bytes → Option σ
  | [], s, [] => some s
  | [], _, _ :: _ => none
  | field :: fields, s, [] => if (field :: fields).all (·.optional) then some s else none
  | field :: fields, s, d :: ds => (taken (field.read s) d).bind fun s' => fillInOrder fields s' ds

theorem readArrayEnd_text {ds : List Bytes} (h : ItemsText isFirst ds bs)
    (hd : ∀ d ∈ ds, WellFormed d) (rest : Bytes) :
    (readArrayEnd (bs ++ rest)).toOption = if ds = [] then some rest else none := by
  cases h with
  | nil hw =>
    rw [readArrayEnd, List.append_assoc, skipBlanks_append hw, List.singleton_append,
      skipBlanks_cons (by decide)]
    rfl
  | @cons _ sep d bs ds hs h =>
    obtain ⟨b, tail, rfl, hblank, hend, hcomma⟩ := (hd _ List.mem_cons_self).head
    cases hs with
    | first hw =>
      rw [readArrayEnd, List.append_assoc, skipBlanks_append hw, List.cons_append, List.cons_append,
        skipBlanks_cons hblank]
      simp [hend, hcomma, Except.toOption]
    | next hw hw' =>
      have hne : byte ',' ≠ byte ']' := by decide
      rw [readArrayEnd]
      simp only [List.append_assoc, List.cons_append]
      rw [skipBlanks_append hw, skipBlanks_cons (by decide)]
      simp [hne, skipBlanks_append hw', skipBlanks_cons hblank, Except.toOption]

theorem length_takeWhile_eq_iff {p : α → Bool} {xs : List α} :
    (xs.takeWhile p).length = xs.length ↔ xs.all p = true := by
  rw [List.all_eq_true, ← List.takeWhile_eq_self_iff]
  exact ⟨(List.takeWhile_prefix p).eq_of_length, congrArg _⟩

theorem readInOrder_text {fields : List (Field σ)} (hf : ∀ f ∈ fields, ∀ s, Exact (f.read s))
    {ds : List Bytes} (expected : String) (read : Nat) (h : ItemsText (read == 0) ds bs)
    (hd : ∀ d ∈ ds, WellFormed d) (s : σ) (rest : Bytes) :
    (readInOrder expected read s fields (bs ++ rest)).toOption =
      (fillInOrder fields s ds).map fun s' => (s', rest) := by
  induction fields generalizing read bs ds s with
  | nil =>
    rw [readInOrder, toOption_map, readArrayEnd_text h hd]
    cases ds <;> rfl
  | cons field fields ih =>
    cases h with
    | nil hw =>
      rw [readInOrder, List.append_assoc, List.singleton_append, nextItem_finished hw, fillInOrder]
      have hiff : ((field :: fields).takeWhile (·.optional)).length = fields.length + 1 ↔
          (field :: fields).all (·.optional) = true := length_takeWhile_eq_iff
      by_cases hall : (field :: fields).all (·.optional) = true
      · simp only [if_pos (hiff.2 hall), if_pos hall]
        rfl
      · simp only [if_neg fun h => hall (hiff.1 h), if_neg hall]
        rfl
    | @cons _ sep d bs ds hs h =>
      obtain ⟨hd', hds⟩ := List.forall_mem_cons.1 hd
      obtain ⟨hfield, hfields⟩ := List.forall_mem_cons.1 hf
      have hitem := (hfield s).append hd' (h.endsNumber rest)
      rw [readInOrder, List.append_assoc, List.append_assoc, nextItem_text hs hd', fillInOrder]
      cases ht : taken (field.read s) d with
      | none =>
        rw [ht] at hitem
        obtain ⟨f, hf⟩ := toOption_eq_none_iff.1 hitem
        simp [hf, Except.toOption]
      | some s' =>
        rw [ht] at hitem
        simp only [toOption_eq_some_iff.1 hitem, Option.bind_some]
        exact ih hfields (read + 1) h hds s'

/-! ### Records -/

/-- The end of a record. -/
theorem toOption_finish (shape : Shape σ α) {x : Except Fault (σ × Bytes)} {o : Option σ} :
    x.toOption = o.map (fun s => (s, rest)) →
    (match x with
      | .error f => .error f
      | .ok (s, after) =>
        match shape.finish s with
        | .ok a => .ok (a, after)
        | .error m => .error (⟨.mismatch m, after⟩ : Fault) : Except Fault (α × Bytes)).toOption =
      (o.bind fun s => (shape.finish s).toOption).map fun a => (a, rest) := by
  intro h
  cases o with
  | none =>
    obtain ⟨f, rfl⟩ := toOption_eq_none_iff.1 h
    rfl
  | some s =>
    rw [toOption_eq_some_iff.1 h]
    cases hs : shape.finish s <;> simp [hs, Except.toOption]

variable {shape : Shape σ α}

/-- What a record is after the members of an object. -/
def Shape.ofMembers (shape : Shape σ α) (ms : List (String × Bytes)) : Option α :=
  (fill shape.fields shape.empty ms).bind fun s => (shape.finish s).toOption

/-- What a record is after the items of an array. -/
def Shape.ofItems (shape : Shape σ α) (ds : List Bytes) : Option α :=
  (fillInOrder shape.fields shape.empty ds).bind fun s => (shape.finish s).toOption

theorem Shape.yields_raw (hf : ∀ f ∈ shape.fields, ∀ s, Exact (f.read s))
    {raw : List (Bytes × Bytes)} (h : MembersText true raw bs)
    (hraw : ∀ m ∈ raw, Contents m.1 ∧ WellFormed m.2) :
    Yields shape.reader (byte '\x7b' :: bs) ((named raw).bind shape.ofMembers) := by
  intro ws rest hw hrest
  rw [List.cons_append, Shape.reader, onByte_append hw (by decide), if_pos rfl]
  have hfuel : bs.length ≤ (bs ++ rest).length + 1 := by
    rw [List.length_append]
    omega
  have hread := readFields_text hf h hraw hfuel shape.empty rest
  refine (toOption_finish shape hread).trans ?_
  rw [Option.bind_assoc]
  rfl

theorem ObjectText.yields (hf : ∀ f ∈ shape.fields, ∀ s, Exact (f.read s))
    {ms : List (String × Bytes)} (h : ObjectText ms d) :
    Yields shape.reader d (shape.ofMembers ms) := by
  obtain ⟨raw, bs, hn, hm, hd, rfl⟩ := h
  have hyields := shape.yields_raw hf hm (hn.forall_raw hd)
  rwa [hn.named_eq] at hyields

theorem ArrayText.yields (hf : ∀ f ∈ shape.fields, ∀ s, Exact (f.read s)) {ds : List Bytes}
    (h : ArrayText ds d) : Yields shape.reader d (shape.ofItems ds) := by
  obtain ⟨bs, hi, hd, rfl⟩ := h
  intro ws rest hw hrest
  rw [List.cons_append, Shape.reader, onByte_append hw (by decide), if_neg (by decide), if_pos rfl]
  exact toOption_finish shape (readInOrder_text hf _ 0 hi hd shape.empty rest)

/-- A value is an object or an array, or no record is taken from it. -/
theorem WellFormed.record_cases (hf : ∀ f ∈ shape.fields, ∀ s, Exact (f.read s))
    (h : WellFormed d) :
    (∃ ms, ObjectText ms d) ∨ (∃ ds, ArrayText ds d) ∨ Yields shape.reader d none := by
  rcases h.bracket_cases with harray | ⟨raw, bs, hm, hraw, rfl⟩ | ⟨b, bs, rfl, hb, ha, ho⟩
  · exact .inr (.inl harray)
  · refine (object_cases hm hraw).imp_right fun hnone => .inr ?_
    have hyields := shape.yields_raw hf hm hraw
    rwa [hnone] at hyields
  · exact .inr (.inr (yields_none_of_head hb fun _ => ⟨_, by rw [if_neg ho, if_neg ha]⟩))

/-- A record is taken as a whole if its fields are. -/
theorem Shape.exact (hf : ∀ f ∈ shape.fields, ∀ s, Exact (f.read s)) : Exact shape.reader := by
  intro d h
  rcases h.record_cases hf with ⟨ms, hms⟩ | ⟨ds, hds⟩ | hnone
  · exact (hms.yields hf).exact
  · exact (hds.yields hf).exact
  · exact hnone.exact

/-! ### Whole texts -/

/-- A whole text is read exactly if its value is taken, and as that. -/
theorem Exact.whole (hr : Exact r) (hd : WellFormed d) {ws ws' : Bytes} (hw : Blank ws)
    (hw' : Blank ws') : (whole r (ws ++ (d ++ ws'))).toOption = taken r d := by
  have hread := hr hd hw (endsNumber_blank hw')
  rw [Json.whole]
  cases ht : taken r d with
  | none =>
    rw [ht] at hread
    obtain ⟨f, hf⟩ := toOption_eq_none_iff.1 hread
    rw [hf]
    rfl
  | some a =>
    rw [ht] at hread
    rw [toOption_eq_some_iff.1 hread]
    simp [skipBlanks_of_blank hw', Except.toOption]

end SecretStore.Json
