import Mathlib.Data.List.Nodup
import SecretStore.Config.Decode
import SecretStore.Proofs.Config.Merge

/-!
# Records made of settings

What a record takes from a setting, part by part, and what it takes from a pile of settings that
are laid over each other.

* `Part`: a field of a record with the value that it fills; `Whole`: the parts make up the record.
* `record_eq_ok_iff`: a record is read from a table or a list exactly if each part is, and a part
  that is not there keeps its default.
* `Decides`: the highest value of a pile is the one that is read.
* `composes_iff`: a record is read from a pile part by part.
-/

namespace SecretStore.Config

open Setting

/-- Whether a setting may stand for a record. -/
def Setting.IsSection (v : Setting) : Prop := (∃ s es, v = table s es) ∨ ∃ s vs, v = list s vs

namespace Decoder

variable {α β : Type}

/-- A field of a record, with the value that it fills. -/
structure Part (α : Type) where
  {β : Type}
  name : String
  read : Decoder β
  put : β → α → α
  get : α → β

/-- The field of a part. -/
def Part.field (p : Part α) : Field α := .of p.name p.read p.put

/-- What is read of a setting, if there is one; otherwise it is the default. -/
def Reads (d : Decoder β) (default : β) (o : Option Setting) (b : β) : Prop :=
  match o with
  | none => b = default
  | some v => d v = .ok b

/-- What a part of a record is, given what stands in its place. -/
def Part.Takes (p : Part α) (defaults : α) (o : Option Setting) (c : α) : Prop :=
  Reads p.read (p.get defaults) o (p.get c)

theorem Part.takes_none {p : Part α} {defaults c : α} :
    p.Takes defaults none c ↔ p.get c = p.get defaults := Iff.rfl

theorem Part.takes_some {p : Part α} {defaults c : α} {v : Setting} :
    p.Takes defaults (some v) c ↔ p.read v = .ok (p.get c) := Iff.rfl

/-- Parts that make up a record: they have different names, each is changed by its own field only,
and together they are all of the record. -/
structure Whole (parts : List (Part α)) : Prop where
  names : (parts.map (·.name)).Nodup
  own : ∀ p ∈ parts, ∀ b a, p.get (p.put b a) = b
  other : ∀ p ∈ parts, ∀ q ∈ parts, p.name ≠ q.name → ∀ b a, p.get (q.put b a) = p.get a
  ext : ∀ a c, (∀ p ∈ parts, p.get a = p.get c) → a = c

variable {parts : List (Part α)} {a c defaults : α}

theorem find?_field (parts : List (Part α)) (name : String) :
    (parts.map Part.field).find? (·.name == name) =
      (parts.find? (·.name == name)).map Part.field := by
  rw [List.find?_map]
  rfl

theorem Whole.find? (hw : Whole parts) {p : Part α} (hp : p ∈ parts) :
    parts.find? (·.name == p.name) = some p := by
  obtain ⟨q, hq⟩ : ∃ q, parts.find? (·.name == p.name) = some q := by
    rw [← Option.isSome_iff_exists, List.find?_isSome]
    exact ⟨p, hp, beq_self_eq_true _⟩
  have hname : q.name = p.name := by simpa using List.find?_some hq
  rw [hq, List.inj_on_of_nodup_map hw.names (List.mem_of_find?_eq_some hq) hp hname]

/-- An entry whose name no part has is passed over. -/
theorem setEntries_cons_of_not_mem {name : String} (h : ∀ p ∈ parts, p.name ≠ name) (a : α)
    (v : Setting) (es : List (String × Setting)) :
    setEntries (parts.map Part.field) a ((name, v) :: es) =
      setEntries (parts.map Part.field) a es := by
  have hnone : parts.find? (·.name == name) = none :=
    List.find?_eq_none.2 fun p hp he => h p hp (beq_iff_eq.1 he)
  rw [setEntries, find?_field, hnone, Option.map_none]

/-- An entry under the name of a part changes that part. -/
theorem Whole.setEntries_cons (hw : Whole parts) {p : Part α} (hp : p ∈ parts) (a : α)
    (v : Setting) (es : List (String × Setting)) :
    setEntries (parts.map Part.field) a ((p.name, v) :: es) =
      match p.read v with
      | .error m => .error (m.under p.name)
      | .ok b => setEntries (parts.map Part.field) (p.put b a) es := by
  rw [setEntries, find?_field, hw.find? hp, Option.map_some]
  simp only [Part.field, Field.of]
  cases p.read v <;> rfl

/-- A part that takes its value after another one is filled takes it from all entries. -/
theorem Whole.takes_cons (hw : Whole parts) {p q : Part α} (hp : p ∈ parts) (hq : q ∈ parts)
    {v : Setting} {b : q.β} (hv : q.read v = .ok b) {es : List (String × Setting)}
    (hname : q.name ∉ es.map Prod.fst) (h : p.Takes (q.put b a) (lookup p.name es) c) :
    p.Takes a (lookup p.name ((q.name, v) :: es)) c := by
  by_cases hpq : q.name = p.name
  · obtain rfl := List.inj_on_of_nodup_map hw.names hq hp hpq
    have hnone : lookup q.name es = none := lookup_eq_none fun y hy he =>
      hname (List.mem_map.2 ⟨y, hy, he⟩)
    rw [hnone, Part.takes_none, hw.own q hq] at h
    rw [lookup_cons_self, Part.takes_some, h, hv]
  · rw [lookup_cons_of_ne hpq]
    cases hl : lookup p.name es with
    | none =>
      rw [hl, Part.takes_none] at h
      exact Part.takes_none.2 (h.trans (hw.other p hp q hq (Ne.symm hpq) b a))
    | some w =>
      rw [hl] at h
      exact h

/-- A record that is read has in each part what stands under its name. -/
theorem Whole.takes_of_setEntries (hw : Whole parts) {es : List (String × Setting)}
    (hes : (es.map Prod.fst).Nodup) (h : setEntries (parts.map Part.field) a es = .ok c) :
    ∀ p ∈ parts, p.Takes a (lookup p.name es) c := by
  induction es generalizing a with
  | nil =>
    cases h
    exact fun p _ => rfl
  | cons x es ih =>
    obtain ⟨name, v⟩ := x
    obtain ⟨hname, htail⟩ := List.nodup_cons.1 hes
    by_cases hmem : ∃ q ∈ parts, q.name = name
    · obtain ⟨q, hq, rfl⟩ := hmem
      rw [hw.setEntries_cons hq] at h
      cases hv : q.read v with
      | error m =>
        rw [hv] at h
        cases h
      | ok b =>
        rw [hv] at h
        exact fun p hp => hw.takes_cons hp hq hv hname (ih htail h p hp)
    · have hne : ∀ q ∈ parts, q.name ≠ name := fun q hq he => hmem ⟨q, hq, he⟩
      rw [setEntries_cons_of_not_mem hne] at h
      intro p hp
      rw [lookup_cons_of_ne (Ne.symm (hne p hp))]
      exact ih htail h p hp

/-- A record is read if each part that is there can be read. -/
theorem Whole.exists_setEntries (hw : Whole parts) {es : List (String × Setting)}
    (hes : (es.map Prod.fst).Nodup)
    (h : ∀ p ∈ parts, ∀ v, lookup p.name es = some v → ∃ b, p.read v = .ok b) (a : α) :
    ∃ c, setEntries (parts.map Part.field) a es = .ok c := by
  induction es generalizing a with
  | nil => exact ⟨a, rfl⟩
  | cons x es ih =>
    obtain ⟨name, v⟩ := x
    obtain ⟨hname, htail⟩ := List.nodup_cons.1 hes
    have hrest : ∀ p ∈ parts, ∀ w, lookup p.name es = some w → ∃ b, p.read w = .ok b := by
      intro p hp w hw'
      refine h p hp w ?_
      rw [lookup_cons_of_ne, hw']
      rintro rfl
      exact hname (List.mem_map.2 ⟨_, mem_of_lookup hw', rfl⟩)
    by_cases hmem : ∃ q ∈ parts, q.name = name
    · obtain ⟨q, hq, rfl⟩ := hmem
      obtain ⟨b, hb⟩ := h q hq v (lookup_cons_self _ _ _)
      rw [hw.setEntries_cons hq, hb]
      exact ih htail hrest _
    · rw [setEntries_cons_of_not_mem fun q hq he => hmem ⟨q, hq, he⟩]
      exact ih htail hrest a

theorem Whole.setEntries_eq_ok_iff (hw : Whole parts) {es : List (String × Setting)}
    (hes : (es.map Prod.fst).Nodup) :
    setEntries (parts.map Part.field) defaults es = .ok c ↔
      ∀ p ∈ parts, p.Takes defaults (lookup p.name es) c := by
  refine ⟨hw.takes_of_setEntries hes, fun h => ?_⟩
  obtain ⟨c', hc'⟩ := hw.exists_setEntries hes (a := defaults) fun p hp v hv => by
    have htakes := h p hp
    rw [hv] at htakes
    exact ⟨_, htakes⟩
  have h' := hw.takes_of_setEntries hes hc'
  -- both records have the same parts
  have heq : c' = c := hw.ext c' c fun p hp => by
    have htakes := h p hp
    have htakes' := h' p hp
    cases hl : lookup p.name es with
    | none =>
      rw [hl] at htakes htakes'
      exact htakes'.trans htakes.symm
    | some v =>
      rw [hl] at htakes htakes'
      exact Except.ok.inj (htakes'.symm.trans htakes)
  rw [hc', heq]

/-- The items of a list are read as entries under the names of the parts in order. -/
theorem Whole.setItems_eq_ok_iff (hw : Whole parts) {ps : List (Part α)} (hps : ps ⊆ parts)
    (i : Nat) (vs : List Setting) :
    setItems a i (ps.map Part.field) vs = .ok c ↔
      setEntries (parts.map Part.field) a ((ps.map (·.name)).zip vs) = .ok c := by
  induction ps generalizing a i vs with
  | nil =>
    rw [List.map_nil, List.map_nil, List.zip_nil_left, setEntries]
    cases vs <;> rfl
  | cons p ps ih =>
    obtain ⟨hp, hps⟩ := List.cons_subset.1 hps
    cases vs with
    | nil => rfl
    | cons v vs =>
      rw [List.map_cons, List.map_cons, List.zip_cons_cons, hw.setEntries_cons hp, setItems]
      simp only [Part.field, Field.of]
      cases p.read v with
      | error m => simp [Except.map]
      | ok b => exact ih hps _ _

theorem nodup_of_ascending {es : List (String × Setting)} (h : Ascending es) :
    (es.map Prod.fst).Nodup := by
  refine List.pairwise_map.2 (h.imp fun hlt he => ?_)
  rw [he] at hlt
  exact String.lt_irrefl _ hlt

theorem map_fst_zip_sublist (names : List String) (vs : List Setting) :
    ((names.zip vs).map Prod.fst).Sublist names := by
  induction names generalizing vs with
  | nil => exact List.nil_sublist _
  | cons name names ih =>
    cases vs with
    | nil => exact List.nil_sublist _
    | cons v vs => exact (ih vs).cons_cons name

/-- A record is read from a table or a list, each part from what stands in its place; a part that
is not there keeps its default. -/
theorem Whole.record_eq_ok_iff (hw : Whole parts) {v : Setting} (ht : Tidy v) (expected : String) :
    record expected (parts.map Part.field) defaults v = .ok c ↔
      v.IsSection ∧ ∀ p ∈ parts, p.Takes defaults (part? (parts.map (·.name)) p.name v) c := by
  cases ht with
  | @table s es ha h =>
    rw [record, hw.setEntries_eq_ok_iff (nodup_of_ascending ha)]
    exact (and_iff_right (.inl ⟨s, es, rfl⟩)).symm
  | @list s vs hs h =>
    have hzip : (((parts.map (·.name)).zip vs).map Prod.fst).Nodup :=
      hw.names.sublist (map_fst_zip_sublist _ _)
    have hrecord : record expected (parts.map Part.field) defaults (.list s vs) = .ok c ↔
        setItems defaults 0 (parts.map Part.field) vs = .ok c := by
      rw [record]
      cases setItems defaults 0 (parts.map Part.field) vs with
      | error m => rfl
      | ok a => simp [hs]
    rw [hrecord, hw.setItems_eq_ok_iff (List.Subset.refl _), hw.setEntries_eq_ok_iff hzip]
    exact (and_iff_right (.inr ⟨s, vs, rfl⟩)).symm
  | flag | number | text =>
    simp [record, refuse, IsSection]

/-! ### Piles -/

/-- The highest setting of a pile is the one that is read. -/
def Decides (d : Decoder β) (default : β) (pile : List Setting) (b : β) : Prop :=
  Reads d default pile.head? b

/-- A decoder that takes no table. -/
def Flat (d : Decoder β) : Prop := ∀ s es b, d (.table s es) ≠ .ok b

theorem Flat.decides_iff {d : Decoder β} (hd : Flat d) {default b : β} {pile : List Setting} :
    Decides d default pile b ↔ Reads d default (stacked pile) b := by
  cases pile with
  | nil => rfl
  | cons v rest =>
    cases v with
    | table s es =>
      rcases stacked_cons_table s es rest with
        ⟨s', ws, -, hv⟩ | ⟨-, hv⟩
      · rw [hv]
        exact iff_of_false (hd _ _ _) (hd _ _ _)
      · rw [hv]
        rfl
    | null | flag | number | text | list =>
      rw [stacked_cons_of_not_table (by rintro _ _ ⟨⟩)]
      rfl

theorem flat_text : Flat text := by rintro s es b ⟨⟩

theorem flat_path : Flat Decoder.path := by rintro s es b ⟨⟩

theorem flat_word16 : Flat word16 := by rintro s es b ⟨⟩

theorem flat_word32 : Flat word32 := by rintro s es b ⟨⟩

theorem flat_word64 : Flat word64 := by rintro s es b ⟨⟩

theorem flat_list (d : Decoder β) : Flat (Decoder.list d) := by rintro s es b ⟨⟩

theorem Flat.optional {d : Decoder β} (hd : Flat d) : Flat (Decoder.optional d) := by
  intro s es b h
  rw [Decoder.optional] at h
  · cases hv : d (.table s es) with
    | error m =>
      rw [hv] at h
      cases h
    | ok b => exact hd _ _ _ hv
  · rintro _ ⟨⟩

/-- A record made of a pile: each part of what the pile shows under its name. -/
structure Composes (parts : List (Part α)) (defaults : α) (pile : List Setting) (c : α) :
    Prop where
  shape : ∀ v ∈ stacked pile, v.IsSection
  parts : ∀ p ∈ parts,
    p.Takes defaults (stacked (under (parts.map (·.name)) p.name pile)) c

/-- A record is read of a pile part by part. -/
theorem Whole.composes_iff (hw : Whole parts) {pile : List Setting} (ht : ∀ v ∈ pile, Tidy v)
    (expected : String) :
    Composes parts defaults pile c ↔
      Reads (record expected (parts.map Part.field) defaults) defaults (stacked pile) c := by
  cases hs : stacked pile with
  | none =>
    obtain rfl := stacked_eq_none_iff.1 hs
    constructor
    · intro h
      exact hw.ext c defaults fun p hp => h.parts p hp
    · rintro rfl
      exact ⟨fun v hv => absurd hv (by simp [stacked]), fun p hp => rfl⟩
  | some v =>
    have hpart (p : Part α) : part? (parts.map (·.name)) p.name v =
        stacked (under (parts.map (·.name)) p.name pile) := part?_stacked _ _ ht hs
    simp only [Reads, hw.record_eq_ok_iff (tidy_stacked ht hs), hpart]
    constructor
    · rintro ⟨hshape, hparts⟩
      exact ⟨hshape v hs, hparts⟩
    · rintro ⟨hshape, hparts⟩
      refine ⟨fun w hw => ?_, hparts⟩
      rw [hs] at hw
      cases hw
      exact hshape

/-! ### Tables of one kind of value -/

theorem ascending_ext {es es' : List (String × β)} (h : Ascending es) (h' : Ascending es')
    (heq : ∀ name, lookup name es = lookup name es') : es = es' := by
  have hmem (x : String × β) : x ∈ es ↔ x ∈ es' := by
    rw [← lookup_eq_some_iff h, ← lookup_eq_some_iff h', heq]
  have hnodup {l : List (String × β)} (hl : Ascending l) : l.Nodup := by
    refine hl.imp fun hlt he => ?_
    rw [he] at hlt
    exact String.lt_irrefl _ hlt
  refine List.Perm.eq_of_pairwise (fun x y _ _ hxy hyx => ?_) h h'
    ((List.perm_ext_iff_of_nodup (hnodup h) (hnodup h')).2 hmem)
  exact absurd (String.lt_trans hxy hyx) (String.lt_irrefl _)

theorem map_fst_entries {d : Decoder β} {es : List (String × Setting)} {bs : List (String × β)}
    (h : entries d es = .ok bs) : bs.map Prod.fst = es.map Prod.fst := by
  induction es generalizing bs with
  | nil =>
    cases h
    rfl
  | cons x es ih =>
    obtain ⟨name, v⟩ := x
    rw [entries] at h
    split at h
    · cases h
    · next b hb =>
      cases hes : entries d es with
      | error m =>
        rw [hes] at h
        cases h
      | ok bs' =>
        rw [hes] at h
        cases h
        rw [List.map_cons, List.map_cons, ih hes]

theorem lookup_entries {d : Decoder β} {es : List (String × Setting)} {bs : List (String × β)}
    (h : entries d es = .ok bs) (name : String) :
    Reads (fun v => (d v).map some) none (lookup name es) (lookup name bs) := by
  induction es generalizing bs with
  | nil =>
    cases h
    rfl
  | cons x es ih =>
    obtain ⟨n, v⟩ := x
    rw [entries] at h
    split at h
    · cases h
    · next b hb =>
      cases hes : entries d es with
      | error m =>
        rw [hes] at h
        cases h
      | ok bs' =>
        rw [hes] at h
        cases h
        by_cases hn : n = name
        · subst hn
          simp only [lookup_cons_self, Reads, hb]
          rfl
        · rw [lookup_cons_of_ne hn, lookup_cons_of_ne hn]
          exact ih hes

theorem exists_entries {d : Decoder β} {es : List (String × Setting)}
    (h : ∀ x ∈ es, ∃ b, d x.2 = .ok b) : ∃ bs, entries d es = .ok bs := by
  induction es with
  | nil => exact ⟨[], rfl⟩
  | cons x es ih =>
    obtain ⟨⟨b, hb⟩, hes⟩ := List.forall_mem_cons.1 h
    obtain ⟨bs, hbs⟩ := ih hes
    refine ⟨(x.1, b) :: bs, ?_⟩
    rw [entries, hb]
    simp only [hbs]
    rfl

/-- The values of a table are read one by one, under the same names. -/
theorem entries_eq_ok_iff {d : Decoder β} {es : List (String × Setting)}
    {bs : List (String × β)} (ha : Ascending es) :
    entries d es = .ok bs ↔ Ascending bs ∧
      ∀ name, Reads (fun v => (d v).map some) none (lookup name es) (lookup name bs) := by
  have hasc {bs : List (String × β)} (h : entries d es = .ok bs) : Ascending bs := by
    have hnames : (es.map Prod.fst).Pairwise (· < ·) := List.pairwise_map.2 ha
    rw [← map_fst_entries h] at hnames
    exact List.pairwise_map.1 hnames
  refine ⟨fun h => ⟨hasc h, lookup_entries h⟩, fun ⟨hbs, hlookup⟩ => ?_⟩
  obtain ⟨bs', hbs'⟩ : ∃ bs', entries d es = .ok bs' := by
    refine exists_entries fun x hx => ?_
    have hread := hlookup x.1
    rw [(lookup_eq_some_iff ha).2 hx] at hread
    cases hd : d x.2 with
    | error m =>
      simp only [Reads, hd] at hread
      cases hread
    | ok b => exact ⟨b, rfl⟩
  have heq : bs' = bs := by
    refine ascending_ext (hasc hbs') hbs fun name => ?_
    have hread := hlookup name
    have hread' := lookup_entries hbs' name
    cases hl : lookup name es with
    | none =>
      rw [hl] at hread hread'
      exact hread'.trans hread.symm
    | some v =>
      rw [hl] at hread hread'
      exact Except.ok.inj (hread'.symm.trans hread)
  rw [hbs', heq]

end Decoder

end SecretStore.Config
