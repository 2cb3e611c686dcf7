import SecretStore.Proofs.Config.Defaults
import SecretStore.Proofs.Config.Variables

/-!
# A text at the end of a path

What becomes of settings when a text is laid over them at the end of a path.

* `without`: a setting without what stands at the end of a path. A text that is laid there hides
  just that (`merge_without`).
* `merge_merge_nest`: where nothing but tables stands on the way, the text can be laid over the
  upper of two settings first.
* `Lays`: a decoder that takes two settings also takes one laid over the other.
* `TextAt`: a decoder takes nothing but a text at the end of a path, and takes each.
* `TextAt.merge`: so it takes a text that is laid over settings, whatever they have there.
-/

namespace SecretStore.Config

open Json (Value)
open Setting

namespace Setting

/-! ### Leaving out -/

/-- A setting without what stands at the end of a path of tables. -/
def without : List String → Setting → Setting
  | [name], table s es => table s (es.filter fun e => e.1 ≠ name)
  | name :: path, table s es =>
    table s (es.map fun e => if e.1 = name then (e.1, without path e.2) else e)
  | _, v => v

variable {name m : String} {path : List String} {s : Source} {es : List (String × Setting)}
  {v w u : Setting}

theorem lookup_filter_of_ne (h : m ≠ name) (es : List (String × Setting)) :
    lookup m (es.filter fun e => e.1 ≠ name) = lookup m es := by
  induction es with
  | nil => rfl
  | cons x es ih =>
    obtain ⟨n, a⟩ := x
    by_cases hn : n = name
    · rw [List.filter_cons_of_neg (by simpa using hn), ih,
        lookup_cons_of_ne (by rw [hn]; exact Ne.symm h)]
    · rw [List.filter_cons_of_pos (by simpa using hn)]
      by_cases hm : n = m
      · subst hm
        rw [lookup_cons_self, lookup_cons_self]
      · rw [lookup_cons_of_ne hm, lookup_cons_of_ne hm, ih]

theorem lookup_filter_self (name : String) (es : List (String × Setting)) :
    lookup name (es.filter fun e => e.1 ≠ name) = none :=
  lookup_eq_none fun x hx => by simpa using (List.mem_filter.1 hx).2

theorem lookup_map_entry (f : Setting → Setting) (name m : String)
    (es : List (String × Setting)) :
    lookup m (es.map fun e => if e.1 = name then (e.1, f e.2) else e) =
      if m = name then (lookup m es).map f else lookup m es := by
  induction es with
  | nil => simp
  | cons x es ih =>
    obtain ⟨n, a⟩ := x
    rw [List.map_cons]
    by_cases hm : n = m
    · subst hm
      by_cases hn : n = name
      · simp [hn]
      · simp [hn]
    · by_cases hn : n = name
      · simp only [hn, if_true]
        rw [← hn, lookup_cons_of_ne hm, lookup_cons_of_ne hm, hn, ih]
      · simp only [hn, if_false]
        rw [lookup_cons_of_ne hm, lookup_cons_of_ne hm, ih]

/-- What is left under a name of a table. -/
theorem lookup_without (name : String) (path : List String) (s : Source)
    (es : List (String × Setting)) : ∃ es', (table s es).without (name :: path) = table s es' ∧
      (Ascending es → Ascending es') ∧
      (∀ m, m ≠ name → lookup m es' = lookup m es) ∧
      lookup name es' = if path = [] then none else (lookup name es).map (without path) := by
  cases path with
  | nil =>
    refine ⟨_, rfl, fun h => h.filter _, fun m hm => lookup_filter_of_ne hm es, ?_⟩
    rw [if_pos rfl, lookup_filter_self]
  | cons p path =>
    refine ⟨_, rfl, fun h => List.pairwise_map.2 (h.imp fun hlt => ?_), fun m hm => ?_, ?_⟩
    · split_ifs <;> exact hlt
    · rw [lookup_map_entry, if_neg hm]
    · rw [lookup_map_entry, if_pos rfl, if_neg (List.cons_ne_nil _ _)]

theorem without_of_not_table (h : ∀ s es, v ≠ table s es) (path : List String) :
    v.without path = v := by
  cases v with
  | table s es => exact absurd rfl (h s es)
  | null | flag | number | text | list => rcases path with _ | ⟨n, _ | ⟨m, path⟩⟩ <;> rfl

theorem Tidy.without (h : Tidy v) (path : List String) : Tidy (v.without path) := by
  induction path generalizing v with
  | nil => cases h <;> (constructor <;> assumption)
  | cons name path ih =>
    cases h with
    | @table s es ha h =>
      obtain ⟨es', hwithout, ha', hother, hself⟩ := lookup_without name path s es
      rw [hwithout]
      refine .table (ha' ha) fun x hx => ?_
      have hl : lookup x.1 es' = some x.2 := (lookup_eq_some_iff (ha' ha)).2 hx
      by_cases hx : x.1 = name
      · rw [hx, hself] at hl
        split_ifs at hl
        obtain ⟨w, hw, hxw⟩ := Option.map_eq_some_iff.1 hl
        rw [← hxw]
        exact ih (h _ (mem_of_lookup hw))
      · rw [hother _ hx] at hl
        exact h _ (mem_of_lookup hl)
    | list hs h =>
      rw [without_of_not_table (by rintro _ _ ⟨⟩)]
      exact .list hs h
    | flag | number | text =>
      rw [without_of_not_table (by rintro _ _ ⟨⟩)]
      constructor

/-! ### Laying over -/

/-- Unless both are tables, the upper of two settings replaces the lower one. -/
theorem merge_cases (v w : Setting) :
    v.merge w = w ∨ ∃ s as s' bs, v = table s as ∧ w = table s' bs := by
  cases w with
  | table s' bs =>
    cases v with
    | table s as => exact .inr ⟨s, as, s', bs, rfl, rfl⟩
    | null | flag | number | text | list =>
      exact .inl (merge_table_of_not_table (by rintro _ _ ⟨⟩) s' bs)
  | null | flag | number | text | list => exact .inl (merge_of_not_table (by rintro _ _ ⟨⟩))

theorem exists_of_at?_cons (h : v.at? (name :: path) = some u) :
    ∃ s es w, v = table s es ∧ lookup name es = some w ∧ w.at? path = some u := by
  cases v with
  | table s es =>
    obtain ⟨w, hw, hu⟩ := Option.bind_eq_some_iff.1 h
    exact ⟨s, es, w, rfl, hw, hu⟩
  | null | flag | number | text | list => cases h

/-- What the upper setting has at the end of a path is laid over something there. -/
theorem at?_merge (hw : Tidy w) (h : w.at? path = some u) :
    ∃ o, (v.merge w).at? path = overlay o (some u) := by
  induction path generalizing v w with
  | nil =>
    cases h
    exact ⟨some v, rfl⟩
  | cons name path ih =>
    obtain ⟨s, es, w', rfl, hl, hu⟩ := exists_of_at?_cons h
    cases v with
    | table s' es' =>
      cases hw with
      | table ha ht =>
        rw [Setting.merge, at?, lookup_mergeEntries ha, hl]
        cases lookup name es' with
        | none => exact ⟨none, by rw [overlay_none_left, overlay_none_left]; exact hu⟩
        | some v' => exact ih (ht _ (mem_of_lookup hl)) hu
    | null | flag | number | text | list =>
      rw [merge_table_of_not_table (by rintro _ _ ⟨⟩)]
      exact ⟨none, by rw [overlay_none_left]; exact h⟩

theorem merge_text (v : Setting) (s : Source) (t : String) : v.merge (text s t) = text s t :=
  merge_of_not_table (by rintro _ _ ⟨⟩)

/-- A text is laid over anything as it is. -/
theorem overlay_text (o : Option Setting) (s : Source) (t : String) :
    overlay o (some (text s t)) = some (text s t) := by
  cases o with
  | none => rfl
  | some v => rw [overlay, merge_text]

/-- What is laid over something keeps its kind and its source. -/
theorem exists_overlay (o : Option Setting) (u : Setting) :
    ∃ w, overlay o (some u) = some w ∧ w.found = u.found ∧ w.source = u.source := by
  cases o with
  | none => exact ⟨u, rfl, rfl, rfl⟩
  | some v =>
    refine ⟨v.merge u, rfl, ?_⟩
    obtain hmerge | ⟨s, as, s', bs, rfl, rfl⟩ := merge_cases v u
    · rw [hmerge]
      exact ⟨rfl, rfl⟩
    · rw [Setting.merge]
      exact ⟨rfl, rfl⟩

theorem at?_merge_text {t : String} (hw : Tidy w) (h : w.at? path = some (text s t))
    (v : Setting) : (v.merge w).at? path = some (text s t) := by
  obtain ⟨o, ho⟩ := at?_merge (v := v) hw h
  rw [ho, overlay_text]

theorem Tidy.ascending (h : Tidy (.table s es)) : Ascending es := by
  cases h with | table ha _ => exact ha

theorem Tidy.of_lookup (h : Tidy (.table s es)) (hl : lookup name es = some v) : Tidy v := by
  cases h with | table _ ht => exact ht _ (mem_of_lookup hl)

/-- Tables that have the same under each name are the same. -/
theorem table_ext {es' : List (String × Setting)} (h : Tidy (table s es)) (h' : Tidy (table s es'))
    (heq : ∀ m, lookup m es = lookup m es') : table s es = table s es' := by
  rw [Decoder.ascending_ext h.ascending h'.ascending heq]

/-- A text hides what stands at the end of its path and nothing else. -/
theorem merge_without {t : String} (hv : Tidy v) (hw : Tidy w)
    (h : w.at? path = some (text s t)) : (v.without path).merge w = v.merge w := by
  induction path generalizing v w with
  | nil =>
    cases v <;> rfl
  | cons name path ih =>
    obtain ⟨s', es, w', rfl, hl, hw'⟩ := exists_of_at?_cons h
    cases hv' : v with
    | table sv as =>
      subst hv'
      obtain ⟨as', hwithout, -, hother, hself⟩ := lookup_without name path sv as
      have htidy := hv.without (name :: path)
      rw [hwithout] at htidy ⊢
      have hmerged := htidy.merge hw
      have hmerged' := hv.merge hw
      rw [Setting.merge] at hmerged hmerged' ⊢
      rw [Setting.merge]
      refine table_ext hmerged hmerged' fun m => ?_
      rw [lookup_mergeEntries hw.ascending, lookup_mergeEntries hw.ascending]
      by_cases hm : m = name
      · subst hm
        rw [hself, hl]
        split_ifs with hnil
        · subst hnil
          obtain rfl := Option.some.inj hw'
          rw [overlay_text, overlay_text]
        · cases hlookup : lookup m as with
          | none => rfl
          | some a =>
            have hmerge := ih (hv.of_lookup hlookup) (hw.of_lookup hl) hw'
            rw [Option.map_some, overlay, overlay, hmerge]
      · rw [hother m hm]
    | null | flag | number | text | list =>
      rw [without_of_not_table (by rintro _ _ ⟨⟩)]

/-- What is left of settings that are laid over each other is what is left of each of them. -/
theorem without_merge (hv : Tidy v) (hw : Tidy w) (path : List String) :
    (v.merge w).without path = (v.without path).merge (w.without path) := by
  induction path generalizing v w with
  | nil =>
    have hnil (u : Setting) : u.without [] = u := by cases u <;> rfl
    rw [hnil, hnil, hnil]
  | cons name path ih =>
    cases hw' : w with
    | table sw bs =>
      subst hw'
      obtain ⟨bs', hb, hbs', hbother, hbself⟩ := lookup_without name path sw bs
      cases hv' : v with
      | table sv as =>
        subst hv'
        obtain ⟨as', ha, has', haother, haself⟩ := lookup_without name path sv as
        have hmerged := hv.merge hw
        have hleft := hmerged.without (name :: path)
        have hright := (hv.without (name :: path)).merge (hw.without (name :: path))
        rw [Setting.merge] at hmerged hleft ⊢
        obtain ⟨cs', hc, hcs', hcother, hcself⟩ :=
          lookup_without name path sw (mergeEntries as bs)
        rw [hc] at hleft ⊢
        rw [ha, hb, Setting.merge] at hright ⊢
        refine table_ext hleft hright fun m => ?_
        rw [lookup_mergeEntries (hbs' hw.ascending)]
        by_cases hm : m = name
        · subst hm
          rw [hcself, haself, hbself, lookup_mergeEntries hw.ascending]
          split_ifs
          · rfl
          · cases hla : lookup m as with
            | none => rw [overlay_none_left, Option.map_none, overlay_none_left]
            | some a =>
              cases hlb : lookup m bs with
              | none => rw [overlay_none_right, Option.map_none, overlay_none_right]
              | some b =>
                have hab := ih (hv.of_lookup hla) (hw.of_lookup hlb)
                rw [overlay, Option.map_some, Option.map_some, Option.map_some, overlay, hab]
        · rw [hcother m hm, haother m hm, hbother m hm, lookup_mergeEntries hw.ascending]
      | null | flag | number | text | list =>
        rw [merge_table_of_not_table (by rintro _ _ ⟨⟩), hb,
          without_of_not_table (by rintro _ _ ⟨⟩), merge_table_of_not_table (by rintro _ _ ⟨⟩)]
    | null | flag | number | text | list =>
      rw [merge_of_not_table (by rintro _ _ ⟨⟩), without_of_not_table (by rintro _ _ ⟨⟩),
        merge_of_not_table (by rintro _ _ ⟨⟩)]

/-- Nothing of a value is left without the path that leads to it. -/
theorem without_nest (h : path ≠ []) (v w : Setting) :
    (Environment.nest v path).without path = (Environment.nest w path).without path := by
  induction path with
  | nil => exact absurd rfl h
  | cons name path ih =>
    cases path with
    | nil => simp [Environment.nest, Setting.without]
    | cons m path =>
      have hstep (u : Setting) : (Environment.nest u (name :: m :: path)).without
          (name :: m :: path) = table .environment
            [(name, (Environment.nest u (m :: path)).without (m :: path))] := by
        rw [Environment.nest, Setting.without, List.map_singleton, if_pos rfl]
        exact List.cons_ne_nil m path
      rw [hstep, hstep, ih (List.cons_ne_nil m path)]

/-- Where nothing but tables stands on the way, a text can be laid over the upper of two settings
first. -/
theorem merge_merge_nest (hv : Tidy v) (hw : Tidy w) (hclear : w.Clear path) (s : Source)
    (t : String) : v.merge (w.merge (Environment.nest (text s t) path)) =
      (v.merge w).merge (Environment.nest (text s t) path) := by
  induction path generalizing v w with
  | nil => rw [Environment.nest, merge_text, merge_text, merge_text]
  | cons name path ih =>
    obtain ⟨⟨sw, bs, rfl⟩, hbelow⟩ := clear_cons hclear
    have hnest : Tidy (Environment.nest (text s t) (name :: path)) :=
      Environment.tidy_nest (.text s t) _
    cases hv' : v with
    | table sv as =>
      subst hv'
      have hleft := hv.merge (hw.merge hnest)
      have hright := (hv.merge hw).merge hnest
      have hupper := hw.merge hnest
      rw [Environment.nest] at hnest hupper hleft hright ⊢
      simp only [Setting.merge] at hupper hleft hright ⊢
      refine table_ext hleft hright fun m => ?_
      rw [lookup_mergeEntries hupper.ascending, lookup_mergeEntries hnest.ascending,
        lookup_mergeEntries hnest.ascending, lookup_mergeEntries hw.ascending]
      by_cases hm : name = m
      · subst hm
        rw [lookup_cons_self]
        cases hb : lookup name bs with
        | none => rw [overlay_none_left, overlay_none_right]
        | some b =>
          cases ha : lookup name as with
          | none => rw [overlay_none_left, overlay_none_left]
          | some a =>
            have hclear' := hbelow b (by rw [at?, hb]; rfl)
            rw [overlay, overlay, overlay, overlay,
              ih (hv.of_lookup ha) (hw.of_lookup hb) hclear']
      · rw [lookup_cons_of_ne hm, lookup_nil, overlay_none_right, overlay_none_right]
    | null | flag | number | text | list =>
      have hlower (s' : Source) (es : List (String × Setting)) :
          v.merge (table s' es) = table s' es :=
        merge_table_of_not_table (by rw [hv']; rintro _ _ ⟨⟩) s' es
      rw [← hv', hlower, Environment.nest, Setting.merge, hlower]

end Setting

/-! ### Decoders of merged settings -/

namespace Decoder

variable {α β : Type} {d : Decoder α} {parts : List (Part α)} {defaults : α}
  {path : List String} {v w : Setting}

/-- Whether a decoder takes a setting. -/
def Accepts (d : Decoder α) (v : Setting) : Prop := ∃ c, d v = .ok c

/-- A decoder takes a setting laid over another one if it takes both. -/
def Lays (d : Decoder α) : Prop :=
  ∀ v w, Tidy v → Tidy w → d.Accepts v → d.Accepts w → d.Accepts (v.merge w)

theorem Flat.lays (h : Flat d) : Lays d := by
  rintro v w - - - ⟨c, hc⟩
  rw [merge_of_not_table]
  · exact ⟨c, hc⟩
  · rintro s es rfl
    exact h s es c hc

theorem optional_of_tidy (h : Tidy v) : optional d v = (d v).map some := by
  cases h <;> rfl

theorem accepts_optional_iff (h : Tidy v) : (optional d).Accepts v ↔ d.Accepts v := by
  rw [Accepts, Accepts, optional_of_tidy h]
  cases d v <;> simp [Except.map]

theorem Lays.optional (h : Lays d) : Lays (Decoder.optional d) := by
  intro v w hv hw hdv hdw
  rw [accepts_optional_iff (hv.merge hw)]
  exact h v w hv hw ((accepts_optional_iff hv).1 hdv) ((accepts_optional_iff hw).1 hdw)

theorem accepts_of_entries {es : List (String × Setting)} {bs : List (String × α)}
    (h : entries d es = .ok bs) : ∀ x ∈ es, d.Accepts x.2 := by
  induction es generalizing bs with
  | nil => exact fun _ hm => absurd hm List.not_mem_nil
  | cons x es ih =>
    obtain ⟨name, v⟩ := x
    rw [entries] at h
    split at h
    · cases h
    · next b hb =>
      cases hes : entries d es with
      | error m =>
        rw [hes] at h
        cases h
      | ok bs' => exact List.forall_mem_cons.2 ⟨⟨b, hb⟩, ih hes⟩

/-- What stands under a name of a merged table can be taken. -/
theorem Lays.overlay {o o' : Option Setting} (h : Lays d) (ht : ∀ v ∈ o, Tidy v)
    (ht' : ∀ v ∈ o', Tidy v) (ho : ∀ v ∈ o, d.Accepts v) (ho' : ∀ v ∈ o', d.Accepts v) :
    ∀ v ∈ overlay o o', d.Accepts v := by
  cases o with
  | none => rwa [overlay_none_left]
  | some v =>
    cases o' with
    | none => exact ho
    | some w =>
      rintro _ ⟨⟩
      exact h v w (ht v rfl) (ht' w rfl) (ho v rfl) (ho' w rfl)

theorem Lays.map (h : Lays d) : Lays (Decoder.map d) := by
  intro v w hv hw hdv hdw
  obtain hmerge | ⟨s, as, s', bs, rfl, rfl⟩ := merge_cases v w
  · rwa [hmerge]
  · obtain ⟨a, hdv⟩ := hdv
    obtain ⟨b, hdw⟩ := hdw
    have hmerged := hv.merge hw
    rw [Setting.merge] at hmerged ⊢
    refine exists_entries fun x hx => ?_
    have hl := (lookup_eq_some_iff hmerged.ascending).2 hx
    rw [lookup_mergeEntries hw.ascending] at hl
    exact h.overlay (fun v => hv.of_lookup) (fun w => hw.of_lookup)
      (fun v hl => accepts_of_entries hdv _ (mem_of_lookup hl))
      (fun w hl => accepts_of_entries hdw _ (mem_of_lookup hl)) _ hl

/-- A table is taken for a record exactly if each part that is there can be taken. -/
theorem Whole.accepts_table_iff (hw : Whole parts) {s : Source} {es : List (String × Setting)}
    (ha : Ascending es) (expected : String) :
    (record expected (parts.map Part.field) defaults).Accepts (.table s es) ↔
      ∀ p ∈ parts, ∀ v ∈ lookup p.name es, p.read.Accepts v :=
  hw.exists_setEntries_iff (nodup_of_ascending ha)

/-- A record is refused for the one part that cannot be taken. -/
theorem Whole.setEntries_of_misfit (hw : Whole parts) {p : Part α} (hp : p ∈ parts)
    {es : List (String × Setting)} (hes : (es.map Prod.fst).Nodup) {m : Misfit}
    (hv : lookup p.name es = some v) (hm : p.read v = .error m)
    (h : ∀ q ∈ parts, q.name ≠ p.name → ∀ w ∈ lookup q.name es, q.read.Accepts w) (a : α) :
    setEntries (parts.map Part.field) a es = .error (m.under p.name) := by
  induction es generalizing a with
  | nil => cases hv
  | cons x es ih =>
    obtain ⟨name, w⟩ := x
    obtain ⟨hname, htail⟩ := List.nodup_cons.1 hes
    by_cases hn : name = p.name
    · subst hn
      rw [lookup_cons_self, Option.some.injEq] at hv
      rw [hw.setEntries_cons hp, hv, hm]
    · rw [lookup_cons_of_ne hn] at hv
      have hrest : ∀ q ∈ parts, q.name ≠ p.name → ∀ w ∈ lookup q.name es, q.read.Accepts w := by
        intro q hq hne u hu
        refine h q hq hne u ?_
        rw [lookup_cons_of_ne]
        · exact hu
        · rintro rfl
          exact hname (List.mem_map.2 ⟨_, mem_of_lookup hu, rfl⟩)
      by_cases hmem : ∃ q ∈ parts, q.name = name
      · obtain ⟨q, hq, rfl⟩ := hmem
        obtain ⟨b, hb⟩ := h q hq hn w (lookup_cons_self _ _ _)
        rw [hw.setEntries_cons hq, hb]
        exact ih htail hv hrest _
      · rw [setEntries_cons_of_not_mem fun q hq he => hmem ⟨q, hq, he⟩]
        exact ih htail hv hrest a

theorem Whole.lays (hw : Whole parts) (h : ∀ p ∈ parts, Lays p.read) (expected : String)
    (defaults : α) : Lays (record expected (parts.map Part.field) defaults) := by
  intro v w hv hw' hdv hdw
  obtain hmerge | ⟨s, as, s', bs, rfl, rfl⟩ := merge_cases v w
  · rwa [hmerge]
  · have hmerged := hv.merge hw'
    rw [hw.accepts_table_iff hv.ascending] at hdv
    rw [hw.accepts_table_iff hw'.ascending] at hdw
    rw [Setting.merge] at hmerged ⊢
    rw [hw.accepts_table_iff hmerged.ascending]
    intro p hp
    rw [lookup_mergeEntries hw'.ascending]
    exact (h p hp).overlay (fun v => hv.of_lookup) (fun w => hw'.of_lookup) (hdv p hp) (hdw p hp)

/-! ### Texts at the end of a path -/

/-- What is wrong with a value in the place of a text. -/
def notText (v : Setting) (path : List String) : Misfit :=
  ⟨.type v.found "a string", path, v.source⟩

/-- A decoder takes at the end of a path nothing but a text, which is then what `get` shows; any
other value there is what is wrong, if all else is right. It takes any text there, and does not need
one. -/
structure TextAt (d : Decoder α) (path : List String) (get : α → Option String) : Prop where
  takes : ∀ {v c u}, Tidy v → d v = .ok c → v.at? path = some u →
    ∃ s t, u = .text s t ∧ get c = some t
  refuses : ∀ {v u}, Tidy v → v.at? path = some u → (∀ s t, u ≠ .text s t) →
    (path ≠ [] → d.Accepts (v.without path)) → d v = .error (notText u path)
  nest : ∀ s t, d.Accepts (Environment.nest (.text s t) path)
  drops : ∀ {v}, Tidy v → d.Accepts v → d.Accepts (v.without path)

theorem TextAt.congr {get get' : α → Option String} (h : TextAt d path get)
    (hget : ∀ c, get c = get' c) : TextAt d path get' := by
  rwa [← show get = get' from funext hget]

theorem textAt_text : TextAt text [] some where
  takes := by
    rintro v c u - hc ⟨⟩
    cases v with
    | text s t =>
      cases hc
      exact ⟨s, c, rfl, rfl⟩
    | null | flag | number | list | table => cases hc
  refuses := by
    rintro v u - ⟨⟩ htext -
    cases v with
    | text s t => exact absurd rfl (htext s t)
    | null | flag | number | list | table => rfl
  nest s t := ⟨t, rfl⟩
  drops := by
    rintro v - ⟨c, hc⟩
    rw [without_of_not_table]
    · exact ⟨c, hc⟩
    · rintro s es rfl
      cases hc

theorem TextAt.optional {get : α → Option String} (h : TextAt d path get) :
    TextAt (Decoder.optional d) path (·.bind get) where
  takes := by
    intro v c u hv hc hu
    rw [optional_of_tidy hv] at hc
    cases hd : d v with
    | error m =>
      rw [hd] at hc
      cases hc
    | ok b =>
      rw [hd] at hc
      cases hc
      exact h.takes hv hd hu
  refuses := by
    intro v u hv hu htext hrest
    rw [optional_of_tidy hv, h.refuses hv hu htext fun hne =>
      (accepts_optional_iff (hv.without path)).1 (hrest hne)]
    rfl
  nest s t := (accepts_optional_iff (Environment.tidy_nest (.text s t) path)).2 (h.nest s t)
  drops hv hd :=
    (accepts_optional_iff (hv.without path)).2 (h.drops hv ((accepts_optional_iff hv).1 hd))

/-- What is a text in a part of a record is one in the record. -/
theorem Whole.textAt (hw : Whole parts) {p : Part α} (hp : p ∈ parts) {get : p.β → Option String}
    (h : TextAt p.read path get) (expected : String) (defaults : α) :
    TextAt (record expected (parts.map Part.field) defaults) (p.name :: path)
      (get ∘ p.get) where
  takes := by
    intro v c u hv hc hu
    obtain ⟨s, es, u', rfl, hl, hu'⟩ := exists_of_at?_cons hu
    have htakes := ((hw.record_eq_ok_iff hv expected).1 hc).2 p hp
    rw [part?, hl, Part.takes_some] at htakes
    exact h.takes (hv.of_lookup hl) htakes hu'
  refuses := by
    intro v u hv hu htext hrest
    obtain ⟨s, es, u', rfl, hl, hu'⟩ := exists_of_at?_cons hu
    obtain ⟨es', hwithout, ha, hother, hself⟩ := lookup_without p.name path s es
    have hrest := hrest (List.cons_ne_nil _ _)
    rw [hwithout, hw.accepts_table_iff (ha hv.ascending)] at hrest
    refine hw.setEntries_of_misfit hp (nodup_of_ascending hv.ascending) hl
      (h.refuses (hv.of_lookup hl) hu' htext fun hne => ?_) (fun q hq hname w hw => ?_) defaults
    · refine hrest p hp _ ?_
      rw [hself, if_neg hne, hl]
      rfl
    · refine hrest q hq w ?_
      rwa [hother _ hname]
  nest s t := by
    rw [Environment.nest, hw.accepts_table_iff (List.pairwise_singleton _ _)]
    intro q hq v hv
    have hname : p.name = q.name := by
      by_contra hne
      rw [lookup_cons_of_ne hne] at hv
      cases hv
    obtain rfl := List.inj_on_of_nodup_map hw.names hp hq hname
    rw [lookup_cons_self] at hv
    cases hv
    exact h.nest s t
  drops := by
    intro v hv hd
    cases hv with
    | @table s es ha hes =>
      obtain ⟨es', hwithout, ha', hother, hself⟩ := lookup_without p.name path s es
      rw [hw.accepts_table_iff ha] at hd
      rw [hwithout, hw.accepts_table_iff (ha' ha)]
      intro q hq u hu
      by_cases hname : q.name = p.name
      · obtain rfl := List.inj_on_of_nodup_map hw.names hq hp hname
        rw [hself] at hu
        split_ifs at hu
        · cases hu
        · obtain ⟨u', hu', rfl⟩ := Option.map_eq_some_iff.1 hu
          exact h.drops (hes _ (mem_of_lookup hu')) (hd q hq u' hu')
      · rw [hother _ hname] at hu
        exact hd q hq u hu
    | flag | number | text | list =>
      rw [without_of_not_table (by rintro _ _ ⟨⟩)]
      exact hd

/-- Over settings whose rest can be taken, whatever they have at the end of a path, a decoder takes
others with a text there, and finds that text. -/
theorem TextAt.merge {get : α → Option String} {s : Source} {t : String} (h : TextAt d path get)
    (hd : Lays d) (hv : Tidy v) (hw : Tidy w) (hrest : d.Accepts (v.without path))
    (hupper : d.Accepts w) (ht : w.at? path = some (.text s t)) :
    ∃ c, d (v.merge w) = .ok c ∧ get c = some t := by
  obtain ⟨c, hc⟩ := hd _ _ (hv.without path) hw hrest hupper
  rw [merge_without hv hw ht] at hc
  obtain ⟨s', t', htext, hget⟩ := h.takes (hv.merge hw) hc (at?_merge_text hw ht v)
  cases htext
  exact ⟨c, hc, hget⟩

theorem TextAt.merge_nest {get : α → Option String} (h : TextAt d path get) (hd : Lays d)
    (hv : Tidy v) (hrest : d.Accepts (v.without path)) (s : Source) (t : String) :
    ∃ c, d (v.merge (Environment.nest (.text s t) path)) = .ok c ∧ get c = some t :=
  h.merge hd hv (Environment.tidy_nest (.text s t) path) hrest (h.nest s t)
    (Environment.at?_nest _ path)

end Decoder

end SecretStore.Config
