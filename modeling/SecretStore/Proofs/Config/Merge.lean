import SecretStore.Config.Setting

/-!
# Settings laid over each other

What `Setting.merge` does to the entries of tables.

* `Ascending`: the entries of a table have ascending names, so that no name stands twice.
* `lookup_mergeEntries`: an entry of a merged table is what both tables have under its name, the
  upper value laid over the lower one.
* `Tidy`: all tables inside a setting are ascending; `Tidy.merge` keeps it.
* `part?_stacked`: what a pile of settings shows under a name, before and after merging them.
* `foldl_under_eq_filterMap`: what it shows at the end of a path with tables only.
-/

namespace SecretStore.Config

open Json (Value)

/-- The names of some entries ascend. -/
def Ascending {α : Type} (es : List (String × α)) : Prop := es.Pairwise fun x y => x.1 < y.1

namespace Setting

variable {α : Type} {n m name : String} {a b : α} {es : List (String × α)}

/-! ### Entries -/

@[simp] theorem lookup_nil (name : String) : lookup name ([] : List (String × α)) = none := rfl

@[simp] theorem lookup_cons_self (name : String) (a : α) (es : List (String × α)) :
    lookup name ((name, a) :: es) = some a := by
  simp [lookup]

theorem lookup_cons_of_ne (h : n ≠ m) (a : α) (es : List (String × α)) :
    lookup m ((n, a) :: es) = lookup m es := by
  simp [lookup, h]

theorem mem_of_lookup (h : lookup name es = some a) : (name, a) ∈ es := by
  obtain ⟨⟨n, b⟩, hx, rfl⟩ := Option.map_eq_some_iff.1 h
  have hn := List.find?_some hx
  rw [beq_iff_eq] at hn
  exact hn ▸ List.mem_of_find?_eq_some hx

theorem lookup_eq_none (h : ∀ x ∈ es, x.1 ≠ name) : lookup name es = none := by
  rw [lookup, Option.map_eq_none_iff, List.find?_eq_none]
  exact fun x hx he => h x hx (beq_iff_eq.1 he)

theorem lookup_insert_self (n : String) (a : α) (es : List (String × α)) :
    lookup n (Value.insert n a es) = some a := by
  induction es with
  | nil => exact lookup_cons_self n a []
  | cons x es ih =>
    obtain ⟨k, w⟩ := x
    rw [Value.insert]
    split
    · exact lookup_cons_self n a _
    · split
      · exact lookup_cons_self n a _
      · next hne => rw [lookup_cons_of_ne (Ne.symm hne), ih]

theorem lookup_insert_of_ne (h : n ≠ m) (a : α) (es : List (String × α)) :
    lookup m (Value.insert n a es) = lookup m es := by
  induction es with
  | nil => exact lookup_cons_of_ne h a []
  | cons x es ih =>
    obtain ⟨k, w⟩ := x
    rw [Value.insert]
    split
    · exact lookup_cons_of_ne h a _
    · split
      · next hk =>
        subst hk
        rw [lookup_cons_of_ne h, lookup_cons_of_ne h]
      · by_cases hm : k = m
        · subst hm
          rw [lookup_cons_self, lookup_cons_self]
        · rw [lookup_cons_of_ne hm, lookup_cons_of_ne hm, ih]

theorem insert_insert (n : String) (a b : α) (es : List (String × α)) :
    Value.insert n b (Value.insert n a es) = Value.insert n b es := by
  induction es with
  | nil => simp [Value.insert]
  | cons x es ih =>
    obtain ⟨k, w⟩ := x
    by_cases hlt : n < k
    · simp [Value.insert, hlt]
    · by_cases heq : n = k
      · subst heq
        simp [Value.insert]
      · simp [Value.insert, hlt, heq, ih]

/-- Entries under different names go in in any order. -/
theorem insert_comm (h : n ≠ m) (a b : α) (es : List (String × α)) :
    Value.insert n a (Value.insert m b es) = Value.insert m b (Value.insert n a es) := by
  induction es with
  | nil =>
    simp only [Value.insert]
    grind [String.lt_trans]
  | cons x es ih =>
    obtain ⟨k, w⟩ := x
    simp only [Value.insert]
    grind [String.lt_trans, Value.insert]

theorem mem_insert {x : String × α} (h : x ∈ Value.insert n a es) : x = (n, a) ∨ x ∈ es := by
  induction es with
  | nil => exact .inl (List.mem_singleton.1 h)
  | cons y es ih =>
    obtain ⟨k, w⟩ := y
    rw [Value.insert] at h
    split at h
    · exact List.mem_cons.1 h
    · split at h
      · rcases List.mem_cons.1 h with h | h
        · exact .inl h
        · exact .inr (List.mem_cons_of_mem _ h)
      · rcases List.mem_cons.1 h with rfl | h
        · exact .inr List.mem_cons_self
        · rcases ih h with h | h
          · exact .inl h
          · exact .inr (List.mem_cons_of_mem _ h)

theorem ascending_insert (h : Ascending es) (n : String) (a : α) :
    Ascending (Value.insert n a es) := by
  induction es with
  | nil => exact List.pairwise_singleton _ _
  | cons y es ih =>
    obtain ⟨k, w⟩ := y
    obtain ⟨hk, hes⟩ := List.pairwise_cons.1 h
    rw [Value.insert]
    split
    · next hlt =>
      refine List.pairwise_cons.2 ⟨fun x hx => ?_, h⟩
      rcases List.mem_cons.1 hx with rfl | hx
      · exact hlt
      · exact String.lt_trans hlt (hk x hx)
    · next hlt =>
      split
      · next heq =>
        subst heq
        exact List.pairwise_cons.2 ⟨hk, hes⟩
      · next hne =>
        refine List.pairwise_cons.2 ⟨fun x hx => ?_, ih hes⟩
        rcases mem_insert hx with rfl | hx
        · exact Std.lt_of_le_of_ne hlt (Ne.symm hne)
        · exact hk x hx

/-- The entries of a list, sorted: each of them comes from the list. -/
theorem ascending_sorted (es : List (String × α)) :
    Ascending (Value.sorted es) ∧ ∀ x ∈ Value.sorted es, x ∈ es := by
  suffices h : ∀ acc : List (String × α), Ascending acc →
      let out := es.foldl (fun acc x => Value.insert x.1 x.2 acc) acc
      Ascending out ∧ ∀ x ∈ out, x ∈ acc ∨ x ∈ es by
    obtain ⟨hasc, hmem⟩ := h [] .nil
    exact ⟨hasc, fun x hx => (hmem x hx).resolve_left List.not_mem_nil⟩
  induction es with
  | nil => exact fun acc h => ⟨h, fun x hx => .inl hx⟩
  | cons y es ih =>
    intro acc h
    obtain ⟨hasc, hmem⟩ := ih _ (ascending_insert h y.1 y.2)
    refine ⟨hasc, fun x hx => ?_⟩
    rcases hmem x hx with hx | hx
    · rcases mem_insert hx with rfl | hx
      · exact .inr List.mem_cons_self
      · exact .inl hx
    · exact .inr (List.mem_cons_of_mem _ hx)

theorem lookup_eq_none_of_ascending (h : Ascending ((n, a) :: es)) : lookup n es = none := by
  refine lookup_eq_none fun x hx he => ?_
  have hlt := (List.pairwise_cons.1 h).1 x hx
  rw [he] at hlt
  exact String.lt_irrefl n hlt

theorem lookup_eq_some_iff (h : Ascending es) : lookup name es = some a ↔ (name, a) ∈ es := by
  refine ⟨mem_of_lookup, fun hmem => ?_⟩
  induction es with
  | nil => cases hmem
  | cons y es ih =>
    obtain ⟨k, w⟩ := y
    obtain ⟨hk, hes⟩ := List.pairwise_cons.1 h
    rcases List.mem_cons.1 hmem with heq | hmem
    · cases heq
      exact lookup_cons_self name a es
    · have hne : k ≠ name := by
        rintro rfl
        exact String.lt_irrefl k (hk _ hmem)
      rw [lookup_cons_of_ne hne, ih hes hmem]

/-! ### Merging -/

/-- One optional value laid over another. -/
def overlay : Option Setting → Option Setting → Option Setting
  | w, none => w
  | none, some v => some v
  | some w, some v => some (w.merge v)

@[simp] theorem overlay_none_right (o : Option Setting) : overlay o none = o := by
  cases o <;> rfl

@[simp] theorem overlay_none_left (o : Option Setting) : overlay none o = o := by
  cases o <;> rfl

/-- An entry of a merged table is what both tables have under its name. -/
theorem lookup_mergeEntries {lower upper : List (String × Setting)} (h : Ascending upper)
    (name : String) :
    lookup name (mergeEntries lower upper) = overlay (lookup name lower) (lookup name upper) := by
  induction upper generalizing lower with
  | nil => rw [mergeEntries, lookup_nil, overlay_none_right]
  | cons x upper ih =>
    obtain ⟨n, v⟩ := x
    have hupper := (List.pairwise_cons.1 h).2
    rw [mergeEntries, ih hupper]
    by_cases hn : n = name
    · subst hn
      rw [lookup_insert_self, lookup_eq_none_of_ascending h, lookup_cons_self, overlay_none_right]
      cases lookup n lower <;> rfl
    · rw [lookup_insert_of_ne hn, lookup_cons_of_ne hn]

/-- A setting as it is loaded: nothing in it is null, the entries of each table ascend, and no list
is one of a document that stands for itself. -/
inductive Tidy : Setting → Prop
  | flag (s : Source) (b : Bool) : Tidy (flag s b)
  | number (s : Source) (n : Number) : Tidy (number s n)
  | text (s : Source) (t : String) : Tidy (text s t)
  | list {s : Source} {items : List Setting} (hs : s ≠ .document) (h : ∀ v ∈ items, Tidy v) :
      Tidy (list s items)
  | table {s : Source} {entries : List (String × Setting)} (ha : Ascending entries)
      (h : ∀ x ∈ entries, Tidy x.2) : Tidy (table s entries)

theorem tidy_sorted {es : List (String × Setting)} (s : Source) (h : ∀ x ∈ es, Tidy x.2) :
    Tidy (.table s (Value.sorted es)) := by
  obtain ⟨ha, hmem⟩ := ascending_sorted es
  exact .table ha fun x hx => h x (hmem x hx)

theorem tidy_mergeEntries {s : Source} {lower upper : List (String × Setting)}
    (ha : Ascending lower) (hl : ∀ x ∈ lower, Tidy x.2)
    (hu : ∀ x ∈ upper, Tidy x.2 ∧ ∀ w, Tidy w → Tidy (w.merge x.2)) :
    Tidy (.table s (mergeEntries lower upper)) := by
  induction upper generalizing lower with
  | nil =>
    rw [mergeEntries]
    exact .table ha hl
  | cons x upper ih =>
    obtain ⟨n, v⟩ := x
    obtain ⟨hv, hu⟩ := List.forall_mem_cons.1 hu
    rw [mergeEntries]
    refine ih (ascending_insert ha _ _) (fun y hy => ?_) hu
    rcases mem_insert hy with rfl | hy
    · cases hn : lookup n lower with
      | none => exact hv.1
      | some w => exact hv.2 w (hl _ (mem_of_lookup hn))
    · exact hl y hy

theorem merge_of_not_table {w v : Setting} (h : ∀ s es, v ≠ table s es) : w.merge v = v := by
  cases v with
  | table s es => exact absurd rfl (h s es)
  | null | flag | number | text | list => cases w <;> rfl

theorem merge_table_of_not_table {w : Setting} (h : ∀ s es, w ≠ table s es) (s : Source)
    (es : List (String × Setting)) : w.merge (table s es) = table s es := by
  cases w with
  | table s es => exact absurd rfl (h s es)
  | null | flag | number | text | list => rfl

theorem Tidy.merge {w v : Setting} (hw : Tidy w) (hv : Tidy v) : Tidy (w.merge v) := by
  induction hv generalizing w with
  | @table s upper ha h ih =>
    cases hw with
    | table ha' h' =>
      rw [Setting.merge]
      exact tidy_mergeEntries ha' h' fun x hx => ⟨h x hx, fun w hw => ih x hx hw⟩
    | flag | number | text | list =>
      rw [merge_table_of_not_table (by rintro _ _ ⟨⟩)]
      exact .table ha h
  | list hs h =>
    rw [merge_of_not_table (by rintro _ _ ⟨⟩)]
    exact .list hs h
  | flag | number | text =>
    rw [merge_of_not_table (by rintro _ _ ⟨⟩)]
    constructor

/-! ### Piles of settings -/

/-- Settings laid over each other, the highest first. -/
def stacked : List Setting → Option Setting
  | [] => none
  | v :: rest => overlay (stacked rest) (some v)

/-- What the tables at the top of a pile have under a name. -/
def through (name : String) : List Setting → List Setting
  | table _ es :: rest => (lookup name es).toList ++ through name rest
  | _ => []

/-- What a pile shows under a name: tables at the top are looked through down to the first value of
another kind. A list at the top has its items in the places of `names`. -/
def under (names : List String) (name : String) : List Setting → List Setting
  | list _ items :: _ => (lookup name (names.zip items)).toList
  | vs => through name vs

theorem tidy_lookup {name : String} {es : List (String × Setting)} (h : ∀ x ∈ es, Tidy x.2) :
    ∀ v ∈ (lookup name es).toList, Tidy v := by
  intro v hv
  rw [Option.mem_toList] at hv
  exact h _ (mem_of_lookup hv)

theorem tidy_through {vs : List Setting} (ht : ∀ v ∈ vs, Tidy v) (name : String) :
    ∀ v ∈ through name vs, Tidy v := by
  induction vs with
  | nil => exact fun _ hm => absurd hm List.not_mem_nil
  | cons u vs ih =>
    obtain ⟨hu, hvs⟩ := List.forall_mem_cons.1 ht
    cases hu with
    | table ha h =>
      exact List.forall_mem_append.2 ⟨tidy_lookup h, ih hvs⟩
    | flag | number | text | list => exact fun _ hm => absurd hm List.not_mem_nil

theorem tidy_under {vs : List Setting} (ht : ∀ v ∈ vs, Tidy v) (names : List String)
    (name : String) : ∀ v ∈ under names name vs, Tidy v := by
  cases vs with
  | nil => exact tidy_through ht name
  | cons u vs =>
    obtain ⟨hu, -⟩ := List.forall_mem_cons.1 ht
    cases hu with
    | list hs h => exact tidy_lookup fun x hx => h _ (List.of_mem_zip hx).2
    | flag | number | text | table => exact tidy_through ht name

/-- What a setting has under a name. -/
def part? (names : List String) (name : String) : Setting → Option Setting
  | table _ es => lookup name es
  | list _ items => lookup name (names.zip items)
  | _ => none

theorem stacked_append_toList (o : Option Setting) (vs : List Setting) :
    stacked (o.toList ++ vs) = overlay (stacked vs) o := by
  cases o <;> simp [stacked]

theorem stacked_eq_none_iff {vs : List Setting} : stacked vs = none ↔ vs = [] := by
  cases vs with
  | nil => exact iff_of_true rfl rfl
  | cons v vs =>
    refine iff_of_false (fun h => ?_) (List.cons_ne_nil _ _)
    rw [stacked] at h
    cases hs : stacked vs <;> rw [hs] at h <;> cases h

theorem tidy_stacked {vs : List Setting} {v : Setting} (ht : ∀ v ∈ vs, Tidy v)
    (h : stacked vs = some v) : Tidy v := by
  induction vs generalizing v with
  | nil => cases h
  | cons u vs ih =>
    obtain ⟨hu, hvs⟩ := List.forall_mem_cons.1 ht
    rw [stacked] at h
    cases hs : stacked vs with
    | none =>
      rw [hs] at h
      cases h
      exact hu
    | some w =>
      rw [hs] at h
      cases h
      exact (ih hvs hs).merge hu

theorem stacked_cons_of_not_table {u : Setting} (h : ∀ s es, u ≠ table s es)
    (rest : List Setting) : stacked (u :: rest) = some u := by
  rw [stacked]
  cases stacked rest with
  | none => rfl
  | some w => rw [overlay, merge_of_not_table h]

/-- Under a table, only what is merged of the tables below it counts. -/
theorem stacked_cons_table (s : Source) (es : List (String × Setting)) (rest : List Setting) :
    (∃ s' ws, stacked rest = some (table s' ws) ∧
      stacked (table s es :: rest) = some (table s (mergeEntries ws es))) ∨
    ((∀ s' ws, stacked rest ≠ some (table s' ws)) ∧
      stacked (table s es :: rest) = some (table s es)) := by
  rw [stacked]
  cases hs : stacked rest with
  | none => exact .inr ⟨by rintro _ _ ⟨⟩, rfl⟩
  | some w =>
    cases w with
    | table s' ws => exact .inl ⟨s', ws, rfl, by rw [overlay, Setting.merge]⟩
    | null | flag | number | text | list =>
      refine .inr ⟨by rintro _ _ ⟨⟩, ?_⟩
      rw [overlay, merge_table_of_not_table (by rintro _ _ ⟨⟩)]

theorem through_eq_nil (name : String) {rest : List Setting}
    (h : ∀ s ws, stacked rest ≠ some (table s ws)) : through name rest = [] := by
  cases rest with
  | nil => rfl
  | cons u rest =>
    cases u with
    | table s es =>
      rcases stacked_cons_table s es rest with ⟨_, _, -, hv⟩ | ⟨-, hv⟩
      · exact absurd hv (h _ _)
      · exact absurd hv (h _ _)
    | null | flag | number | text | list => rfl

theorem under_eq_through (names : List String) (name : String) {rest : List Setting} {s : Source}
    {ws : List (String × Setting)} (h : stacked rest = some (table s ws)) :
    under names name rest = through name rest := by
  cases rest with
  | nil => rfl
  | cons u rest =>
    cases u with
    | list s items =>
      rw [stacked_cons_of_not_table (by rintro _ _ ⟨⟩)] at h
      cases h
    | null | flag | number | text | table => rfl

/-- A pile that is merged has under a name what the pile shows there, merged. -/
theorem part?_stacked (names : List String) (name : String) {vs : List Setting} {v : Setting}
    (ht : ∀ v ∈ vs, Tidy v) (h : stacked vs = some v) :
    part? names name v = stacked (under names name vs) := by
  induction vs generalizing v with
  | nil => cases h
  | cons u rest ih =>
    obtain ⟨hu, hrest⟩ := List.forall_mem_cons.1 ht
    cases u with
    | table s es =>
      obtain ⟨ha, -⟩ : Ascending es ∧ True := by cases hu with | table ha _ => exact ⟨ha, trivial⟩
      rw [under, through, stacked_append_toList]
      · rcases stacked_cons_table s es rest with
          ⟨s', ws, hs, hv⟩ | ⟨hs, hv⟩
        · obtain rfl : table s (mergeEntries ws es) = v := Option.some.inj (hv.symm.trans h)
          rw [part?, lookup_mergeEntries ha, ← under_eq_through names name hs, ← ih hrest hs, part?]
        · obtain rfl : table s es = v := Option.some.inj (hv.symm.trans h)
          rw [part?, through_eq_nil name hs, stacked, overlay_none_left]
      · rintro _ _ _ ⟨⟩
    | list s items =>
      rw [stacked_cons_of_not_table (by rintro _ _ ⟨⟩), Option.some.injEq] at h
      subst h
      rw [part?, under]
      cases lookup name (names.zip items) <;> rfl
    | null | flag | number | text =>
      rw [stacked_cons_of_not_table (by rintro _ _ ⟨⟩), Option.some.injEq] at h
      subst h
      rfl

/-! ### Paths -/

/-- The value under some levels of tables. -/
def at? : List String → Setting → Option Setting
  | [], v => some v
  | name :: path, table _ es => (lookup name es).bind (at? path)
  | _ :: _, _ => none

/-- Nothing but tables stands on the way to a path. -/
def Clear (path : List String) (v : Setting) : Prop :=
  ∀ q, q <+: path → q ≠ path → ∀ w ∈ v.at? q, ∃ s es, w = table s es

theorem clear_cons {v : Setting} {path : List String} (h : v.Clear (name :: path)) :
    (∃ s es, v = table s es) ∧ ∀ w ∈ v.at? [name], w.Clear path := by
  refine ⟨h [] List.nil_prefix (List.cons_ne_nil _ _).symm v rfl, fun w hw q hq hne u hu => ?_⟩
  refine h (name :: q) (List.cons_prefix_cons.2 ⟨rfl, hq⟩) (by simpa using hne) u ?_
  cases v with
  | table s es =>
    obtain ⟨x, hx, hxw⟩ := Option.bind_eq_some_iff.1 hw
    obtain rfl := Option.some.inj hxw
    exact Option.bind_eq_some_iff.2 ⟨x, hx, hu⟩
  | null | flag | number | text | list => cases hw

end Setting

end SecretStore.Config
