import SecretStore.Config.Environment
import SecretStore.Config.Toml.Document
import SecretStore.Proofs.Config.Merge

/-!
# Settings that are read are tidy

The readers of configuration files and of variables build tables through `Json.Value.sorted`, so
that the entries of every table ascend.

* `Toml.tidy_parse?`: the settings of a file.
* `Environment.tidy_parse`: the value of a variable.
-/

namespace SecretStore.Config

open Setting (Tidy)

namespace Toml

variable {P : Setting → Prop} {source : Source} {es es' : Entries} {v : Setting}

/-- Every value in a part of a document has some property. -/
inductive Node.Holds (P : Setting → Prop) : Node → Prop
  | value {v : Setting} (h : P v) : Holds P (.value v)
  | table {opened : Opened} {entries : List (String × Node)}
      (h : ∀ x ∈ entries, Holds P x.2) : Holds P (.table opened entries)
  | tables {last : List (String × Node)} {earlier : List (List (String × Node))}
      (h : ∀ x ∈ last, Holds P x.2) (h' : ∀ es ∈ earlier, ∀ x ∈ es, Holds P x.2) :
      Holds P (.tables last earlier)

/-- Every value in some entries has some property. -/
def Entries.Hold (P : Setting → Prop) (es : Entries) : Prop := ∀ x ∈ es, x.2.Holds P

theorem Entries.Hold.put {name : String} {n : Node} (h : es.Hold P) (hn : n.Holds P) :
    Entries.Hold P (Toml.put name n es) := by
  induction es with
  | nil => exact List.forall_mem_singleton.2 hn
  | cons x es ih =>
    obtain ⟨hx, hes⟩ := List.forall_mem_cons.1 h
    rw [Toml.put]
    split
    · exact List.forall_mem_cons.2 ⟨hn, hes⟩
    · exact List.forall_mem_cons.2 ⟨hx, ih hes⟩

theorem Entries.Hold.lookup {name : String} {n : Node} (h : es.Hold P)
    (hn : Setting.lookup name es = some n) : n.Holds P :=
  h _ (Setting.mem_of_lookup hn)

theorem hold_nil : Entries.Hold P [] := fun _ h => absurd h List.not_mem_nil

theorem hold_openTable {path : List String} (h : es.Hold P)
    (he : openTable path es = some es') : es'.Hold P := by
  fun_induction openTable path es generalizing es' with
  | case1 => cases he
  | case2 es name hl =>
    cases he
    exact h.put (.table hold_nil)
  | case3 es name inner hl =>
    cases he
    cases h.lookup hl with
    | table hi => exact h.put (.table hi)
  | case4 => cases he
  | case5 es name path hp hl ih =>
    obtain ⟨inner, hi, rfl⟩ := Option.map_eq_some_iff.1 he
    exact h.put (.table (ih hold_nil hi))
  | case6 es name path hp opened inner hl ih =>
    obtain ⟨inner', hi, rfl⟩ := Option.map_eq_some_iff.1 he
    cases h.lookup hl with
    | table ho => exact h.put (.table (ih ho hi))
  | case7 es name path hp last earlier hl ih =>
    obtain ⟨last', hi, rfl⟩ := Option.map_eq_some_iff.1 he
    cases h.lookup hl with
    | tables ho ho' => exact h.put (.tables (ih ho hi) ho')
  | case8 => cases he

theorem hold_openItem {path : List String} (h : es.Hold P)
    (he : openItem path es = some es') : es'.Hold P := by
  fun_induction openItem path es generalizing es' with
  | case1 => cases he
  | case2 es name hl =>
    cases he
    exact h.put (.tables hold_nil fun _ hm => absurd hm List.not_mem_nil)
  | case3 es name last earlier hl =>
    cases he
    cases h.lookup hl with
    | tables ho ho' => exact h.put (.tables hold_nil (List.forall_mem_cons.2 ⟨ho, ho'⟩))
  | case4 => cases he
  | case5 es name path hp hl ih =>
    obtain ⟨inner, hi, rfl⟩ := Option.map_eq_some_iff.1 he
    exact h.put (.table (ih hold_nil hi))
  | case6 es name path hp opened inner hl ih =>
    obtain ⟨inner', hi, rfl⟩ := Option.map_eq_some_iff.1 he
    cases h.lookup hl with
    | table ho => exact h.put (.table (ih ho hi))
  | case7 es name path hp last earlier hl ih =>
    obtain ⟨last', hi, rfl⟩ := Option.map_eq_some_iff.1 he
    cases h.lookup hl with
    | tables ho ho' => exact h.put (.tables (ih ho hi) ho')
  | case8 => cases he

theorem hold_addValue {path : List String} (h : es.Hold P) (hv : P v)
    (he : addValue v path es = some es') : es'.Hold P := by
  fun_induction addValue v path es generalizing es' with
  | case1 => cases he
  | case2 es name hl =>
    cases he
    exact h.put (.value hv)
  | case3 => cases he
  | case4 es name path hp hl ih =>
    obtain ⟨inner, hi, rfl⟩ := Option.map_eq_some_iff.1 he
    exact h.put (.table (ih hold_nil hi))
  | case5 => cases he
  | case6 es name path hp opened inner hl hne ih =>
    obtain ⟨inner', hi, rfl⟩ := Option.map_eq_some_iff.1 he
    cases h.lookup hl with
    | table ho => exact h.put (.table (ih ho hi))
  | case7 es name path hp last earlier hl ih =>
    obtain ⟨last', hi, rfl⟩ := Option.map_eq_some_iff.1 he
    cases h.lookup hl with
    | tables ho ho' => exact h.put (.tables (ih ho hi) ho')
  | case8 => cases he

theorem hold_addBelow {key path : List String} (h : es.Hold P) (hv : P v)
    (he : addBelow v key path es = some es') : es'.Hold P := by
  fun_induction addBelow v key path es generalizing es' with
  | case1 => exact hold_addValue h hv he
  | case2 es name path opened inner hl ih =>
    obtain ⟨inner', hi, rfl⟩ := Option.map_eq_some_iff.1 he
    cases h.lookup hl with
    | table ho => exact h.put (.table (ih ho hi))
  | case3 es name path last earlier hl ih =>
    obtain ⟨last', hi, rfl⟩ := Option.map_eq_some_iff.1 he
    cases h.lookup hl with
    | tables ho ho' => exact h.put (.tables (ih ho hi) ho')
  | case4 => cases he

/-! ### From nodes to settings -/

theorem entriesToSettings_eq (source : Source) (es : Entries) :
    entriesToSettings source es = es.map fun x => (x.1, x.2.toSetting source) := by
  induction es with
  | nil => rfl
  | cons x es ih => rw [entriesToSettings, ih, List.map_cons]

theorem tablesToSettings_eq (source : Source) (ess : List Entries) :
    tablesToSettings source ess =
      ess.map fun es => .table source (Json.Value.sorted (entriesToSettings source es)) := by
  induction ess with
  | nil => rfl
  | cons es ess ih => rw [tablesToSettings, ih, List.map_cons]

theorem tidy_entries (h : ∀ x ∈ es, Tidy (x.2.toSetting source)) :
    Tidy (.table source (Json.Value.sorted (entriesToSettings source es))) := by
  refine Setting.tidy_sorted source fun x hx => ?_
  rw [entriesToSettings_eq] at hx
  obtain ⟨y, hy, rfl⟩ := List.mem_map.1 hx
  exact h y hy

theorem tidy_toSetting (hs : source ≠ .document) {n : Node} (h : n.Holds Tidy) :
    Tidy (n.toSetting source) := by
  induction h with
  | value h => exact h
  | table _ ih =>
    rw [Node.toSetting]
    exact tidy_entries ih
  | tables _ _ ih ih' =>
    rw [Node.toSetting, tablesToSettings_eq]
    refine .list hs fun v hv => ?_
    rcases List.mem_append.1 hv with hv | hv
    · obtain ⟨es, hes, rfl⟩ := List.mem_map.1 (List.mem_reverse.1 hv)
      exact tidy_entries (ih' es hes)
    · rw [List.mem_singleton.1 hv]
      exact tidy_entries ih

theorem Entries.Hold.tidy (h : es.Hold Tidy) (hs : source ≠ .document) :
    Tidy (.table source (Json.Value.sorted (entriesToSettings source es))) :=
  tidy_entries fun x hx => tidy_toSetting hs (h x hx)

/-! ### Reading -/

theorem tidy_numeral? {cs rest : List Char} (h : numeral? source cs = some (v, rest)) :
    Tidy v := by
  unfold numeral? at h
  split at h
  · cases h
    exact .table (List.pairwise_singleton _ _) (List.forall_mem_singleton.2 (.text _ _))
  · split at h
    · cases h
      exact .number _ _
    · obtain ⟨⟨n, r⟩, -, heq⟩ := Option.map_eq_some_iff.1 h
      cases heq
      exact .number _ _

/-- What is read with that much fuel is tidy. Values, items and members are read by one recursion,
so it is one statement about all three. -/
structure ReadsTidy (source : Source) (fuel : Nat) : Prop where
  value : ∀ depth cs v rest, value? source fuel depth cs = some (v, rest) → Tidy v
  items : ∀ depth cs vs rest, items? source fuel depth cs = some (vs, rest) → ∀ v ∈ vs, Tidy v
  members : ∀ depth es cs es' rest, members? source fuel depth es cs = some (es', rest) →
    es.Hold Tidy → es'.Hold Tidy

variable {fuel depth : Nat} {cs rest : List Char} {vs : List Setting}

theorem ReadsTidy.value_succ (ih : ReadsTidy source fuel) (hs : source ≠ .document)
    (h : value? source (fuel + 1) depth cs = some (v, rest)) : Tidy v := by
  unfold value? at h
  split at h
  · cases h
  · obtain ⟨⟨s, r⟩, -, heq⟩ := Option.map_eq_some_iff.1 h
    cases heq
    exact .text _ _
  · obtain ⟨⟨s, r⟩, -, heq⟩ := Option.map_eq_some_iff.1 h
    cases heq
    exact .text _ _
  · split at h
    · cases h
    · obtain ⟨⟨vs, r⟩, hi, heq⟩ := Option.map_eq_some_iff.1 h
      cases heq
      exact .list hs (ih.items _ _ _ _ hi)
  · split at h
    · cases h
    · split at h
      · cases h
        exact .table .nil fun _ hm => absurd hm List.not_mem_nil
      · obtain ⟨⟨es, r⟩, hm, heq⟩ := Option.map_eq_some_iff.1 h
        cases heq
        exact (ih.members _ _ _ _ _ hm hold_nil).tidy hs
  · cases h
    exact .flag _ _
  · cases h
    exact .flag _ _
  · split at h
    · exact tidy_numeral? h
    · cases h

theorem ReadsTidy.items_succ (ih : ReadsTidy source fuel)
    (h : items? source (fuel + 1) depth cs = some (vs, rest)) : ∀ v ∈ vs, Tidy v := by
  unfold items? at h
  split at h
  · cases h
    exact fun _ hm => absurd hm List.not_mem_nil
  · split at h
    · cases h
    · next v rest' hv =>
      have htidy := ih.value _ _ _ _ hv
      split at h
      · cases h
        exact List.forall_mem_singleton.2 htidy
      · obtain ⟨⟨vs', r⟩, hi, heq⟩ := Option.map_eq_some_iff.1 h
        cases heq
        exact List.forall_mem_cons.2 ⟨htidy, ih.items _ _ _ _ hi⟩
      · cases h

theorem ReadsTidy.members_succ (ih : ReadsTidy source fuel)
    (h : members? source (fuel + 1) depth es cs = some (es', rest)) (hes : es.Hold Tidy) :
    es'.Hold Tidy := by
  unfold members? at h
  split at h
  · cases h
  · split at h
    · split at h
      · cases h
      · next v rest' hv =>
        split at h
        · cases h
        · next es'' hadd =>
          have hes'' := hold_addValue hes (ih.value _ _ _ _ hv) hadd
          split at h
          · cases h
            exact hes''
          · exact ih.members _ _ _ _ _ h hes''
          · cases h
    · cases h

theorem readsTidy (hs : source ≠ .document) (fuel : Nat) : ReadsTidy source fuel := by
  induction fuel with
  | zero =>
    constructor
    · rintro depth cs v rest ⟨⟩
    · rintro depth cs vs rest ⟨⟩
    · rintro depth es cs es' rest ⟨⟩
  | succ fuel ih =>
    exact ⟨fun _ _ _ _ h => ih.value_succ hs h, fun _ _ _ _ h => ih.items_succ h,
      fun _ _ _ _ _ h => ih.members_succ h⟩

theorem hold_statement? (hs : source ≠ .document) {p p' : Progress}
    (h : Entries.Hold Tidy p.entries) (hr : statement? source p cs = some (p', rest)) :
    Entries.Hold Tidy p'.entries := by
  unfold statement? at hr
  split at hr
  · obtain ⟨⟨path, r⟩, -, hr⟩ := Option.bind_eq_some_iff.1 hr
    dsimp only at hr
    split at hr
    · obtain ⟨es, he, hr⟩ := Option.bind_eq_some_iff.1 hr
      cases hr
      exact hold_openItem h he
    · cases hr
  · obtain ⟨⟨path, r⟩, -, hr⟩ := Option.bind_eq_some_iff.1 hr
    obtain ⟨r', -, hr⟩ := Option.bind_eq_some_iff.1 hr
    obtain ⟨es, he, hr⟩ := Option.bind_eq_some_iff.1 hr
    cases hr
    exact hold_openTable h he
  · obtain ⟨⟨key, r⟩, -, hr⟩ := Option.bind_eq_some_iff.1 hr
    obtain ⟨r', -, hr⟩ := Option.bind_eq_some_iff.1 hr
    obtain ⟨⟨v, r''⟩, hv, hr⟩ := Option.bind_eq_some_iff.1 hr
    obtain ⟨es, he, hr⟩ := Option.bind_eq_some_iff.1 hr
    cases hr
    exact hold_addBelow h ((readsTidy hs _).value _ _ _ _ hv) he

theorem hold_lines? (hs : source ≠ .document) {p : Progress} (h : Entries.Hold Tidy p.entries)
    (hr : lines? source fuel p cs = some es) : es.Hold Tidy := by
  induction fuel generalizing p cs with
  | zero => cases hr
  | succ fuel ih =>
    unfold lines? at hr
    split at hr
    · cases hr
      exact h
    · obtain ⟨⟨p', r⟩, hstatement, hr⟩ := Option.bind_eq_some_iff.1 hr
      obtain ⟨r', -, hr⟩ := Option.bind_eq_some_iff.1 hr
      exact ih (hold_statement? hs h hstatement) hr

/-- The settings of a file are a tidy table. -/
theorem tidy_parse? (hs : source ≠ .document) {s : String} (h : parse? source s = some v) :
    Tidy v ∧ ∃ es, v = .table source es := by
  obtain ⟨es, hes, rfl⟩ := Option.map_eq_some_iff.1 h
  exact ⟨(hold_lines? hs hold_nil hes).tidy hs, _, rfl⟩

end Toml

namespace Environment

theorem tidy_bare (cs : List Char) : Tidy (bare cs) := by
  simp only [bare]
  split
  · exact .number _ _
  · split
    · exact .number _ _
    · split
      · exact .number _ _
      · exact .text _ _

/-- What is read with that much fuel is tidy. Values, items and entries are read by one recursion,
as those of files are. -/
structure ReadsTidy (fuel : Nat) : Prop where
  value : ∀ cs v rest, value? fuel cs = some (v, rest) → Tidy v
  items : ∀ cs vs rest, items? fuel cs = some (vs, rest) → ∀ v ∈ vs, Tidy v
  entries : ∀ cs es rest, entries? fuel cs = some (es, rest) → ∀ x ∈ es, Tidy x.2

variable {fuel : Nat} {cs rest : List Char} {v : Setting} {vs : List Setting}
  {es : List (String × Setting)}

theorem ReadsTidy.value_succ (ih : ReadsTidy fuel) (h : value? (fuel + 1) cs = some (v, rest)) :
    Tidy v := by
  unfold value? at h
  split at h
  · cases h
    exact .flag _ _
  · cases h
    exact .flag _ _
  · obtain ⟨⟨es, r⟩, he, heq⟩ := Option.map_eq_some_iff.1 h
    cases heq
    exact Setting.tidy_sorted _ (ih.entries _ _ _ he)
  · obtain ⟨⟨vs, r⟩, hi, heq⟩ := Option.map_eq_some_iff.1 h
    cases heq
    exact .list (by rintro ⟨⟩) (ih.items _ _ _ hi)
  · obtain ⟨⟨s, r⟩, -, heq⟩ := Option.map_eq_some_iff.1 h
    cases heq
    exact .text _ _
  · split at h
    · cases h
      exact .text _ _
    · cases h
  · cases h
    exact tidy_bare _

theorem ReadsTidy.items_succ (ih : ReadsTidy fuel)
    (h : items? (fuel + 1) cs = some (vs, rest)) : ∀ v ∈ vs, Tidy v := by
  unfold items? at h
  split at h
  · cases h
    exact fun _ hm => absurd hm List.not_mem_nil
  · split at h
    · cases h
    · next v rest' hv =>
      have htidy := ih.value _ _ _ hv
      split at h
      · obtain ⟨⟨vs', r⟩, hi, heq⟩ := Option.map_eq_some_iff.1 h
        cases heq
        exact List.forall_mem_cons.2 ⟨htidy, ih.items _ _ _ hi⟩
      · cases h
        exact List.forall_mem_singleton.2 htidy
      · cases h

theorem ReadsTidy.entries_succ (ih : ReadsTidy fuel)
    (h : entries? (fuel + 1) cs = some (es, rest)) : ∀ x ∈ es, Tidy x.2 := by
  unfold entries? at h
  split at h
  · cases h
    exact fun _ hm => absurd hm List.not_mem_nil
  · split at h
    · cases h
    · split at h
      · split at h
        · cases h
        · next v rest' hv =>
          have htidy := ih.value _ _ _ hv
          split at h
          · obtain ⟨⟨es', r⟩, he, heq⟩ := Option.map_eq_some_iff.1 h
            cases heq
            exact List.forall_mem_cons.2 ⟨htidy, ih.entries _ _ _ he⟩
          · cases h
            exact List.forall_mem_singleton.2 htidy
          · cases h
      · cases h

theorem readsTidy (fuel : Nat) : ReadsTidy fuel := by
  induction fuel with
  | zero =>
    constructor
    · rintro cs v rest ⟨⟩
    · rintro cs vs rest ⟨⟩
    · rintro cs es rest ⟨⟩
  | succ fuel ih =>
    exact ⟨fun _ _ _ h => ih.value_succ h, fun _ _ _ h => ih.items_succ h,
      fun _ _ _ h => ih.entries_succ h⟩

/-- The value of a variable is tidy. -/
theorem tidy_parse (s : String) : Tidy (parse s) := by
  simp only [parse]
  split
  · next v h => exact (readsTidy _).value _ _ _ h
  · exact .text _ _

end Environment

end SecretStore.Config
