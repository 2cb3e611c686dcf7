import Mathlib.Data.List.Nodup
import SecretStore.Proofs.Json.Members

/-!
# Records by their members

A record is filled member by member, but what comes out can be told of each of its fields alone: of
the texts that stand under its name. Members in another order and members with other names make no
difference then.

* `member`: what a reader takes from the texts under one name, of which there is at most one.
* `Whole.ofMembers_eq_some_iff`: a record is read exactly if each of its parts is.
* `Whole.ofMembers_congr`, `Whole.ofMembers_cons`, `Whole.ofMembers_missing`: what a record needs to
  know of its members, and the members that it may go without or not.
-/

namespace SecretStore.Json

variable {α β σ : Type} {r : Reader α} {d : Bytes} {name : String}
variable {ms ms' : List (String × Bytes)}

/-! ### Members of one name -/

/-- The texts under a name. -/
def values (ms : List (String × Bytes)) (name : String) : List Bytes :=
  (ms.filter (·.1 == name)).map (·.2)

@[simp] theorem values_cons_self (name : String) (d : Bytes) (ms : List (String × Bytes)) :
    values ((name, d) :: ms) name = d :: values ms name := by
  simp [values]

@[simp] theorem values_cons_of_ne {n : String} (h : n ≠ name) (d : Bytes)
    (ms : List (String × Bytes)) : values ((n, d) :: ms) name = values ms name := by
  simp [values, h]

theorem values_eq_nil_iff : values ms name = [] ↔ name ∉ ms.map Prod.fst := by
  simp only [values, List.map_eq_nil_iff, List.filter_eq_nil_iff, beq_iff_eq, List.mem_map,
    not_exists, not_and]

theorem mem_values_iff : d ∈ values ms name ↔ (name, d) ∈ ms := by
  simp [values]

/-- A field that holds `o` after the texts under its name: the first one fills it, and another one
is a repetition. -/
def once (r : Reader α) : Option α → List Bytes → Option (Option α)
  | o, [] => some o
  | some _, _ :: _ => none
  | none, d :: ds => (taken r d).bind fun a => once r (some a) ds

/-- What a reader takes from the text under a name: nothing if there is none, and it fails if there
are two. -/
def member (r : Reader α) (ms : List (String × Bytes)) (name : String) : Option (Option α) :=
  once r none (values ms name)

theorem once_some_eq {a : α} {ds : List Bytes} {o : Option α} :
    once r (some a) ds = some o ↔ ds = [] ∧ o = some a := by
  cases ds with
  | nil => simp [once, eq_comm]
  | cons d ds => simp [once]

theorem member_of_absent (h : name ∉ ms.map Prod.fst) : member r ms name = some none := by
  rw [member, values_eq_nil_iff.2 h, once]

/-- What is taken is taken from the only text under the name. -/
theorem member_eq_some_some_iff {a : α} :
    member r ms name = some (some a) ↔ ∃ d, values ms name = [d] ∧ taken r d = some a := by
  rw [member]
  cases values ms name with
  | nil => simp [once]
  | cons d ds =>
    simp only [once, Option.bind_eq_some_iff, once_some_eq]
    constructor
    · rintro ⟨a', ht, rfl, ⟨⟩⟩
      exact ⟨d, rfl, ht⟩
    · rintro ⟨d', ⟨⟩, ht⟩
      exact ⟨a, ht, rfl, rfl⟩

theorem member_eq_some_none_iff : member r ms name = some none ↔ name ∉ ms.map Prod.fst := by
  rw [← values_eq_nil_iff, member]
  cases values ms name with
  | nil => simp [once]
  | cons d ds => simp [once, Option.bind_eq_some_iff, once_some_eq]

/-- The order of the texts under a name does not matter, as there is only one or reading fails. -/
theorem once_perm {ds ds' : List Bytes} (h : ds.Perm ds') : once r none ds = once r none ds' := by
  match ds, ds', h with
  | [], ds', h => rw [h.nil_eq]
  | [d], ds', h => rw [List.singleton_perm.1 h]
  | d :: e :: ds, [], h => exact absurd h.length_eq (by simp)
  | d :: e :: ds, [d'], h => exact absurd h.length_eq (by simp)
  | d :: e :: ds, d' :: e' :: ds', h =>
    simp [once]

/-- One text may stand for another one that gives the same. -/
theorem once_congr {f : α → β} {e e' : Bytes} (h : (taken r e).map f = (taken r e').map f)
    (ds ds' : List Bytes) :
    (once r none (ds ++ e :: ds')).map (Option.map f) =
      (once r none (ds ++ e' :: ds')).map (Option.map f) := by
  have hfirst (d : Bytes) : once r none (ds ++ d :: ds') = once r none (d :: (ds ++ ds')) :=
    once_perm List.perm_middle
  rw [hfirst, hfirst]
  cases ds ++ ds' with
  | nil =>
    simp only [once]
    cases he : taken r e <;> cases he' : taken r e' <;> simp [he, he'] at h ⊢
    exact h
  | cons d ds => simp [once]

theorem values_append (name : String) (d : Bytes) (before after : List (String × Bytes)) :
    values (before ++ (name, d) :: after) name = values before name ++ d :: values after name := by
  simp [values]

theorem member_perm (h : ms.Perm ms') : member r ms name = member r ms' name :=
  once_perm ((h.filter _).map _)

/-- Members with other names make no difference. -/
theorem member_filter {p : String × Bytes → Bool} (h : ∀ d, p (name, d) = true) :
    member r (ms.filter p) name = member r ms name := by
  have hvalues : (ms.filter p).filter (·.1 == name) = ms.filter (·.1 == name) := by
    rw [List.filter_filter]
    refine List.filter_congr fun m hm => ?_
    by_cases hname : m.1 = name
    · subst hname
      simp [h m.2]
    · simp [hname]
  rw [member, member, values, values, hvalues]

/-! ### Parts -/

/-- A field of a record with the value that it fills. -/
structure Part (σ : Type) where
  {β : Type}
  name : String
  optional : Bool
  read : Reader β
  get : σ → Option β
  put : β → σ → σ

/-- The field of a part. -/
def Part.field (p : Part σ) : Field σ where
  name := p.name
  isSet s := (p.get s).isSome
  optional := p.optional
  read s bs := (p.read bs).map fun (b, rest) => (p.put b s, rest)

/-- Parts that make up a record: they have different names, each is changed by its own field only,
and together they are all of the record, of which nothing has been read at first. -/
structure Whole (parts : List (Part σ)) (shape : Shape σ α) : Prop where
  fields : shape.fields = parts.map Part.field
  names : (parts.map (·.name)).Nodup
  exact : ∀ p ∈ parts, Exact p.read
  own : ∀ p ∈ parts, ∀ b s, p.get (p.put b s) = some b
  other : ∀ p ∈ parts, ∀ q ∈ parts, p.name ≠ q.name → ∀ b s, p.get (q.put b s) = p.get s
  ext : ∀ s s', (∀ p ∈ parts, p.get s = p.get s') → s = s'
  empty : ∀ p ∈ parts, p.get shape.empty = none

variable {parts : List (Part σ)} {shape : Shape σ α} {s s' : σ}

theorem Whole.exact_field (hw : Whole parts shape) :
    ∀ f ∈ shape.fields, ∀ s, Exact (f.read s) := by
  rw [hw.fields]
  intro f hf s
  obtain ⟨p, hp, rfl⟩ := List.mem_map.1 hf
  exact (hw.exact p hp).map fun b => p.put b s

theorem Whole.exact_reader (hw : Whole parts shape) : Exact shape.reader :=
  shape.exact hw.exact_field

theorem fillOne_of_not_mem (h : ∀ p ∈ parts, p.name ≠ name) :
    fillOne (parts.map Part.field) s (name, d) = some s := by
  have hnone : (parts.map Part.field).find? (·.name == name) = none := by
    rw [List.find?_eq_none]
    intro f hf he
    obtain ⟨p, hp, rfl⟩ := List.mem_map.1 hf
    exact h p hp (beq_iff_eq.1 he)
  rw [fillOne, hnone]

theorem Whole.find_part (hw : Whole parts shape) {p : Part σ} (hp : p ∈ parts) :
    (parts.map Part.field).find? (·.name == p.name) = some p.field := by
  obtain ⟨q, hq⟩ : ∃ q, parts.find? (·.name == p.name) = some q := by
    rw [← Option.isSome_iff_exists, List.find?_isSome]
    exact ⟨p, hp, beq_self_eq_true _⟩
  have hname : q.name = p.name := by simpa using List.find?_some hq
  obtain rfl := List.inj_on_of_nodup_map hw.names (List.mem_of_find?_eq_some hq) hp hname
  rw [List.find?_map]
  exact congrArg _ hq

theorem Whole.fillOne_part (hw : Whole parts shape) {p : Part σ} (hp : p ∈ parts) :
    fillOne (parts.map Part.field) s (p.name, d) =
      if (p.get s).isSome then none else (taken p.read d).map fun b => p.put b s := by
  rw [fillOne, hw.find_part hp]
  simp only [Part.field, taken_map p.read fun b => p.put b s]

theorem fillInOrder_part (p : Part σ) (fields : List (Field σ)) (s : σ) (d : Bytes)
    (ds : List Bytes) :
    fillInOrder (p.field :: fields) s (d :: ds) =
      (taken p.read d).bind fun b => fillInOrder fields (p.put b s) ds := by
  rw [fillInOrder]
  simp only [Part.field, taken_map p.read fun b => p.put b s]
  cases taken p.read d <;> rfl

/-- What a part holds after some members. -/
def Part.after (p : Part σ) (s : σ) (ms : List (String × Bytes)) : Option (Option p.β) :=
  once p.read (p.get s) (values ms p.name)

theorem Whole.after_cons_self (hw : Whole parts shape) {p : Part σ} (hp : p ∈ parts) :
    p.after s ((p.name, d) :: ms) =
      if (p.get s).isSome then none else
        (taken p.read d).bind fun b => p.after (p.put b s) ms := by
  simp only [Part.after, values_cons_self, hw.own p hp]
  cases p.get s <;> rfl

theorem Whole.after_cons_of_ne (hw : Whole parts shape) {p q : Part σ} (hp : p ∈ parts)
    (hq : q ∈ parts) (hne : p.name ≠ q.name) (b : q.β) :
    p.after s ((q.name, d) :: ms) = p.after (q.put b s) ms := by
  rw [Part.after, values_cons_of_ne hne.symm, Part.after, hw.other p hp q hq hne]

/-- The members of an object fill a record exactly if each part holds what stands under its
name. -/
theorem Whole.fill_eq_some_iff (hw : Whole parts shape) :
    fill shape.fields s ms = some s' ↔ ∀ p ∈ parts, p.after s ms = some (p.get s') := by
  rw [hw.fields]
  induction ms generalizing s with
  | nil =>
    constructor
    · rintro ⟨⟩ p hp
      rfl
    · intro h
      have heq : s = s' := hw.ext s s' fun p hp => Option.some.inj (h p hp)
      rw [heq]
      rfl
  | cons m ms ih =>
    obtain ⟨name, d⟩ := m
    have hstep : fill (parts.map Part.field) s ((name, d) :: ms) =
        (fillOne (parts.map Part.field) s (name, d)).bind
          fun s => fill (parts.map Part.field) s ms := rfl
    by_cases hmem : ∃ q ∈ parts, q.name = name
    · obtain ⟨q, hq, rfl⟩ := hmem
      rw [hstep, hw.fillOne_part hq]
      by_cases hset : (q.get s).isSome = true
      · rw [if_pos hset]
        refine iff_of_false nofun fun h => ?_
        have hself := h q hq
        rw [hw.after_cons_self hq, if_pos hset] at hself
        cases hself
      · rw [if_neg hset]
        cases ht : taken q.read d with
        | none =>
          refine iff_of_false nofun fun h => ?_
          have hself := h q hq
          rw [hw.after_cons_self hq, if_neg hset, ht] at hself
          cases hself
        | some b =>
          rw [Option.map_some, Option.bind_some, ih]
          refine forall₂_congr fun p hp => ?_
          by_cases hpq : p.name = q.name
          · obtain rfl := List.inj_on_of_nodup_map hw.names hp hq hpq
            rw [hw.after_cons_self hq, if_neg hset, ht, Option.bind_some]
          · rw [hw.after_cons_of_ne hp hq hpq b]
    · have hne : ∀ q ∈ parts, q.name ≠ name := fun q hq he => hmem ⟨q, hq, he⟩
      rw [hstep, fillOne_of_not_mem hne, Option.bind_some, ih]
      refine forall₂_congr fun p hp => ?_
      rw [Part.after, Part.after, values_cons_of_ne (hne p hp).symm]

theorem Whole.fill_empty_eq_some_iff (hw : Whole parts shape) :
    fill shape.fields shape.empty ms = some s' ↔
      ∀ p ∈ parts, member p.read ms p.name = some (p.get s') := by
  rw [hw.fill_eq_some_iff]
  refine forall₂_congr fun p hp => ?_
  rw [Part.after, hw.empty p hp, member]

/-- After some members a part is still empty exactly if none of them has its name. -/
theorem Whole.get_eq_none_iff (hw : Whole parts shape)
    (h : fill shape.fields shape.empty ms = some s) {p : Part σ} (hp : p ∈ parts) :
    p.get s = none ↔ p.name ∉ ms.map Prod.fst := by
  rw [← member_eq_some_none_iff (r := p.read), hw.fill_empty_eq_some_iff.1 h p hp,
    Option.some.injEq]

/-- A record is read exactly if each of its parts is. -/
theorem Whole.ofMembers_eq_some_iff (hw : Whole parts shape) {a : α} :
    shape.ofMembers ms = some a ↔
      ∃ s, (∀ p ∈ parts, member p.read ms p.name = some (p.get s)) ∧ shape.finish s = .ok a := by
  simp only [Shape.ofMembers, Option.bind_eq_some_iff, hw.fill_empty_eq_some_iff,
    toOption_eq_some_iff]

/-- A record depends on what stands under the names of its parts. -/
theorem Whole.ofMembers_congr (hw : Whole parts shape)
    (h : ∀ p ∈ parts, member p.read ms p.name = member p.read ms' p.name) :
    shape.ofMembers ms = shape.ofMembers ms' := by
  refine Option.ext fun a => ?_
  rw [hw.ofMembers_eq_some_iff, hw.ofMembers_eq_some_iff]
  refine exists_congr fun s => and_congr_left fun _ => forall₂_congr fun p hp => ?_
  rw [h p hp]

/-- A member that gives a part what the record takes without it. -/
theorem Whole.ofMembers_cons (hw : Whole parts shape) {p : Part σ} (hp : p ∈ parts)
    (habsent : p.name ∉ ms.map Prod.fst) {b : p.β} (hb : taken p.read d = some b)
    (hdefault : ∀ s, p.get s = none → shape.finish (p.put b s) = shape.finish s) :
    shape.ofMembers ((p.name, d) :: ms) = shape.ofMembers ms := by
  have hlast : shape.ofMembers ((p.name, d) :: ms) = shape.ofMembers (ms ++ [(p.name, d)]) :=
    hw.ofMembers_congr fun q _ => member_perm (List.perm_append_singleton (p.name, d) ms).symm
  rw [hlast, Shape.ofMembers, Shape.ofMembers, fill, List.foldlM_append, ← fill]
  cases hfill : fill shape.fields shape.empty ms with
  | none => rfl
  | some s =>
    have hnone : p.get s = none := by
      have hmember := hw.fill_empty_eq_some_iff.1 hfill p hp
      rw [member_of_absent habsent] at hmember
      exact (Option.some.inj hmember).symm
    have hone : fillOne shape.fields s (p.name, d) = some (p.put b s) := by
      rw [hw.fields, hw.fillOne_part hp, hnone, hb]
      rfl
    have hstep : [(p.name, d)].foldlM (fillOne shape.fields) s = some (p.put b s) := by
      rw [List.foldlM_cons, hone]
      rfl
    show (([(p.name, d)].foldlM (fillOne shape.fields) s).bind _) = _
    rw [hstep, Option.bind_some, Option.bind_some, hdefault s hnone]

/-- Without a part that it requires no record is read. -/
theorem Whole.ofMembers_missing (hw : Whole parts shape) {p : Part σ} (hp : p ∈ parts)
    (habsent : p.name ∉ ms.map Prod.fst)
    (hrequired : ∀ s a, p.get s = none → shape.finish s ≠ .ok a) : shape.ofMembers ms = none := by
  rw [Option.eq_none_iff_forall_ne_some]
  intro a ha
  obtain ⟨s, hs, hfinish⟩ := hw.ofMembers_eq_some_iff.1 ha
  have hmember := hs p hp
  rw [member_of_absent habsent] at hmember
  exact hrequired s a (Option.some.inj hmember).symm hfinish

/-! ### What the members of an object give -/

/-- There is one member of that name, and its text is one of `b`. -/
def Given (P : β → Bytes → Prop) (ms : List (String × Bytes)) (name : String) (b : β) : Prop :=
  ∃ d, values ms name = [d] ∧ P b d

/-- The same, or there is no member of that name and `b` is the default. -/
def GivenOr (P : β → Bytes → Prop) (default : β) (ms : List (String × Bytes)) (name : String)
    (b : β) : Prop :=
  name ∉ ms.map Prod.fst ∧ b = default ∨ Given P ms name b

section Given

variable {P : β → Bytes → Prop} {r : Reader β} {b default : β}

theorem Given.text (h : Given P ms name b) (hm : (name, d) ∈ ms) : P b d := by
  obtain ⟨d', hvalues, hd⟩ := h
  have hmem := mem_values_iff.2 hm
  rw [hvalues, List.mem_singleton] at hmem
  exact hmem ▸ hd

theorem GivenOr.text (h : GivenOr P default ms name b) (hm : (name, d) ∈ ms) : P b d := by
  rcases h with ⟨habsent, -⟩ | h
  · exact absurd (List.mem_map_of_mem hm) habsent
  · exact h.text hm

theorem Spells.given_iff (h : Spells r P) (hd : ∀ m ∈ ms, WellFormed m.2) :
    member r ms name = some (some b) ↔ Given P ms name b := by
  rw [member_eq_some_some_iff]
  refine exists_congr fun d => and_congr_right fun hvalues => h.taken_iff ?_
  have hmem : (name, d) ∈ ms := mem_values_iff.1 (hvalues ▸ List.mem_singleton_self d)
  exact hd _ hmem

theorem Spells.givenOr_iff (h : Spells r P) (hd : ∀ m ∈ ms, WellFormed m.2) :
    (∃ o, member r ms name = some o ∧ o.getD default = b) ↔ GivenOr P default ms name b := by
  constructor
  · rintro ⟨o, ho, rfl⟩
    cases o with
    | none => exact .inl ⟨member_eq_some_none_iff.1 ho, rfl⟩
    | some b => exact .inr ((h.given_iff hd).1 ho)
  · rintro (⟨habsent, rfl⟩ | hgiven)
    · exact ⟨none, member_of_absent habsent, rfl⟩
    · exact ⟨some b, (h.given_iff hd).2 hgiven, rfl⟩

end Given

end SecretStore.Json
