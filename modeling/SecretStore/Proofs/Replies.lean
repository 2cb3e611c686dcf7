import SecretStore.InitMaterial
import SecretStore.MountTable
import SecretStore.Proofs.Config.Defaults
import SecretStore.Proofs.Json.Parts
import SecretStore.Request
import SecretStore.SealStatus

/-!
# Replies by their documented members

Three replies of the store are records: the material of an initialization, the seal status and the
listing of mounts. `Alike` relates texts of objects that differ in the order of their members, in
members that are not documented and in members that give a default, and `Format` says what holds of
a format: what its replies are decoded as, which of them are decoded alike, which members they
cannot go without and how a failure is reported.

* `Whole.format`: a record that is made up of its parts is a format.
* `Told`, for each of the three: what the members of a reply say.
* `replies_decode_by_documented_members`: the three formats, and what a listing and a seal status
  are refused for.
-/

namespace SecretStore

namespace Json

variable {α σ : Type} {d d' e : Bytes}

/-! ### Texts that say the same -/

/-- Texts of objects that say the same about the members of some names, of which those with a
default may be left out: members are in another order or have other names, or one is left out that
gives the default. -/
inductive Alike (names : List String) (defaults : List (String × Value)) : Bytes → Bytes → Prop
  | refl {d : Bytes} (h : WellFormed d) : Alike names defaults d d
  | symm {d d' : Bytes} (h : Alike names defaults d d') : Alike names defaults d' d
  | trans {d d' d'' : Bytes} (h : Alike names defaults d d') (h' : Alike names defaults d' d'') :
      Alike names defaults d d''
  | arranged {ms ms' : List (String × Bytes)} {d d' : Bytes} (h : ObjectText ms d)
      (h' : ObjectText ms' d')
      (hp : (ms.filter (·.1 ∈ names)).Perm (ms'.filter (·.1 ∈ names))) :
      Alike names defaults d d'
  | left_out {ms : List (String × Bytes)} {name : String} {v : Value} {e d d' : Bytes}
      (hv : (name, v) ∈ defaults) (habsent : name ∉ ms.map Prod.fst)
      (he : Written (.value v) e) (h : ObjectText ms d) (h' : ObjectText ((name, e) :: ms) d') :
      Alike names defaults d d'

theorem Alike.wellFormed {names : List String} {defaults : List (String × Value)}
    (h : Alike names defaults d d') : WellFormed d ∧ WellFormed d' := by
  induction h with
  | refl h => exact ⟨h, h⟩
  | symm _ ih => exact ih.symm
  | trans _ _ ih ih' => exact ⟨ih.1, ih'.2⟩
  | arranged h h' _ => exact ⟨h.wellFormed, h'.wellFormed⟩
  | left_out _ _ _ h h' => exact ⟨h.wellFormed, h'.wellFormed⟩

/-- What a record takes without a part: `v` is the document that says so. -/
structure Part.Default (p : Part σ) (shape : Shape σ α) (v : Value) (b : p.β) : Prop where
  taken : ∀ e, Written (.value v) e → taken p.read e = some b
  finish : ∀ s, p.get s = none → shape.finish (p.put b s) = shape.finish s

variable {parts : List (Part σ)} {shape : Shape σ α} {names : List String}
variable {defaults : List (String × Value)}

/-- Texts that say the same are taken for the same record, or neither is. -/
theorem Alike.taken_eq (hw : Whole parts shape) (hnames : ∀ p ∈ parts, p.name ∈ names)
    (hdefaults : ∀ m ∈ defaults, ∃ p ∈ parts, p.name = m.1 ∧ ∃ b, p.Default shape m.2 b)
    (h : Alike names defaults d d') : taken shape.reader d = taken shape.reader d' := by
  induction h with
  | refl => rfl
  | symm _ ih => exact ih.symm
  | trans _ _ ih ih' => exact ih.trans ih'
  | @arranged ms ms' d d' h h' hp =>
    rw [(h.yields hw.exact_field).taken_eq, (h'.yields hw.exact_field).taken_eq]
    refine hw.ofMembers_congr fun p hpart => ?_
    have hin (d : Bytes) : decide ((p.name, d).1 ∈ names) = true :=
      decide_eq_true (hnames p hpart)
    have hfilter (ms : List (String × Bytes)) :
        member p.read ms p.name = member p.read (ms.filter (·.1 ∈ names)) p.name :=
      (member_filter hin).symm
    rw [hfilter ms, hfilter ms']
    exact member_perm hp
  | @left_out ms name v e d d' hv habsent he h h' =>
    obtain ⟨p, hpart, rfl, b, hb⟩ := hdefaults _ hv
    rw [(h.yields hw.exact_field).taken_eq, (h'.yields hw.exact_field).taken_eq]
    exact (hw.ofMembers_cons hpart habsent (hb.taken e he) hb.finish).symm

end Json

open Json

/-! ### Replies -/

/-- A body that carries the text of a value, with blanks around it. -/
def Carries (body d : Bytes) : Prop :=
  ∃ ws ws', Blank ws ∧ Blank ws' ∧ body = ws ++ (d ++ ws')

variable {α σ : Type} {d d' : Bytes} {ms : List (String × Bytes)} {x x' : Exchange}

theorem Carries.decode {r : Reader α} (h : Carries x.body d) (hr : Exact r) (hd : WellFormed d) :
    (x.decode r).toOption = taken r d := by
  obtain ⟨ws, ws', hw, hw', hbody⟩ := h
  have hwhole := hr.whole hd hw hw'
  rw [← hbody] at hwhole
  rw [Exchange.decode, ← hwhole]
  cases whole r x.body <;> rfl

/-- A failure of decoding names the operation and the status of the exchange. -/
theorem Exchange.decode_error {r : Reader α} {e : ClientError} (h : x.decode r = .error e) :
    ∃ m, e = .decode x.operation x.status m := by
  rw [Exchange.decode] at h
  split at h
  · cases h
  · next e' he =>
    cases h
    exact ⟨e'.message, rfl⟩

/-- Nothing is decoded, which is reported with the operation and status of the exchange. -/
def Exchange.Refused (r : Reader α) (x : Exchange) : Prop :=
  ∃ m, x.decode r = .error (.decode x.operation x.status m)

theorem Exchange.refused_of_none {r : Reader α} (h : (x.decode r).toOption = none) :
    x.Refused r := by
  obtain ⟨e, he⟩ := toOption_eq_none_iff.1 h
  obtain ⟨m, rfl⟩ := decode_error he
  exact ⟨m, he⟩

/-- Replies of one format: what their members tell, which texts say the same, and which members
are required. -/
structure Format (shape : Shape σ α) (told : List (String × Bytes) → α → Prop)
    (alike : Bytes → Bytes → Prop) (required : List String) : Prop where
  /-- A reply is decoded exactly if its members tell something, and as that. -/
  decoded : ∀ ⦃x : Exchange⦄ ⦃ms : List (String × Bytes)⦄ ⦃d : Bytes⦄, Carries x.body d →
    ObjectText ms d → ∀ a, x.decode shape.reader = .ok a ↔ told ms a
  /-- Replies that say the same are decoded as the same, or neither is. -/
  same : ∀ ⦃x x' : Exchange⦄ ⦃d d' : Bytes⦄, Carries x.body d → Carries x'.body d' →
    alike d d' → (x.decode shape.reader).toOption = (x'.decode shape.reader).toOption
  /-- Without a required member no reply is decoded. -/
  missing : ∀ ⦃x : Exchange⦄ ⦃ms : List (String × Bytes)⦄ ⦃d : Bytes⦄, Carries x.body d →
    ObjectText ms d → ∀ name ∈ required, name ∉ ms.map Prod.fst → x.Refused shape.reader
  /-- A reply that is not decoded is reported with its own operation and status. -/
  failed : ∀ ⦃x : Exchange⦄ ⦃e : ClientError⦄, x.decode shape.reader = .error e →
    ∃ m, e = .decode x.operation x.status m

section Format

variable {parts : List (Json.Part σ)} {shape : Shape σ α} {told : List (String × Bytes) → α → Prop}
variable {alike : Bytes → Bytes → Prop} {required : List String}

theorem Json.Whole.decode (hw : Whole parts shape) (h : Carries x.body d) (hd : ObjectText ms d) :
    (x.decode shape.reader).toOption = shape.ofMembers ms := by
  rw [h.decode hw.exact_reader hd.wellFormed, (hd.yields hw.exact_field).taken_eq]

/-- A format is settled by its parts. -/
theorem Json.Whole.format (hw : Whole parts shape)
    (htold : ∀ ms, (∀ m ∈ ms, WellFormed m.2) → ∀ a, shape.ofMembers ms = some a ↔ told ms a)
    (halike : ∀ d d', alike d d' → WellFormed d ∧ WellFormed d' ∧
      taken shape.reader d = taken shape.reader d')
    (hrequired : ∀ name ∈ required, ∃ p ∈ parts, p.name = name ∧
      ∀ s a, p.get s = none → shape.finish s ≠ .ok a) :
    Format shape told alike required where
  decoded x ms d hx hd a := by
    rw [← toOption_eq_some_iff, hw.decode hx hd, htold ms hd.forall]
  same x x' d d' hx hx' h := by
    obtain ⟨hd, hd', heq⟩ := halike d d' h
    rw [hx.decode hw.exact_reader hd, hx'.decode hw.exact_reader hd', heq]
  missing x ms d hx hd name hname habsent := by
    obtain ⟨p, hp, rfl, hfinish⟩ := hrequired name hname
    exact Exchange.refused_of_none
      (by rw [hw.decode hx hd, hw.ofMembers_missing hp habsent hfinish])
  failed _ _ := Exchange.decode_error

end Format

/-! ### Init material -/

namespace InitMaterial

/-- The members of the material. -/
def parts : List (Json.Part Parts) :=
  [{ name := "root_token", optional := false, read := readText, get := (·.rootToken)
     put := fun s p => { p with rootToken := some s } },
   { name := "keys", optional := true, read := readList readText, get := (·.keys)
     put := fun ks p => { p with keys := some ks } },
   { name := "keys_base64", optional := true, read := readList readText, get := (·.keysBase64)
     put := fun ks p => { p with keysBase64 := some ks } }]

theorem whole_parts : Whole parts shape where
  fields := rfl
  names := by decide
  exact := by
    simp only [parts, List.forall_mem_cons, List.not_mem_nil, false_implies, implies_true, and_true]
    exact ⟨spells_text.exact, spells_text.list.exact, spells_text.list.exact⟩
  own := by simp [parts]
  other := by simp [parts]
  ext := by
    rintro ⟨⟩ ⟨⟩ h
    simpa [parts] using h
  empty := by simp [parts, shape]

/-- What the members of a reply tell. -/
structure Told (ms : List (String × Bytes)) (m : InitMaterial) : Prop where
  rootToken : Given StringText ms "root_token" m.rootToken
  keys : GivenOr (ListText StringText) [] ms "keys" m.keys
  keysBase64 : GivenOr (ListText StringText) [] ms "keys_base64" m.keysBase64

theorem ofMembers_eq_some_iff (hd : ∀ m ∈ ms, WellFormed m.2) (m : InitMaterial) :
    shape.ofMembers ms = some m ↔ Told ms m := by
  rw [whole_parts.ofMembers_eq_some_iff]
  simp only [parts, List.forall_mem_cons, List.not_mem_nil, false_implies, implies_true, and_true]
  constructor
  · rintro ⟨⟨token, keys, keys'⟩, ⟨htoken, hkeys, hkeys'⟩, hfinish⟩
    cases token with
    | none => cases hfinish
    | some token =>
      cases hfinish
      exact ⟨(spells_text.given_iff hd).1 htoken,
        (spells_text.list.givenOr_iff hd).1 ⟨keys, hkeys, rfl⟩,
        (spells_text.list.givenOr_iff hd).1 ⟨keys', hkeys', rfl⟩⟩
  · rintro ⟨htoken, hkeys, hkeys'⟩
    obtain ⟨keys, hk, hkd⟩ := (spells_text.list.givenOr_iff hd).2 hkeys
    obtain ⟨keys', hk', hkd'⟩ := (spells_text.list.givenOr_iff hd).2 hkeys'
    refine ⟨⟨some m.rootToken, keys, keys'⟩, ⟨(spells_text.given_iff hd).2 htoken, hk, hk'⟩, ?_⟩
    show Except.ok (InitMaterial.mk _ _ _) = _
    rw [hkd, hkd']

/-- Texts of material that say the same. -/
def Alike : Bytes → Bytes → Prop :=
  Json.Alike ["root_token", "keys", "keys_base64"] [("keys", .array []), ("keys_base64", .array [])]

theorem taken_empty {e : Bytes} (h : Written (.value (.array [])) e) :
    taken (readList readText) e = some [] :=
  ((takes_texts []).yields h).taken_eq

theorem Alike.taken_eq (h : Alike d d') : taken shape.reader d = taken shape.reader d' := by
  refine Json.Alike.taken_eq whole_parts (by simp [parts]) ?_ h
  simp only [List.forall_mem_cons, List.not_mem_nil, false_implies, implies_true, and_true]
  refine ⟨⟨_, .tail _ (.head _), rfl, [], fun e => taken_empty, ?_⟩,
    ⟨_, .tail _ (.tail _ (.head _)), rfl, [], fun e => taken_empty, ?_⟩⟩
  all_goals
    rintro ⟨token, keys, keys'⟩ rfl
    rfl

theorem format : Format shape Told Alike ["root_token"] := by
  refine whole_parts.format (fun _ => ofMembers_eq_some_iff) (fun d d' h => ?_) ?_
  · have hd := Json.Alike.wellFormed h
    exact ⟨hd.1, hd.2, h.taken_eq⟩
  · simp only [List.forall_mem_cons, List.not_mem_nil, false_implies, implies_true, and_true]
    refine ⟨_, .head _, rfl, ?_⟩
    rintro ⟨token, keys, keys'⟩ m rfl
    nofun

end InitMaterial

/-! ### Seal status -/

namespace SealStatus

/-- The members of a report. -/
def parts : List (Json.Part Parts) :=
  [{ name := "sealed", optional := false, read := readBool, get := (·.isSealed)
     put := fun b p => { p with isSealed := some b } },
   { name := "t", optional := true, read := readUInt32, get := (·.threshold)
     put := fun n p => { p with threshold := some n } },
   { name := "n", optional := true, read := readUInt32, get := (·.shares)
     put := fun n p => { p with shares := some n } },
   { name := "progress", optional := true, read := readUInt32, get := (·.progress)
     put := fun n p => { p with progress := some n } }]

theorem whole_parts : Whole parts shape where
  fields := rfl
  names := by decide
  exact := by
    simp only [parts, List.forall_mem_cons, List.not_mem_nil, false_implies, implies_true, and_true]
    exact ⟨spells_bool.exact, spells_uint32.exact, spells_uint32.exact, spells_uint32.exact⟩
  own := by simp [parts]
  other := by simp [parts]
  ext := by
    rintro ⟨⟩ ⟨⟩ h
    simpa [parts] using h
  empty := by simp [parts, shape]

/-- The digits of a counter. -/
def Digits (n : UInt32) (d : Bytes) : Prop := CounterText n.toNat d

/-- What the members of a reply tell. -/
structure Told (ms : List (String × Bytes)) (report : SealStatus) : Prop where
  isSealed : Given BoolText ms "sealed" report.isSealed
  threshold : GivenOr Digits 0 ms "t" report.threshold
  shares : GivenOr Digits 0 ms "n" report.shares
  progress : GivenOr Digits 0 ms "progress" report.progress

theorem ofMembers_eq_some_iff (hd : ∀ m ∈ ms, WellFormed m.2) (report : SealStatus) :
    shape.ofMembers ms = some report ↔ Told ms report := by
  have hcounter (name : String) (n : UInt32) :
      (∃ o, member readUInt32 ms name = some o ∧ o.getD 0 = n) ↔ GivenOr Digits 0 ms name n :=
    spells_uint32.givenOr_iff hd
  rw [whole_parts.ofMembers_eq_some_iff]
  simp only [parts, List.forall_mem_cons, List.not_mem_nil, false_implies, implies_true, and_true]
  constructor
  · rintro ⟨⟨isSealed, t, n, progress⟩, ⟨hsealed, ht, hn, hprogress⟩, hfinish⟩
    cases isSealed with
    | none => cases hfinish
    | some b =>
      cases hfinish
      exact ⟨(spells_bool.given_iff hd).1 hsealed, (hcounter _ _).1 ⟨t, ht, rfl⟩,
        (hcounter _ _).1 ⟨n, hn, rfl⟩, (hcounter _ _).1 ⟨progress, hprogress, rfl⟩⟩
  · rintro ⟨hsealed, ht, hn, hprogress⟩
    obtain ⟨t, ht, htd⟩ := (hcounter _ _).2 ht
    obtain ⟨n, hn, hnd⟩ := (hcounter _ _).2 hn
    obtain ⟨progress, hp, hpd⟩ := (hcounter _ _).2 hprogress
    refine ⟨⟨some report.isSealed, t, n, progress⟩,
      ⟨(spells_bool.given_iff hd).2 hsealed, ht, hn, hp⟩, ?_⟩
    show Except.ok (SealStatus.mk _ _ _ _) = _
    rw [htd, hnd, hpd]

/-- Texts of reports that say the same. -/
def Alike : Bytes → Bytes → Prop :=
  Json.Alike ["sealed", "t", "n", "progress"]
    [("t", .number (.unsigned 0)), ("n", .number (.unsigned 0)),
      ("progress", .number (.unsigned 0))]

theorem taken_zero {e : Bytes} (h : Written (.value (.number (.unsigned 0))) e) :
    taken readUInt32 e = some 0 := by
  cases h with
  | number => exact (CounterText.yields (n := 0) rfl (by decide)).taken_eq

theorem Alike.taken_eq (h : Alike d d') : taken shape.reader d = taken shape.reader d' := by
  refine Json.Alike.taken_eq whole_parts (by simp [parts]) ?_ h
  simp only [List.forall_mem_cons, List.not_mem_nil, false_implies, implies_true, and_true]
  refine ⟨⟨_, .tail _ (.head _), rfl, 0, fun e => taken_zero, ?_⟩,
    ⟨_, .tail _ (.tail _ (.head _)), rfl, 0, fun e => taken_zero, ?_⟩,
    ⟨_, .tail _ (.tail _ (.tail _ (.head _))), rfl, 0, fun e => taken_zero, ?_⟩⟩
  all_goals
    rintro ⟨isSealed, t, n, progress⟩ rfl
    rfl

theorem format : Format shape Told Alike ["sealed"] := by
  refine whole_parts.format (fun _ => ofMembers_eq_some_iff) (fun d d' h => ?_) ?_
  · have hd := Json.Alike.wellFormed h
    exact ⟨hd.1, hd.2, h.taken_eq⟩
  · simp only [List.forall_mem_cons, List.not_mem_nil, false_implies, implies_true, and_true]
    refine ⟨_, .head _, rfl, ?_⟩
    rintro ⟨isSealed, t, n, progress⟩ m rfl
    nofun

/-- A counter that is not the digits of a number of 32 bits is refused. -/
theorem decode_of_counter {name : String} {e : Bytes} (hx : Carries x.body d)
    (hd : ObjectText ms d) (hname : name ∈ ["t", "n", "progress"]) (he : (name, e) ∈ ms)
    (hcounter : ∀ n < 2 ^ 32, ¬CounterText n e) : x.Refused shape.reader := by
  refine Exchange.refused_of_none ?_
  rw [whole_parts.decode hx hd, Option.eq_none_iff_forall_ne_some]
  intro report hreport
  have htold := (ofMembers_eq_some_iff hd.forall report).1 hreport
  have hdigits (n : UInt32) (h : Digits n e) : False := hcounter n.toNat n.toNat_lt h
  simp only [List.mem_cons, List.not_mem_nil, or_false] at hname
  rcases hname with rfl | rfl | rfl
  · exact hdigits _ (htold.threshold.text he)
  · exact hdigits _ (htold.shares.text he)
  · exact hdigits _ (htold.progress.text he)

end SealStatus

/-! ### Mounts -/

namespace Mount

/-- The members of an entry. -/
def parts : List (Json.Part Parts) :=
  [{ name := "type", optional := false, read := readText, get := (·.engineType)
     put := fun s p => { p with engineType := some s } },
   { name := "description", optional := true, read := readText, get := (·.description)
     put := fun s p => { p with description := some s } }]

theorem whole_parts : Whole parts shape where
  fields := rfl
  names := by decide
  exact := by
    simp only [parts, List.forall_mem_cons, List.not_mem_nil, false_implies, implies_true, and_true]
    exact ⟨spells_text.exact, spells_text.exact⟩
  own := by simp [parts]
  other := by simp [parts]
  ext := by
    rintro ⟨⟩ ⟨⟩ h
    simpa [parts] using h
  empty := by simp [parts, shape]

/-- What the members of an entry tell. -/
structure Told (ms : List (String × Bytes)) (m : Mount) : Prop where
  engineType : Given StringText ms "type" m.engineType
  description : GivenOr StringText "" ms "description" m.description

/-- What the items of an entry tell that is written as an array. -/
inductive ToldInOrder : List Bytes → Mount → Prop
  | short {m : Mount} {d : Bytes} (h : StringText m.engineType d) (hm : m.description = "") :
      ToldInOrder [d] m
  | full {m : Mount} {d e : Bytes} (h : StringText m.engineType d)
      (h' : StringText m.description e) : ToldInOrder [d, e] m

/-- The texts of an entry. -/
inductive Text : Mount → Bytes → Prop
  | object {m : Mount} {ms : List (String × Bytes)} {d : Bytes} (h : ObjectText ms d)
      (ht : Told ms m) : Text m d
  | array {m : Mount} {ds : List Bytes} {d : Bytes} (h : ArrayText ds d) (ht : ToldInOrder ds m) :
      Text m d

theorem ofMembers_eq_some_iff (hd : ∀ m ∈ ms, WellFormed m.2) (m : Mount) :
    shape.ofMembers ms = some m ↔ Told ms m := by
  rw [whole_parts.ofMembers_eq_some_iff]
  simp only [parts, List.forall_mem_cons, List.not_mem_nil, false_implies, implies_true, and_true]
  constructor
  · rintro ⟨⟨engineType, description⟩, ⟨htype, hdescription⟩, hfinish⟩
    cases engineType with
    | none => cases hfinish
    | some t =>
      cases hfinish
      exact ⟨(spells_text.given_iff hd).1 htype,
        (spells_text.givenOr_iff hd).1 ⟨description, hdescription, rfl⟩⟩
  · rintro ⟨htype, hdescription⟩
    obtain ⟨description, he, hed⟩ := (spells_text.givenOr_iff hd).2 hdescription
    refine ⟨⟨some m.engineType, description⟩, ⟨(spells_text.given_iff hd).2 htype, he⟩, ?_⟩
    show Except.ok (Mount.mk _ _) = _
    rw [hed]

theorem ofItems_eq_some_iff {ds : List Bytes} (hd : ∀ d ∈ ds, WellFormed d) (m : Mount) :
    shape.ofItems ds = some m ↔ ToldInOrder ds m := by
  rw [Shape.ofItems, whole_parts.fields]
  match ds with
  | [] => exact iff_of_false nofun nofun
  | [d] =>
    have htext {t : String} := spells_text.taken_iff (a := t) (hd d (.head _))
    simp only [parts, List.map_cons, List.map_nil, fillInOrder_part]
    constructor
    · intro h
      cases ht : taken readText d with
      | none => simp [ht] at h
      | some t =>
        simp only [ht] at h
        cases h
        exact .short (htext.1 ht) rfl
    · rintro (⟨h, hm⟩ | -)
      rw [htext.2 h]
      show some (Mount.mk m.engineType "") = some m
      rw [← hm]
  | [d, e] =>
    have htype {t : String} := spells_text.taken_iff (a := t) (hd d (.head _))
    have htext {t : String} := spells_text.taken_iff (a := t) (hd e (.tail _ (.head _)))
    simp only [parts, List.map_cons, List.map_nil, fillInOrder_part]
    constructor
    · intro h
      cases ht : taken readText d with
      | none => simp [ht] at h
      | some t =>
        cases he : taken readText e with
        | none => simp [ht, he] at h
        | some description =>
          simp only [ht, he] at h
          cases h
          exact .full (htype.1 ht) (htext.1 he)
    · rintro (- | ⟨h, h'⟩)
      rw [htype.2 h]
      simp only [Option.bind_some, htext.2 h']
      rfl
  | d :: e :: d' :: ds =>
    refine iff_of_false (fun h => ?_) nofun
    simp only [parts, List.map_cons, List.map_nil, fillInOrder_part, fillInOrder] at h
    cases ht : taken readText d <;> simp [ht] at h

theorem spells : Json.Spells shape.reader Text where
  exact := whole_parts.exact_reader
  taken_iff d m hd := by
    have hobject {ms : List (String × Bytes)} (h : ObjectText ms d) :
        taken shape.reader d = some m ↔ Told ms m := by
      rw [(h.yields whole_parts.exact_field).taken_eq, ofMembers_eq_some_iff h.forall]
    have harray {ds : List Bytes} (h : ArrayText ds d) :
        taken shape.reader d = some m ↔ ToldInOrder ds m := by
      rw [(h.yields whole_parts.exact_field).taken_eq, ofItems_eq_some_iff h.choose_spec.2.1]
    constructor
    · intro htaken
      rcases hd.record_cases whole_parts.exact_field with ⟨ms, hms⟩ | ⟨ds, hds⟩ | hnone
      · exact .object hms ((hobject hms).1 htaken)
      · exact .array hds ((harray hds).1 htaken)
      · rw [hnone.taken_eq] at htaken
        cases htaken
    · rintro (⟨hms, ht⟩ | ⟨hds, ht⟩)
      · exact (hobject hms).2 ht
      · exact (harray hds).2 ht

/-- Texts of entries that say the same. -/
def Alike : Bytes → Bytes → Prop :=
  Json.Alike ["type", "description"] [("description", .string "")]

theorem Alike.taken_eq (h : Alike d d') : taken shape.reader d = taken shape.reader d' := by
  refine Json.Alike.taken_eq whole_parts (by simp [parts]) ?_ h
  simp only [List.forall_mem_cons, List.not_mem_nil, false_implies, implies_true, and_true]
  refine ⟨_, .tail _ (.head _), rfl, "", fun e he => ((takes_text "").yields he).taken_eq, ?_⟩
  rintro ⟨engineType, description⟩ rfl
  rfl

/-- A text that gives no type: neither an object with such a member nor an array with a first
item. -/
def Untyped (d : Bytes) : Prop :=
  (∀ ms, ObjectText ms d → "type" ∉ ms.map Prod.fst) ∧ ∀ e ds, ¬ArrayText (e :: ds) d

theorem Untyped.taken_eq (h : Untyped d) (hd : WellFormed d) : taken shape.reader d = none := by
  obtain ⟨hobject, harray⟩ := h
  rcases hd.record_cases whole_parts.exact_field with ⟨ms, hms⟩ | ⟨ds, hds⟩ | hnone
  · rw [(hms.yields whole_parts.exact_field).taken_eq]
    refine whole_parts.ofMembers_missing (.head _) (hobject ms hms) ?_
    rintro ⟨engineType, description⟩ m rfl
    nofun
  · cases ds with
    | nil =>
      rw [(hds.yields whole_parts.exact_field).taken_eq]
      rfl
    | cons e ds => exact absurd hds (harray e ds)
  · exact hnone.taken_eq

end Mount

/-! ### Listings -/

namespace MountTable

/-- The members of a listing. -/
def parts : List (Json.Part Parts) :=
  [{ name := "data", optional := true, read := readMap Mount.shape.reader, get := (·.mounts)
     put := fun ms _ => ⟨some ms⟩ }]

theorem whole_parts : Whole parts shape where
  fields := rfl
  names := by decide
  exact := by
    simp only [parts, List.forall_mem_cons, List.not_mem_nil, false_implies, implies_true, and_true]
    exact Mount.spells.map.exact
  own := by simp [parts]
  other := by simp [parts]
  ext := by
    rintro ⟨⟩ ⟨⟩ h
    simpa [parts] using h
  empty := by simp [parts, shape]

/-- What the members of a reply tell: the entries, of which the last one for a mount point holds. -/
def Told (ms : List (String × Bytes)) (t : MountTable) : Prop :=
  ∃ es, GivenOr (MapText Mount.Text) [] ms "data" es ∧ t = ⟨Value.sorted es⟩

theorem ofMembers_eq (ms : List (String × Bytes)) :
    shape.ofMembers ms = (member (readMap Mount.shape.reader) ms "data").map
      fun o => ⟨Value.sorted (o.getD [])⟩ := by
  refine Option.ext fun t => ?_
  rw [whole_parts.ofMembers_eq_some_iff, Option.map_eq_some_iff]
  simp only [parts, List.forall_mem_cons, List.not_mem_nil, false_implies, implies_true, and_true]
  constructor
  · rintro ⟨⟨o⟩, ho, ⟨⟩⟩
    exact ⟨o, ho, rfl⟩
  · rintro ⟨o, ho, rfl⟩
    exact ⟨⟨o⟩, ho, rfl⟩

theorem ofMembers_eq_some_iff (hd : ∀ m ∈ ms, WellFormed m.2) (t : MountTable) :
    shape.ofMembers ms = some t ↔ Told ms t := by
  rw [ofMembers_eq, Option.map_eq_some_iff]
  constructor
  · rintro ⟨o, ho, rfl⟩
    exact ⟨_, (Mount.spells.map.givenOr_iff hd).1 ⟨o, ho, rfl⟩, rfl⟩
  · rintro ⟨es, hes, rfl⟩
    obtain ⟨o, ho, rfl⟩ := (Mount.spells.map.givenOr_iff hd).2 hes
    exact ⟨o, ho, rfl⟩

/-- Texts of entries that say the same: each of them does, or they are in another order and for
different mount points. -/
inductive AlikeEntries : Bytes → Bytes → Prop
  | each {es es' : List (String × Bytes)} {d d' : Bytes} (h : ObjectText es d)
      (h' : ObjectText es' d')
      (heach : List.Forall₂ (fun m m' => m.1 = m'.1 ∧ (m.2 = m'.2 ∨ Mount.Alike m.2 m'.2)) es es') :
      AlikeEntries d d'
  | ordered {es es' : List (String × Bytes)} {d d' : Bytes} (h : ObjectText es d)
      (h' : ObjectText es' d') (hn : (es.map Prod.fst).Nodup) (hp : es.Perm es') :
      AlikeEntries d d'

/-- Texts of listings that say the same. -/
inductive Alike : Bytes → Bytes → Prop
  | members {d d' : Bytes} (h : Json.Alike ["data"] [("data", .object [])] d d') : Alike d d'
  | entries {before after : List (String × Bytes)} {e e' d d' : Bytes} (he : AlikeEntries e e')
      (h : ObjectText (before ++ ("data", e) :: after) d)
      (h' : ObjectText (before ++ ("data", e') :: after) d') : Alike d d'
  | trans {d d' d'' : Bytes} (h : Alike d d') (h' : Alike d' d'') : Alike d d''

theorem takenEntries_congr {es es' : List (String × Bytes)}
    (h : List.Forall₂ (fun m m' => m.1 = m'.1 ∧ (m.2 = m'.2 ∨ Mount.Alike m.2 m'.2)) es es') :
    takenEntries Mount.shape.reader es = takenEntries Mount.shape.reader es' := by
  induction h with
  | nil => rfl
  | @cons m m' es es' hm h ih =>
    obtain ⟨hname, heq | halike⟩ := hm
    · rw [takenEntries_cons, takenEntries_cons, hname, heq, ih]
    · rw [takenEntries_cons, takenEntries_cons, hname, halike.taken_eq, ih]

theorem AlikeEntries.sorted_eq {e e' : Bytes} (h : AlikeEntries e e') :
    (taken (readMap Mount.shape.reader) e).map Value.sorted =
      (taken (readMap Mount.shape.reader) e').map Value.sorted := by
  cases h with
  | each h h' heach =>
    rw [(h.yields_map Mount.spells.exact).taken_eq, (h'.yields_map Mount.spells.exact).taken_eq,
      takenEntries_congr heach]
  | ordered h h' hn hp =>
    rw [(h.yields_map Mount.spells.exact).taken_eq, (h'.yields_map Mount.spells.exact).taken_eq]
    cases has : takenEntries Mount.shape.reader _ with
    | some as =>
      obtain ⟨as', has', hperm⟩ := takenEntries_perm hp has
      have hdistinct : (as.map Prod.fst).Nodup := by rwa [map_fst_takenEntries has]
      rw [has', Option.map_some, Option.map_some, Config.sorted_perm hdistinct hperm]
    | none =>
      cases has' : takenEntries Mount.shape.reader _ with
      | none => rfl
      | some as' =>
        obtain ⟨as, hsome, -⟩ := takenEntries_perm hp.symm has'
        cases has.symm.trans hsome

theorem taken_empty {e : Bytes} (h : Written (.value (.object [])) e) :
    taken (readMap Mount.shape.reader) e = some [] := by
  cases h with
  | object h =>
    cases h with
    | noMember hw =>
      have hempty : ObjectText [] (byte '\x7b' :: _) := ⟨[], _, .nil, .nil hw, nofun, rfl⟩
      exact (hempty.yields_map Mount.spells.exact).taken_eq

theorem Alike.taken_eq (h : Alike d d') :
    WellFormed d ∧ WellFormed d' ∧ taken shape.reader d = taken shape.reader d' := by
  induction h with
  | members h =>
    refine ⟨h.wellFormed.1, h.wellFormed.2, h.taken_eq whole_parts (by simp [parts]) ?_⟩
    simp only [List.forall_mem_cons, List.not_mem_nil, false_implies, implies_true, and_true]
    refine ⟨_, .head _, rfl, [], fun e => taken_empty, ?_⟩
    rintro ⟨mounts⟩ rfl
    rfl
  | @entries before after e e' d d' he h h' =>
    refine ⟨h.wellFormed, h'.wellFormed, ?_⟩
    have hmember := once_congr he.sorted_eq (values before "data") (values after "data")
    have hget (o : Option (List (String × Mount))) :
        Value.sorted (o.getD []) = (o.map Value.sorted).getD [] := by
      cases o <;> rfl
    rw [(h.yields whole_parts.exact_field).taken_eq, (h'.yields whole_parts.exact_field).taken_eq,
      ofMembers_eq, ofMembers_eq, member, member, values_append, values_append]
    simp only [hget]
    have hmap := congrArg (Option.map fun o => MountTable.mk (o.getD [])) hmember
    rwa [Option.map_map, Option.map_map] at hmap
  | trans _ _ ih ih' => exact ⟨ih.1, ih'.2.1, ih.2.2.trans ih'.2.2⟩

theorem format : Format shape Told Alike [] :=
  whole_parts.format (fun _ => ofMembers_eq_some_iff) (fun _ _ => Alike.taken_eq) nofun

/-- A listing with an entry that gives no type is not decoded. -/
theorem decode_of_untyped {es : List (String × Bytes)} {name : String} {e f : Bytes}
    (hx : Carries x.body d) (hd : ObjectText ms d) (he : ("data", e) ∈ ms) (hes : ObjectText es e)
    (hf : (name, f) ∈ es) (huntyped : Mount.Untyped f) : x.Refused shape.reader := by
  have hnone : taken (readMap Mount.shape.reader) e = none := by
    rw [(hes.yields_map Mount.spells.exact).taken_eq]
    exact takenEntries_eq_none hf (huntyped.taken_eq (hes.forall _ hf))
  refine Exchange.refused_of_none ?_
  rw [whole_parts.decode hx hd, ofMembers_eq, Option.map_eq_none_iff,
    Option.eq_none_iff_forall_ne_some]
  rintro (- | as) hmember
  · exact absurd (List.mem_map_of_mem he) (member_eq_some_none_iff.1 hmember)
  · obtain ⟨e', hvalues, htaken⟩ := member_eq_some_some_iff.1 hmember
    have hmem := mem_values_iff.2 he
    rw [hvalues, List.mem_singleton] at hmem
    rw [← hmem, hnone] at htaken
    cases htaken

end MountTable

/-! ### All formats -/

/-- Replies are decoded by their documented members alone: for each format it is said what a reply
is decoded as and which replies are decoded alike. A listing with an entry that gives no type is
refused, and so is a report with a counter that is no number of 32 bits. -/
theorem replies_decode_by_documented_members :
    Format InitMaterial.shape InitMaterial.Told InitMaterial.Alike ["root_token"] ∧
    Format SealStatus.shape SealStatus.Told SealStatus.Alike ["sealed"] ∧
    Format MountTable.shape MountTable.Told MountTable.Alike [] ∧
    (∀ (x : Exchange) (ms es : List (String × Bytes)) (name : String) (d e f : Bytes),
      Carries x.body d → ObjectText ms d → ("data", e) ∈ ms → ObjectText es e → (name, f) ∈ es →
      Mount.Untyped f → x.Refused MountTable.shape.reader) ∧
    ∀ (x : Exchange) (ms : List (String × Bytes)) (name : String) (d e : Bytes),
      Carries x.body d → ObjectText ms d → name ∈ ["t", "n", "progress"] → (name, e) ∈ ms →
      (∀ n < 2 ^ 32, ¬CounterText n e) → x.Refused SealStatus.shape.reader := by
  refine ⟨InitMaterial.format, SealStatus.format, MountTable.format, ?_, ?_⟩
  · intro x ms es name d e f hx hd he hes hf huntyped
    exact MountTable.decode_of_untyped hx hd he hes hf huntyped
  · intro x ms name d e hx hd hname he hcounter
    exact SealStatus.decode_of_counter hx hd hname he hcounter

/-- A member that is not documented is passed over, also if its value could not be read. -/
example : Exchange.decode SealStatus.shape.reader ⟨"unseal secret store", 200,
    Bytes.ofString "\x7b\"nonce\":[1e999,\"\\ud800\"],\"t\":3,\"sealed\":true\x7d"⟩ =
      .ok ⟨true, 3, 0, 0⟩ := by
  decide +kernel

end SecretStore
