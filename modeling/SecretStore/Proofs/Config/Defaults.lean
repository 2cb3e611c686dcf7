import SecretStore.Proofs.Config.Layers

/-!
# Settings that are left out

Defaults are given twice. A field that is left out of a part of the configuration has a value of
its own, and a part that is left out altogether has one value for all of it. Both say the same.

* `Overrides`: what a decoder of records does with a table. It starts from the value of the whole
  part and replaces the fields that have an entry; this is what it comes to field by field.
* `Settings.Filled` and its companions: the record field by field, with the value that each field
  has when it is left out.
* `setEntries_append_section`: a part that is left out and an empty one are the same.
* `ofJson_eq_of_reordered`: the order of members plays no part, at any depth.
-/

namespace SecretStore.Config

open Decoder Setting
open Json (Value)

/-! ### Entries in another order -/

/-- No name stands twice. -/
def Distinct {β : Type} (es : List (String × β)) : Prop := (es.map Prod.fst).Nodup

section Entries

variable {β : Type} {es es' : List (String × β)}

theorem Distinct.perm (h : Distinct es) (hp : es.Perm es') : Distinct es' :=
  (hp.map Prod.fst).nodup_iff.1 h

theorem lookup_eq_some_iff_of_distinct (h : Distinct es) {name : String} {b : β} :
    lookup name es = some b ↔ (name, b) ∈ es := by
  refine ⟨mem_of_lookup, fun hmem => ?_⟩
  cases hl : lookup name es with
  | none =>
    rw [lookup, Option.map_eq_none_iff, List.find?_eq_none] at hl
    exact absurd (beq_self_eq_true name) (hl _ hmem)
  | some b' =>
    have heq := List.inj_on_of_nodup_map h (mem_of_lookup hl) hmem rfl
    rw [(Prod.mk.inj heq).2]

theorem lookup_perm (h : Distinct es) (hp : es.Perm es') (name : String) :
    lookup name es = lookup name es' := by
  refine Option.ext fun b => ?_
  rw [lookup_eq_some_iff_of_distinct h, lookup_eq_some_iff_of_distinct (h.perm hp), hp.mem_iff]

theorem sorted_perm (h : Distinct es) (hp : es.Perm es') : Value.sorted es = Value.sorted es' := by
  refine hp.foldl_eq' (fun x hx y hy acc => ?_) []
  by_cases hxy : x.1 = y.1
  · rw [List.inj_on_of_nodup_map h hx hy hxy]
  · exact (insert_comm hxy x.2 y.2 acc).symm

theorem lookup_sorted (h : Distinct es) (name : String) :
    lookup name (Value.sorted es) = lookup name es := by
  suffices hfold : ∀ acc, (∀ x ∈ es, ∀ y ∈ acc, x.1 ≠ y.1) →
      lookup name (es.foldl (fun acc x => Value.insert x.1 x.2 acc) acc) =
        (lookup name es).or (lookup name acc) by
    have hnil := hfold [] fun _ _ _ hm => absurd hm List.not_mem_nil
    rwa [lookup_nil, Option.or_none] at hnil
  induction es with
  | nil => exact fun acc _ => rfl
  | cons x es ih =>
    obtain ⟨n, b⟩ := x
    obtain ⟨hn, hes⟩ := List.nodup_cons.1 h
    intro acc hacc
    obtain ⟨hx, hrest⟩ := List.forall_mem_cons.1 hacc
    rw [List.foldl_cons, ih hes]
    · by_cases heq : n = name
      · subst heq
        have hnone : lookup n es = none := lookup_eq_none fun y hy he =>
          hn (List.mem_map.2 ⟨y, hy, he⟩)
        rw [hnone, lookup_insert_self, lookup_cons_self]
        rfl
      · rw [lookup_insert_of_ne heq, lookup_cons_of_ne heq]
    · intro y hy z hz
      rcases mem_insert hz with rfl | hz
      · exact fun he => hn (List.mem_map.2 ⟨y, hy, he⟩)
      · exact hrest y hy z hz

end Entries

/-! ### Documents in another order -/

/-- Documents that differ in the order of members only. -/
inductive Reordered : Value → Value → Prop
  | refl (v : Value) : Reordered v v
  | trans {u v w : Value} (h : Reordered u v) (h' : Reordered v w) : Reordered u w
  | members {ms ns : List (String × Value)} (h : ms.Perm ns) (hd : Distinct ms) :
      Reordered (.object ms) (.object ns)
  | item {v w : Value} (before after : List Value) (h : Reordered v w) :
      Reordered (.array (before ++ v :: after)) (.array (before ++ w :: after))
  | member {v w : Value} (before after : List (String × Value)) (name : String)
      (h : Reordered v w) :
      Reordered (.object (before ++ (name, v) :: after)) (.object (before ++ (name, w) :: after))

theorem ofItems_eq_map (vs : List Value) : ofItems vs = vs.map ofJson := by
  induction vs with
  | nil => rfl
  | cons v vs ih => rw [ofItems, ih, List.map_cons]

theorem ofMembers_eq_map (ms : List (String × Value)) :
    ofMembers ms = ms.map fun m => (m.1, ofJson m.2) := by
  induction ms with
  | nil => rfl
  | cons m ms ih => rw [ofMembers, ih, List.map_cons]

theorem distinct_ofMembers {ms : List (String × Value)} (h : Distinct ms) :
    Distinct (ofMembers ms) := by
  rw [Distinct, ofMembers_eq_map, List.map_map]
  exact h

theorem lookup_ofMembers (name : String) (ms : List (String × Value)) :
    lookup name (ofMembers ms) = (lookup name ms).map ofJson := by
  induction ms with
  | nil => rfl
  | cons m ms ih =>
    obtain ⟨n, v⟩ := m
    rw [ofMembers]
    by_cases hn : n = name
    · subst hn
      rw [lookup_cons_self, lookup_cons_self, Option.map_some]
    · rw [lookup_cons_of_ne hn, lookup_cons_of_ne hn, ih]

/-- The order of members plays no part in the settings of a document. -/
theorem ofJson_eq_of_reordered {v w : Value} (h : Reordered v w) : ofJson v = ofJson w := by
  induction h with
  | refl v => rfl
  | trans _ _ ih ih' => exact ih.trans ih'
  | @members ms ns h hd =>
    have hp : (ofMembers ms).Perm (ofMembers ns) := by
      rw [ofMembers_eq_map, ofMembers_eq_map]
      exact h.map _
    rw [ofJson, ofJson, sorted_perm (distinct_ofMembers hd) hp]
  | item before after _ ih =>
    simp only [ofJson, ofItems_eq_map, List.map_append, List.map_cons, ih]
  | member before after name _ ih =>
    simp only [ofJson, ofMembers_eq_map, List.map_append, List.map_cons, ih]

/-- An object is read as a table whose names are distinct and whose entries are its members. -/
theorem ofJson_object (ms : List (String × Value)) : ∃ es, Distinct es ∧
    ofJson (.object ms) = table .document es ∧
    (Distinct ms → ∀ name, lookup name es = (lookup name ms).map ofJson) := by
  refine ⟨_, nodup_of_ascending (ascending_sorted (ofMembers ms)).1, by rw [ofJson],
    fun h name => ?_⟩
  rw [lookup_sorted (distinct_ofMembers h), lookup_ofMembers]

/-! ### Records over their defaults -/

namespace Decoder

variable {α : Type} {parts : List (Part α)} {defaults a c : α}
  {es es' : List (String × Setting)}

/-- Every entry that a record knows has a value of its type. -/
def WellTyped (parts : List (Part α)) (es : List (String × Setting)) : Prop :=
  ∀ p ∈ parts, ∀ v ∈ lookup p.name es, ∃ b, p.read v = .ok b

/-- A decoder of tables with distinct names. It takes those in which every entry that it knows is
well typed, starts from `defaults`, replaces the parts that have an entry and no others, and so
comes to what `Filled` says of each field by itself. Entries that it does not know and the order of
entries play no part. -/
structure Overrides (parts : List (Part α)) (defaults : α)
    (Filled : List (String × Setting) → α → Prop) (d : Decoder α) : Prop where
  total : ∀ s es, Distinct es → ((∃ c, d (.table s es) = .ok c) ↔ WellTyped parts es)
  replaced : ∀ s es c, Distinct es →
    (d (.table s es) = .ok c ↔ ∀ p ∈ parts, p.Takes defaults (lookup p.name es) c)
  filled : ∀ s es c, Distinct es → (d (.table s es) = .ok c ↔ Filled es c)
  unknown : ∀ s name v es es', (∀ p ∈ parts, p.name ≠ name) →
    d (.table s (es ++ (name, v) :: es')) = d (.table s (es ++ es'))
  unordered : ∀ s es es' c, Distinct es → es.Perm es' →
    (d (.table s es) = .ok c ↔ d (.table s es') = .ok c)

theorem setEntries_append_unknown {name : String} (h : ∀ p ∈ parts, p.name ≠ name) (v : Setting)
    (es es' : List (String × Setting)) (a : α) :
    setEntries (parts.map Part.field) a (es ++ (name, v) :: es') =
      setEntries (parts.map Part.field) a (es ++ es') := by
  induction es generalizing a with
  | nil => exact setEntries_cons_of_not_mem h a v es'
  | cons x es ih =>
    rw [List.cons_append, List.cons_append, setEntries, setEntries]
    simp only [ih]

theorem Whole.exists_setEntries_iff (hw : Whole parts) (hd : Distinct es) :
    (∃ c, setEntries (parts.map Part.field) a es = .ok c) ↔ WellTyped parts es := by
  constructor
  · rintro ⟨c, hc⟩ p hp v hv
    have htakes := hw.takes_of_setEntries hd hc p hp
    rw [Option.mem_def.1 hv] at htakes
    exact ⟨_, Part.takes_some.1 htakes⟩
  · exact fun h => hw.exists_setEntries hd h a

/-- A record made of parts that together are all of it overrides its defaults, if these are what
its fields are when they are left out. -/
theorem Whole.overrides (hw : Whole parts) (expected : String) {leftOut : α}
    (hl : leftOut = defaults) {Filled : List (String × Setting) → α → Prop}
    (hf : ∀ es c, Filled es c ↔ ∀ p ∈ parts, p.Takes defaults (lookup p.name es) c) :
    Overrides parts defaults Filled (record expected (parts.map Part.field) leftOut) where
  total s es hd := hw.exists_setEntries_iff hd
  replaced s es c hd := hl ▸ hw.setEntries_eq_ok_iff hd
  filled s es c hd := hl ▸ (hw.setEntries_eq_ok_iff hd).trans (hf es c).symm
  unknown s name v es es' h := setEntries_append_unknown h v es es' leftOut
  unordered s es es' c hd hp := by
    rw [record, record, hw.setEntries_eq_ok_iff hd, hw.setEntries_eq_ok_iff (hd.perm hp)]
    simp only [lookup_perm hd hp]

theorem Whole.put_get (hw : Whole parts) {p : Part α} (hp : p ∈ parts) (a : α) :
    p.put (p.get a) a = a := by
  refine hw.ext _ _ fun q hq => ?_
  by_cases hqp : q.name = p.name
  · obtain rfl := List.inj_on_of_nodup_map hw.names hq hp hqp
    exact hw.own q hq _ a
  · exact hw.other q hq p hp hqp _ a

/-- An entry that says what a part is anyway may be left out. -/
theorem Whole.setEntries_append_section (hw : Whole parts) {p : Part α} (hp : p ∈ parts)
    {v : Setting} (hv : p.read v = .ok (p.get a)) (h : ∀ x ∈ es, x.1 ≠ p.name) :
    setEntries (parts.map Part.field) a (es ++ (p.name, v) :: es') =
      setEntries (parts.map Part.field) a (es ++ es') := by
  -- the entries in front leave the part as it is
  induction es generalizing a with
  | nil =>
    rw [List.nil_append, hw.setEntries_cons hp, hv]
    simp only [hw.put_get hp]
    rfl
  | cons x es ih =>
    obtain ⟨name, w⟩ := x
    obtain ⟨hname, hes⟩ := List.forall_mem_cons.1 h
    rw [List.cons_append, List.cons_append]
    by_cases hmem : ∃ q ∈ parts, q.name = name
    · obtain ⟨q, hq, rfl⟩ := hmem
      rw [hw.setEntries_cons hq, hw.setEntries_cons hq]
      cases q.read w with
      | error m => rfl
      | ok b => exact ih (hv.trans (by rw [hw.other p hp q hq (Ne.symm hname)])) hes
    · have hne : ∀ q ∈ parts, q.name ≠ name := fun q hq he => hmem ⟨q, hq, he⟩
      rw [setEntries_cons_of_not_mem hne, setEntries_cons_of_not_mem hne]
      exact ih hv hes

end Decoder

/-! ### The parts of the configuration, field by field -/

variable {es : List (String × Setting)}

/-- The store settings of a table, each with its own value when it is left out. -/
@[mk_iff]
structure StoreSettings.Filled (es : List (String × Setting)) (c : StoreSettings) : Prop where
  protocol : Reads text "http" (lookup "protocol" es) c.protocol
  host : Reads text "localhost" (lookup "host" es) c.host
  port : Reads word16 8200 (lookup "port" es) c.port
  path : Reads text "" (lookup "path" es) c.path
  nameSpace : Reads (optional text) none (lookup "namespace" es) c.nameSpace
  rootCertificate :
    Reads (optional Decoder.path) none (lookup "root_ca_cert_path" es) c.rootCertificate
  requestTimeoutSecs : Reads word64 30 (lookup "request_timeout_secs" es) c.requestTimeoutSecs
  authToken : Reads (optional text) none (lookup "auth_token" es) c.authToken

/-- The key/value engine of a table. -/
@[mk_iff]
structure KeyValueFilled (es : List (String × Setting)) (c : KeyValueMount) : Prop where
  mountPoint : Reads text "secret" (lookup "mount_point" es) c.mountPoint
  version : Reads text "2" (lookup "version" es) c.version

/-- The Consul engine of a table. -/
@[mk_iff]
structure ConsulFilled (es : List (String × Setting)) (c : ConsulMount) : Prop where
  mountPoint : Reads text "consul" (lookup "mount_point" es) c.mountPoint
  defaultLeaseTtl : Reads text "1h" (lookup "default_lease_ttl" es) c.defaultLeaseTtl

/-- The bootstrap settings of a table. A key/value engine that is left out has a value as a
whole. -/
@[mk_iff]
structure BootstrapSettings.Filled (es : List (String × Setting)) (c : BootstrapSettings) :
    Prop where
  secretShares : Reads word32 5 (lookup "secret_shares" es) c.secretShares
  secretThreshold : Reads word32 3 (lookup "secret_threshold" es) c.secretThreshold
  unsealKeys : Reads (Decoder.list text) [] (lookup "unseal_keys" es) c.unsealKeys
  policies : Reads (Decoder.map Decoder.path) [] (lookup "policies" es) c.policies
  keyValue : Reads decodeKeyValue ⟨"secret", "2"⟩ (lookup "kv" es) c.keyValue
  consul : Reads (optional decodeConsul) none (lookup "consul" es) c.consul

/-- The telemetry settings of a table. -/
@[mk_iff]
structure TelemetrySettings.Filled (es : List (String × Setting)) (c : TelemetrySettings) :
    Prop where
  logLevel : Reads text "info" (lookup "log_level" es) c.logLevel

/-- The configuration of a table. Each part that is left out has a value as a whole. -/
@[mk_iff]
structure Settings.Filled (es : List (String × Setting)) (c : Settings) : Prop where
  appName : Reads text "vaultadm" (lookup "app_name" es) c.appName
  appEnv : Reads text "development" (lookup "app_env" es) c.appEnv
  store : Reads StoreSettings.decode ⟨"http", "localhost", 8200, "", none, none, 30, none⟩
    (lookup "vault" es) c.store
  bootstrap : Reads BootstrapSettings.decode ⟨5, 3, [], [], ⟨"secret", "2"⟩, none⟩
    (lookup "bootstrap" es) c.bootstrap
  telemetry : Reads TelemetrySettings.decode ⟨"info"⟩ (lookup "telemetry" es) c.telemetry

theorem StoreSettings.decode_overrides : Overrides parts {} Filled decode :=
  whole_parts.overrides _ rfl fun es c => by
    simp only [filled_iff, parts, Part.Takes, List.forall_mem_cons, List.not_mem_nil,
      false_implies, implies_true, and_true]

theorem keyValue_overrides : Overrides keyValueParts {} KeyValueFilled decodeKeyValue :=
  whole_keyValueParts.overrides _ rfl fun es c => by
    simp only [keyValueFilled_iff, keyValueParts, Part.Takes, List.forall_mem_cons,
      List.not_mem_nil, false_implies, implies_true, and_true]

theorem consul_overrides : Overrides consulParts {} ConsulFilled decodeConsul :=
  whole_consulParts.overrides _ rfl fun es c => by
    simp only [consulFilled_iff, consulParts, Part.Takes, List.forall_mem_cons, List.not_mem_nil,
      false_implies, implies_true, and_true]

theorem BootstrapSettings.decode_overrides : Overrides parts {} Filled decode :=
  whole_parts.overrides _ rfl fun es c => by
    simp only [filled_iff, parts, Part.Takes, List.forall_mem_cons, List.not_mem_nil,
      false_implies, implies_true, and_true]

theorem TelemetrySettings.decode_overrides : Overrides parts {} Filled decode :=
  whole_parts.overrides _ rfl fun es c => by
    simp only [filled_iff, parts, Part.Takes, List.forall_mem_cons, List.not_mem_nil,
      false_implies, implies_true, and_true]

theorem Settings.decode_overrides : Overrides parts {} Filled decode :=
  whole_parts.overrides _ rfl fun es c => by
    simp only [filled_iff, parts, Part.Takes, List.forall_mem_cons, List.not_mem_nil,
      false_implies, implies_true, and_true]

/-! ### Parts that are left out -/

/-- A part of the configuration that is left out and an empty one are the same. -/
theorem Settings.decode_append_section {name : String}
    (hn : name ∈ ["vault", "bootstrap", "telemetry"]) (s s' : Source)
    {es : List (String × Setting)} (h : ∀ x ∈ es, x.1 ≠ name) (es' : List (String × Setting)) :
    Settings.decode (.table s (es ++ (name, .table s' []) :: es')) =
      Settings.decode (.table s (es ++ es')) := by
  obtain ⟨p, hp, rfl, hv⟩ : ∃ p ∈ parts, p.name = name ∧
      p.read (.table s' []) = .ok (p.get {}) := by
    simp only [List.mem_cons, List.not_mem_nil, or_false] at hn
    rcases hn with rfl | rfl | rfl
    · exact ⟨parts[2], List.getElem_mem _, rfl, rfl⟩
    · exact ⟨parts[3], List.getElem_mem _, rfl, rfl⟩
    · exact ⟨parts[4], List.getElem_mem _, rfl, rfl⟩
  exact whole_parts.setEntries_append_section hp hv h

/-- A key/value engine that is left out and an empty one are the same. -/
theorem BootstrapSettings.decode_append_keyValue (s s' : Source) {es : List (String × Setting)}
    (h : ∀ x ∈ es, x.1 ≠ "kv") (es' : List (String × Setting)) :
    BootstrapSettings.decode (.table s (es ++ ("kv", .table s' []) :: es')) =
      BootstrapSettings.decode (.table s (es ++ es')) :=
  whole_parts.setEntries_append_section (p := parts[4]) (List.getElem_mem _) rfl h

/-- A Consul engine is there exactly if its part is, and an empty part is the default engine. -/
theorem BootstrapSettings.Filled.consul_iff {c : BootstrapSettings} (h : c.Filled es) :
    (lookup "consul" es = none → c.consul = none) ∧
    (∀ s, lookup "consul" es = some (.table s []) → c.consul = some ⟨"consul", "1h"⟩) := by
  have hconsul := h.consul
  constructor
  · intro hl
    rw [hl] at hconsul
    exact hconsul
  · intro s hl
    rw [hl] at hconsul
    exact (Except.ok.inj hconsul).symm

/-- **Defaults.** Both ways of giving them agree. Every decoder of the configuration gives each
field that is left out its own default, which comes to starting from the value of the whole part and
replacing exactly the fields that are there. A part that is left out is an empty one, except for
the Consul engine, and the order of members plays no part at any depth. -/
theorem decoders_override_defaults :
    (Overrides Settings.parts {} Settings.Filled Settings.decode ∧
      Overrides StoreSettings.parts {} StoreSettings.Filled StoreSettings.decode ∧
      Overrides BootstrapSettings.parts {} BootstrapSettings.Filled BootstrapSettings.decode ∧
      Overrides keyValueParts {} KeyValueFilled decodeKeyValue ∧
      Overrides consulParts {} ConsulFilled decodeConsul ∧
      Overrides TelemetrySettings.parts {} TelemetrySettings.Filled TelemetrySettings.decode) ∧
    (∀ name ∈ ["vault", "bootstrap", "telemetry"], ∀ s s' es es', (∀ x ∈ es, x.1 ≠ name) →
      Settings.decode (.table s (es ++ (name, .table s' []) :: es')) =
        Settings.decode (.table s (es ++ es'))) ∧
    (∀ s s' es es', (∀ x ∈ es, x.1 ≠ "kv") →
      BootstrapSettings.decode (.table s (es ++ ("kv", .table s' []) :: es')) =
        BootstrapSettings.decode (.table s (es ++ es'))) ∧
    (∀ s es c, Distinct es → BootstrapSettings.decode (.table s es) = .ok c →
      (lookup "consul" es = none → c.consul = none) ∧
      (∀ s', lookup "consul" es = some (.table s' []) → c.consul = some ⟨"consul", "1h"⟩)) ∧
    (∀ v w, Reordered v w → ofJson v = ofJson w) ∧
    ∀ ms, ∃ es, Distinct es ∧ ofJson (.object ms) = .table .document es ∧
      (Distinct ms → ∀ name, lookup name es = (lookup name ms).map ofJson) := by
  refine ⟨⟨Settings.decode_overrides, StoreSettings.decode_overrides,
    BootstrapSettings.decode_overrides, keyValue_overrides, consul_overrides,
    TelemetrySettings.decode_overrides⟩,
    fun name hn s s' es es' h => Settings.decode_append_section hn s s' h es',
    fun s s' es es' h => BootstrapSettings.decode_append_keyValue s s' h es',
    fun s es c hd hc => ((BootstrapSettings.decode_overrides.filled s es c hd).1 hc).consul_iff,
    fun v w => ofJson_eq_of_reordered, ofJson_object⟩

/-- A port and a name that no field has, an engine that is there but empty, and two members in
either order. -/
theorem store_replaced_of_port :
    let es := [("port", .number .document (.unsigned 9000)), ("colour", .text .document "red")]
    (Distinct es ∧ StoreSettings.decode (.table .document es) = .ok { port := 9000 }) ∧
    Settings.decode (.table .document [("vault", .table .document [])]) =
      Settings.decode (.table .document []) ∧
    (∀ c, BootstrapSettings.decode (.table .document [("consul", .table .document [])]) = .ok c →
      c.consul = some ⟨"consul", "1h"⟩) ∧
    ofJson (.object [("a", .null), ("b", .bool true)]) =
      ofJson (.object [("b", .bool true), ("a", .null)]) := by
  intro es
  obtain ⟨⟨-, hstore, -⟩, hsection, -, hconsul, horder, -⟩ := decoders_override_defaults
  have hd : Distinct es := by
    rw [Distinct]
    decide
  refine ⟨⟨hd, (hstore.filled _ _ _ hd).2 ⟨rfl, rfl, rfl, rfl, rfl, rfl, rfl, rfl⟩⟩,
    hsection "vault" (by decide) .document .document [] [] fun _ h => absurd h List.not_mem_nil,
    fun c hc => (hconsul _ _ c ?_ hc).2 .document rfl,
    horder _ _ (.members (List.Perm.swap ..) ?_)⟩
  · exact List.nodup_singleton _
  · rw [Distinct]
    decide

end SecretStore.Config
