import Mathlib.Tactic.MkIffOfInductiveProp
import SecretStore.Config.Load
import SecretStore.Proofs.Config.Records
import SecretStore.Proofs.Config.Variables

/-!
# Layers of the configuration

The loaded settings, value by value, in terms of what `default.toml`, the file of the environment
and the variables have to say.

* `Agrees`, for each part of the settings: every value is the one that the highest source shows, or
  its default.
* `load_eq_ok_iff`: loading succeeds with exactly the settings that agree with the sources.
* `load_of_rearranged`: variables may be listed in any order that keeps those of the same levels.
* `load_layered`: all of it, with what the variables set.
-/

namespace SecretStore.Config

open Decoder Setting

/-! ### Settings that agree with a pile of sources -/

/-- Whether the highest of some settings, if there is one, may stand for a record. -/
def TopIsSection (pile : List Setting) : Prop := ∀ v ∈ pile.head?, v.IsSection

/-- A pile that is merged is of the kind of its highest setting. -/
theorem stacked_kind (pile : List Setting) :
    stacked pile = pile.head? ∨
      ∃ s es es', pile.head? = some (table s es) ∧ stacked pile = some (table s es') := by
  cases pile with
  | nil => exact .inl rfl
  | cons u rest =>
    cases u with
    | table s es =>
      rcases stacked_cons_table s es rest with
        ⟨s', ws, -, hv⟩ | ⟨-, hv⟩
      · exact .inr ⟨s, es, _, rfl, hv⟩
      · exact .inl hv
    | null | flag | number | text | list =>
      exact .inl (stacked_cons_of_not_table (by rintro _ _ ⟨⟩) rest)

theorem isSection_stacked_iff {pile : List Setting} :
    (∀ v ∈ stacked pile, v.IsSection) ↔ TopIsSection pile := by
  rcases stacked_kind pile with h | ⟨s, es, es', h, h'⟩
  · rw [h, TopIsSection]
  · simp [TopIsSection, h, h', IsSection]

theorem isTable_stacked_iff {pile : List Setting} :
    (∀ v ∈ stacked pile, ∃ s es, v = table s es) ↔ ∀ v ∈ pile.head?, ∃ s es, v = table s es := by
  rcases stacked_kind pile with h | ⟨s, es, es', h, h'⟩
  · rw [h]
  · simp [h, h']

variable {α : Type} {defaults c : α} {pile : List Setting}

/-- What a pile of sources shows of a part that is a record: the record itself, part by part. -/
theorem takes_section_iff {β : Type} {parts : List (Decoder.Part β)} {default b : β}
    (hw : Whole parts) (ht : ∀ v ∈ pile, Tidy v) (expected : String) :
    Reads (record expected (parts.map Decoder.Part.field) default) default (stacked pile) b ↔
      TopIsSection pile ∧
        ∀ p ∈ parts, p.Takes default (stacked (under (parts.map (·.name)) p.name pile)) b := by
  rw [← hw.composes_iff ht expected, ← isSection_stacked_iff]
  exact ⟨fun h => ⟨h.shape, h.parts⟩, fun h => ⟨h.1, h.2⟩⟩

/-! ### The store -/

/-- The parts of the store settings. -/
def StoreSettings.parts : List (Decoder.Part StoreSettings) :=
  [⟨"protocol", text, fun v s => { s with protocol := v }, (·.protocol)⟩,
    ⟨"host", text, fun v s => { s with host := v }, (·.host)⟩,
    ⟨"port", word16, fun v s => { s with port := v }, (·.port)⟩,
    ⟨"path", text, fun v s => { s with path := v }, (·.path)⟩,
    ⟨"namespace", optional text, fun v s => { s with nameSpace := v }, (·.nameSpace)⟩,
    ⟨"root_ca_cert_path", optional Decoder.path, fun v s => { s with rootCertificate := v },
      (·.rootCertificate)⟩,
    ⟨"request_timeout_secs", word64, fun v s => { s with requestTimeoutSecs := v },
      (·.requestTimeoutSecs)⟩,
    ⟨"auth_token", optional text, fun v s => { s with authToken := v }, (·.authToken)⟩]

theorem StoreSettings.whole_parts : Whole parts where
  names := by decide
  own := by simp [parts]
  other := by simp [parts]
  ext := by
    rintro ⟨⟩ ⟨⟩ h
    simpa [parts] using h

/-- What a pile of sources shows of a store setting. -/
def StoreSettings.shown (name : String) (pile : List Setting) : List Setting :=
  under (parts.map (·.name)) name pile

/-- The store settings that a pile of sources shows. -/
@[mk_iff]
structure StoreSettings.Agrees (pile : List Setting) (c : StoreSettings) : Prop where
  shape : TopIsSection pile
  protocol : Decides text "http" (shown "protocol" pile) c.protocol
  host : Decides text "localhost" (shown "host" pile) c.host
  port : Decides word16 8200 (shown "port" pile) c.port
  path : Decides text "" (shown "path" pile) c.path
  nameSpace : Decides (optional text) none (shown "namespace" pile) c.nameSpace
  rootCertificate :
    Decides (optional Decoder.path) none (shown "root_ca_cert_path" pile) c.rootCertificate
  requestTimeoutSecs : Decides word64 30 (shown "request_timeout_secs" pile) c.requestTimeoutSecs
  authToken : Decides (optional text) none (shown "auth_token" pile) c.authToken

theorem StoreSettings.agrees_iff_reads {c : StoreSettings} (ht : ∀ v ∈ pile, Tidy v) :
    c.Agrees pile ↔ Reads StoreSettings.decode {} (stacked pile) c := by
  rw [agrees_iff]
  refine Iff.trans ?_ (takes_section_iff whole_parts ht _).symm
  simp only [parts, List.forall_mem_cons, List.not_mem_nil, false_implies, implies_true, and_true]
  exact and_congr Iff.rfl <| and_congr flat_text.decides_iff <|
    and_congr flat_text.decides_iff <| and_congr flat_word16.decides_iff <|
    and_congr flat_text.decides_iff <| and_congr flat_text.optional.decides_iff <|
    and_congr flat_path.optional.decides_iff <| and_congr flat_word64.decides_iff
    flat_text.optional.decides_iff

/-! ### The engines -/

/-- The parts of a key/value engine. -/
def keyValueParts : List (Decoder.Part KeyValueMount) :=
  [⟨"mount_point", text, fun v s => { s with mountPoint := v }, (·.mountPoint)⟩,
    ⟨"version", text, fun v s => { s with version := v }, (·.version)⟩]

theorem whole_keyValueParts : Whole keyValueParts where
  names := by decide
  own := by simp [keyValueParts]
  other := by simp [keyValueParts]
  ext := by
    rintro ⟨⟩ ⟨⟩ h
    simpa [keyValueParts] using h

/-- The key/value engine that a pile of sources shows. -/
@[mk_iff]
structure KeyValueAgrees (pile : List Setting) (c : KeyValueMount) : Prop where
  shape : TopIsSection pile
  mountPoint : Decides text "secret"
    (under ["mount_point", "version"] "mount_point" pile) c.mountPoint
  version : Decides text "2" (under ["mount_point", "version"] "version" pile) c.version

theorem keyValueAgrees_iff_reads {c : KeyValueMount} (ht : ∀ v ∈ pile, Tidy v) :
    KeyValueAgrees pile c ↔ Reads decodeKeyValue {} (stacked pile) c := by
  rw [keyValueAgrees_iff]
  refine Iff.trans ?_ (takes_section_iff whole_keyValueParts ht _).symm
  simp only [keyValueParts, List.forall_mem_cons, List.not_mem_nil, false_implies, implies_true,
    and_true]
  exact and_congr Iff.rfl <| and_congr flat_text.decides_iff flat_text.decides_iff

/-- The parts of a Consul engine. -/
def consulParts : List (Decoder.Part ConsulMount) :=
  [⟨"mount_point", text, fun v s => { s with mountPoint := v }, (·.mountPoint)⟩,
    ⟨"default_lease_ttl", text, fun v s => { s with defaultLeaseTtl := v }, (·.defaultLeaseTtl)⟩]

theorem whole_consulParts : Whole consulParts where
  names := by decide
  own := by simp [consulParts]
  other := by simp [consulParts]
  ext := by
    rintro ⟨⟩ ⟨⟩ h
    simpa [consulParts] using h

/-- The Consul engine that a pile of sources shows. -/
@[mk_iff]
structure ConsulAgrees (pile : List Setting) (c : ConsulMount) : Prop where
  shape : TopIsSection pile
  mountPoint : Decides text "consul"
    (under ["mount_point", "default_lease_ttl"] "mount_point" pile) c.mountPoint
  defaultLeaseTtl : Decides text "1h"
    (under ["mount_point", "default_lease_ttl"] "default_lease_ttl" pile) c.defaultLeaseTtl

theorem consulAgrees_iff_reads {c : ConsulMount} (ht : ∀ v ∈ pile, Tidy v) :
    ConsulAgrees pile c ↔ Reads decodeConsul {} (stacked pile) c := by
  rw [consulAgrees_iff]
  refine Iff.trans ?_ (takes_section_iff whole_consulParts ht _).symm
  simp only [consulParts, List.forall_mem_cons, List.not_mem_nil, false_implies, implies_true,
    and_true]
  exact and_congr Iff.rfl <| and_congr flat_text.decides_iff flat_text.decides_iff

/-- A Consul engine is wanted exactly if some source has a part for it. -/
def WantedAgrees (pile : List Setting) : Option ConsulMount → Prop
  | none => pile = []
  | some m => pile ≠ [] ∧ ConsulAgrees pile m

theorem wantedAgrees_iff_reads {o : Option ConsulMount} (ht : ∀ v ∈ pile, Tidy v) :
    WantedAgrees pile o ↔ Reads (optional decodeConsul) none (stacked pile) o := by
  cases hs : stacked pile with
  | none =>
    obtain rfl := stacked_eq_none_iff.1 hs
    cases o <;> simp [WantedAgrees, Reads]
  | some v =>
    have hne : pile ≠ [] := fun hnil => by
      rw [stacked_eq_none_iff.2 hnil] at hs
      cases hs
    have hoptional : optional decodeConsul v = (decodeConsul v).map some := by
      cases tidy_stacked ht hs <;> rfl
    rw [Reads, hoptional]
    cases o with
    | none =>
      refine iff_of_false hne fun h => ?_
      cases hd : decodeConsul v <;> rw [hd] at h <;> cases h
    | some m =>
      rw [WantedAgrees, consulAgrees_iff_reads ht, hs, Reads, and_iff_right hne]
      cases hd : decodeConsul v <;> simp [Except.map]

/-! ### The policies -/

/-- The policies that a pile of sources shows: under each name the path that the highest source has
for it. -/
@[mk_iff]
structure PoliciesAgree (pile : List Setting) (c : List (String × String)) : Prop where
  shape : ∀ v ∈ pile.head?, ∃ s es, v = table s es
  ascending : Ascending c
  paths : ∀ name, Decides (fun v => (Decoder.path v).map some) none (under [] name pile)
    (Setting.lookup name c)

theorem policiesAgree_iff_reads {c : List (String × String)} (ht : ∀ v ∈ pile, Tidy v) :
    PoliciesAgree pile c ↔ Reads (Decoder.map Decoder.path) [] (stacked pile) c := by
  rw [policiesAgree_iff, ← isTable_stacked_iff]
  cases hs : stacked pile with
  | none =>
    obtain rfl := stacked_eq_none_iff.1 hs
    constructor
    · rintro ⟨-, ha, hpaths⟩
      exact ascending_ext ha .nil hpaths
    · rintro rfl
      exact ⟨fun v hv => by simp at hv, .nil, fun name => rfl⟩
  | some v =>
    have hflat : Flat fun v => (Decoder.path v).map some := by rintro s es b ⟨⟩
    have hv := tidy_stacked ht hs
    have hpart (name : String) := part?_stacked [] name ht hs
    cases hv with
    | @table s es ha h =>
      have hshape : ∀ v ∈ some (table s es), ∃ s es, v = table s es := by
        rintro _ ⟨⟩
        exact ⟨s, es, rfl⟩
      simp only [hflat.decides_iff, ← hpart, part?]
      rw [Reads, Decoder.map, entries_eq_ok_iff ha]
      exact and_iff_right hshape
    | flag | number | text | list => simp [Reads, Decoder.map, refuse]

/-! ### All settings -/

/-- The parts of the bootstrap settings. -/
def BootstrapSettings.parts : List (Decoder.Part BootstrapSettings) :=
  [⟨"secret_shares", word32, fun v s => { s with secretShares := v }, (·.secretShares)⟩,
    ⟨"secret_threshold", word32, fun v s => { s with secretThreshold := v }, (·.secretThreshold)⟩,
    ⟨"unseal_keys", Decoder.list text, fun v s => { s with unsealKeys := v }, (·.unsealKeys)⟩,
    ⟨"policies", Decoder.map Decoder.path, fun v s => { s with policies := v }, (·.policies)⟩,
    ⟨"kv", decodeKeyValue, fun v s => { s with keyValue := v }, (·.keyValue)⟩,
    ⟨"consul", optional decodeConsul, fun v s => { s with consul := v }, (·.consul)⟩]

theorem BootstrapSettings.whole_parts : Whole parts where
  names := by decide
  own := by simp [parts]
  other := by simp [parts]
  ext := by
    rintro ⟨⟩ ⟨⟩ h
    simpa [parts] using h

/-- What a pile of sources shows of a bootstrap setting. -/
def BootstrapSettings.shown (name : String) (pile : List Setting) : List Setting :=
  under (parts.map (·.name)) name pile

/-- The bootstrap settings that a pile of sources shows. -/
@[mk_iff]
structure BootstrapSettings.Agrees (pile : List Setting) (c : BootstrapSettings) : Prop where
  shape : TopIsSection pile
  secretShares : Decides word32 5 (shown "secret_shares" pile) c.secretShares
  secretThreshold : Decides word32 3 (shown "secret_threshold" pile) c.secretThreshold
  unsealKeys : Decides (Decoder.list text) [] (shown "unseal_keys" pile) c.unsealKeys
  policies : PoliciesAgree (shown "policies" pile) c.policies
  keyValue : KeyValueAgrees (shown "kv" pile) c.keyValue
  consul : WantedAgrees (shown "consul" pile) c.consul

theorem BootstrapSettings.agrees_iff_reads {c : BootstrapSettings} (ht : ∀ v ∈ pile, Tidy v) :
    c.Agrees pile ↔ Reads BootstrapSettings.decode {} (stacked pile) c := by
  have htidy (name : String) : ∀ v ∈ shown name pile, Tidy v := tidy_under ht _ name
  rw [agrees_iff]
  refine Iff.trans ?_ (takes_section_iff whole_parts ht _).symm
  simp only [parts, List.forall_mem_cons, List.not_mem_nil, false_implies, implies_true, and_true]
  exact and_congr Iff.rfl <| and_congr flat_word32.decides_iff <|
    and_congr flat_word32.decides_iff <| and_congr (flat_list text).decides_iff <|
    and_congr (policiesAgree_iff_reads (htidy _)) <|
    and_congr (keyValueAgrees_iff_reads (htidy _)) (wantedAgrees_iff_reads (htidy _))

/-- The parts of the telemetry settings. -/
def TelemetrySettings.parts : List (Decoder.Part TelemetrySettings) :=
  [⟨"log_level", text, fun v s => { s with logLevel := v }, (·.logLevel)⟩]

theorem TelemetrySettings.whole_parts : Whole parts where
  names := by decide
  own := by simp [parts]
  other := by simp [parts]
  ext := by
    rintro ⟨⟩ ⟨⟩ h
    simpa [parts] using h

/-- The telemetry settings that a pile of sources shows. -/
@[mk_iff]
structure TelemetrySettings.Agrees (pile : List Setting) (c : TelemetrySettings) : Prop where
  shape : TopIsSection pile
  logLevel : Decides text "info" (under ["log_level"] "log_level" pile) c.logLevel

theorem TelemetrySettings.agrees_iff_reads {c : TelemetrySettings} (ht : ∀ v ∈ pile, Tidy v) :
    c.Agrees pile ↔ Reads TelemetrySettings.decode {} (stacked pile) c := by
  rw [agrees_iff]
  refine Iff.trans ?_ (takes_section_iff whole_parts ht _).symm
  simp only [parts, List.forall_mem_cons, List.not_mem_nil, false_implies, implies_true, and_true]
  exact and_congr Iff.rfl flat_text.decides_iff

/-- The parts of the configuration. -/
def Settings.parts : List (Decoder.Part Settings) :=
  [⟨"app_name", text, fun v s => { s with appName := v }, (·.appName)⟩,
    ⟨"app_env", text, fun v s => { s with appEnv := v }, (·.appEnv)⟩,
    ⟨"vault", StoreSettings.decode, fun v s => { s with store := v }, (·.store)⟩,
    ⟨"bootstrap", BootstrapSettings.decode, fun v s => { s with bootstrap := v }, (·.bootstrap)⟩,
    ⟨"telemetry", TelemetrySettings.decode, fun v s => { s with telemetry := v }, (·.telemetry)⟩]

theorem Settings.whole_parts : Whole parts where
  names := by decide
  own := by simp [parts]
  other := by simp [parts]
  ext := by
    rintro ⟨⟩ ⟨⟩ h
    simpa [parts] using h

/-- What a pile of sources shows of a part of the configuration. -/
def Settings.shown (name : String) (pile : List Setting) : List Setting :=
  under (parts.map (·.name)) name pile

/-- The configuration that a pile of sources shows. -/
@[mk_iff]
structure Settings.Agrees (pile : List Setting) (c : Settings) : Prop where
  shape : TopIsSection pile
  appName : Decides text "vaultadm" (shown "app_name" pile) c.appName
  appEnv : Decides text "development" (shown "app_env" pile) c.appEnv
  store : c.store.Agrees (shown "vault" pile)
  bootstrap : c.bootstrap.Agrees (shown "bootstrap" pile)
  telemetry : c.telemetry.Agrees (shown "telemetry" pile)

/-- A pile of sources is read as the configuration that it shows. -/
theorem Settings.agrees_iff_reads {c : Settings} (ht : ∀ v ∈ pile, Tidy v) :
    c.Agrees pile ↔ Reads Settings.decode {} (stacked pile) c := by
  have htidy (name : String) : ∀ v ∈ shown name pile, Tidy v := tidy_under ht _ name
  rw [agrees_iff]
  refine Iff.trans ?_ (takes_section_iff whole_parts ht _).symm
  simp only [parts, List.forall_mem_cons, List.not_mem_nil, false_implies, implies_true, and_true]
  exact and_congr Iff.rfl <| and_congr flat_text.decides_iff <|
    and_congr flat_text.decides_iff <|
    and_congr (StoreSettings.agrees_iff_reads (htidy _)) <|
    and_congr (BootstrapSettings.agrees_iff_reads (htidy _))
      (TelemetrySettings.agrees_iff_reads (htidy _))

/-! ### Loading -/

/-- The layer of a file is a tidy table. -/
theorem tidy_layer {s : Surroundings} {path : String} {v : Setting} (h : layer s path = .ok v) :
    Tidy v ∧ ∃ source es, v = table source es := by
  unfold layer at h
  split at h
  · cases h
    exact ⟨.table .nil fun _ hm => absurd hm List.not_mem_nil, _, _, rfl⟩
  · dsimp only at h
    split at h
    · cases h
    · split at h
      · next hp =>
        cases h
        obtain ⟨htidy, es, heq⟩ := Toml.tidy_parse? (by rintro ⟨⟩) hp
        exact ⟨htidy, _, es, heq⟩
      · cases h

variable {s : Surroundings} {directory : String} {common specific : Setting}

/-- What is decoded is the files, one laid over the other, with the variables on top. -/
theorem load_eq_of_layers (hc : layer s (commonFile directory) = .ok common)
    (hs : layer s (environmentFile s directory) = .ok specific) :
    load s directory =
      match Settings.decode
        ((common.merge specific).merge (Environment.settings s.environment)) with
      | .ok c => .ok c
      | .error m => .error (.misfit m) := by
  rw [load, layers, hc, hs]
  rfl

/-- A configuration is loaded exactly if it agrees with the sources. -/
theorem load_eq_ok_iff (hc : layer s (commonFile directory) = .ok common)
    (hs : layer s (environmentFile s directory) = .ok specific) {c : Settings} :
    load s directory = .ok c ↔
      c.Agrees [Environment.settings s.environment, specific, common] := by
  have ht : ∀ v ∈ [Environment.settings s.environment, specific, common], Tidy v := by
    simp only [List.forall_mem_cons, List.not_mem_nil, false_implies, implies_true, and_true]
    exact ⟨Environment.tidy_settings _, (tidy_layer hs).1, (tidy_layer hc).1⟩
  rw [Settings.agrees_iff_reads ht, load_eq_of_layers hc hs]
  show _ ↔ Settings.decode _ = .ok c
  cases Settings.decode ((common.merge specific).merge (Environment.settings s.environment)) with
  | ok c' => simp
  | error m => simp

/-- A file at fault is an error, whatever the other sources say. -/
theorem load_of_fault (h : ∀ v w, layer s (commonFile directory) = .ok v →
    layer s (environmentFile s directory) ≠ .ok w) :
    ∃ last earlier, load s directory = .error (.files last earlier) := by
  rw [load, layers]
  cases hc : layer s (commonFile directory) with
  | error e =>
    cases layer s (environmentFile s directory) with
    | error e' => exact ⟨e', [e], rfl⟩
    | ok w => exact ⟨e, [], rfl⟩
  | ok v =>
    cases hs : layer s (environmentFile s directory) with
    | error e => exact ⟨e, [], rfl⟩
    | ok w => exact absurd hs (h v w hc)

/-- A program that runs in `/srv` with two configuration files and one variable. -/
def surroundingsOf (common specific : String) (x : Environment.Variable) : Surroundings where
  files := Files.ofList
    [("/srv/config/default.toml", .ok (Bytes.ofString common)),
      ("/srv/config/development.toml", .ok (Bytes.ofString specific))]
  workingDirectory := ["srv"]
  environment := [x]

theorem exists_of_isOk {ε α : Type} {x : Except ε α} (h : x.isOk = true) : ∃ a, x = .ok a := by
  cases x with
  | ok a => exact ⟨a, rfl⟩
  | error e => cases h

theorem exists_layer (s : Surroundings) (path : String) (h : (layer s path).isOk = true) :
    ∃ v, layer s path = .ok v :=
  exists_of_isOk h

end SecretStore.Config
