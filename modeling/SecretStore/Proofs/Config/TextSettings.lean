import SecretStore.Proofs.Config.Overlay
import SecretStore.Proofs.Config.Values

/-!
# Text settings from the environment

Each setting that is a text has a variable. What the loaded configuration has for it is what the
value of the variable stands for, whatever the files say, and if that is no text, loading fails.

* `TextSetting`: the settings that are texts, with their places and their variables.
* `textAt`: the decoder of the configuration takes nothing but a text in such a place.
* `OtherwiseValid`: the other sources are valid, but for what they have in one place.
* `load_of_text_variable`: what is loaded with a variable of a text setting.
-/

namespace SecretStore.Config

open Decoder Setting

/-- The settings that are texts. -/
inductive TextSetting where
  | appName
  | appEnv
  | protocol
  | host
  | basePath
  | nameSpace
  | authToken
  | keyValueMountPoint
  | keyValueVersion
  | consulMountPoint
  | consulLeaseTtl
  | logLevel
  deriving DecidableEq, Repr

namespace TextSetting

/-- The names on the way to a setting. -/
def path : TextSetting → List String
  | appName => ["app_name"]
  | appEnv => ["app_env"]
  | protocol => ["vault", "protocol"]
  | host => ["vault", "host"]
  | basePath => ["vault", "path"]
  | nameSpace => ["vault", "namespace"]
  | authToken => ["vault", "auth_token"]
  | keyValueMountPoint => ["bootstrap", "kv", "mount_point"]
  | keyValueVersion => ["bootstrap", "kv", "version"]
  | consulMountPoint => ["bootstrap", "consul", "mount_point"]
  | consulLeaseTtl => ["bootstrap", "consul", "default_lease_ttl"]
  | logLevel => ["telemetry", "log_level"]

/-- The variable of a setting. -/
def variableName (k : TextSetting) : String :=
  Environment.opening ++ String.intercalate "__" (k.path.map String.toUpper)

/-- What a configuration has for a setting. -/
def get : TextSetting → Settings → Option String
  | appName, c => c.appName
  | appEnv, c => c.appEnv
  | protocol, c => c.store.protocol
  | host, c => c.store.host
  | basePath, c => c.store.path
  | nameSpace, c => c.store.nameSpace
  | authToken, c => c.store.authToken
  | keyValueMountPoint, c => c.bootstrap.keyValue.mountPoint
  | keyValueVersion, c => c.bootstrap.keyValue.version
  | consulMountPoint, c => c.bootstrap.consul.map (·.mountPoint)
  | consulLeaseTtl, c => c.bootstrap.consul.map (·.defaultLeaseTtl)
  | logLevel, c => c.telemetry.logLevel

theorem levels?_variableName (k : TextSetting) :
    Environment.levels? k.variableName = some k.path := by
  cases k <;> decide +kernel

end TextSetting

/-! ### The decoders of the configuration -/

theorem StoreSettings.lays_decode : Lays StoreSettings.decode := by
  refine whole_parts.lays ?_ _ _
  simp only [parts, List.forall_mem_cons, List.not_mem_nil, false_implies, implies_true, and_true]
  exact ⟨flat_text.lays, flat_text.lays, flat_word16.lays, flat_text.lays, flat_text.optional.lays,
    flat_path.optional.lays, flat_word64.lays, flat_text.optional.lays⟩

theorem lays_decodeKeyValue : Lays decodeKeyValue := by
  refine whole_keyValueParts.lays ?_ _ _
  simp only [keyValueParts, List.forall_mem_cons, List.not_mem_nil, false_implies, implies_true,
    and_true]
  exact ⟨flat_text.lays, flat_text.lays⟩

theorem lays_decodeConsul : Lays decodeConsul := by
  refine whole_consulParts.lays ?_ _ _
  simp only [consulParts, List.forall_mem_cons, List.not_mem_nil, false_implies, implies_true,
    and_true]
  exact ⟨flat_text.lays, flat_text.lays⟩

theorem BootstrapSettings.lays_decode : Lays BootstrapSettings.decode := by
  refine whole_parts.lays ?_ _ _
  simp only [parts, List.forall_mem_cons, List.not_mem_nil, false_implies, implies_true, and_true]
  exact ⟨flat_word32.lays, flat_word32.lays, (flat_list text).lays, flat_path.lays.map,
    lays_decodeKeyValue, lays_decodeConsul.optional⟩

theorem TelemetrySettings.lays_decode : Lays TelemetrySettings.decode := by
  refine whole_parts.lays ?_ _ _
  simp only [parts, List.forall_mem_cons, List.not_mem_nil, false_implies, implies_true, and_true]
  exact flat_text.lays

/-- A configuration laid over another one can be taken. -/
theorem Settings.lays_decode : Lays Settings.decode := by
  refine whole_parts.lays ?_ _ _
  simp only [parts, List.forall_mem_cons, List.not_mem_nil, false_implies, implies_true, and_true]
  exact ⟨flat_text.lays, flat_text.lays, StoreSettings.lays_decode, BootstrapSettings.lays_decode,
    TelemetrySettings.lays_decode⟩

theorem textAt_optional_text : TextAt (optional text) [] id :=
  textAt_text.optional.congr fun o => by cases o <;> rfl

theorem textAt_bootstrap {path : List String} {get : BootstrapSettings → Option String}
    (h : TextAt BootstrapSettings.decode path get) :
    TextAt Settings.decode ("bootstrap" :: path) (get ∘ (·.bootstrap)) :=
  Settings.whole_parts.textAt (p := Settings.parts[3]) (List.getElem_mem _) h _ _

theorem textAt_storePart {p : Decoder.Part StoreSettings} (hp : p ∈ StoreSettings.parts)
    {get : p.β → Option String} (h : TextAt p.read [] get) :
    TextAt Settings.decode ["vault", p.name] (get ∘ p.get ∘ (·.store)) :=
  Settings.whole_parts.textAt (p := Settings.parts[2]) (List.getElem_mem _)
    (StoreSettings.whole_parts.textAt hp h _ _) _ _

theorem textAt_keyValuePart {p : Decoder.Part KeyValueMount} (hp : p ∈ keyValueParts)
    {get : p.β → Option String} (h : TextAt p.read [] get) :
    TextAt Settings.decode ["bootstrap", "kv", p.name] (get ∘ p.get ∘ (·.bootstrap.keyValue)) :=
  textAt_bootstrap (BootstrapSettings.whole_parts.textAt (p := BootstrapSettings.parts[4])
    (List.getElem_mem _) (whole_keyValueParts.textAt hp h _ _) _ _)

theorem textAt_consulPart {p : Decoder.Part ConsulMount} (hp : p ∈ consulParts)
    {get : p.β → Option String} (h : TextAt p.read [] get) :
    TextAt Settings.decode ["bootstrap", "consul", p.name]
      fun c => c.bootstrap.consul.bind (get ∘ p.get) :=
  textAt_bootstrap (BootstrapSettings.whole_parts.textAt (p := BootstrapSettings.parts[5])
    (List.getElem_mem _) (whole_consulParts.textAt hp h _ _).optional _ _)

/-- The decoder of the configuration takes nothing but a text in the place of a text setting. -/
theorem TextSetting.textAt (k : TextSetting) : TextAt Settings.decode k.path k.get := by
  cases k with
  | appName =>
    exact Settings.whole_parts.textAt (p := Settings.parts[0]) (List.getElem_mem _) textAt_text _ _
  | appEnv =>
    exact Settings.whole_parts.textAt (p := Settings.parts[1]) (List.getElem_mem _) textAt_text _ _
  | protocol =>
    exact textAt_storePart (p := StoreSettings.parts[0]) (List.getElem_mem _) textAt_text
  | host =>
    exact textAt_storePart (p := StoreSettings.parts[1]) (List.getElem_mem _) textAt_text
  | basePath =>
    exact textAt_storePart (p := StoreSettings.parts[3]) (List.getElem_mem _) textAt_text
  | nameSpace =>
    exact textAt_storePart (p := StoreSettings.parts[4]) (List.getElem_mem _) textAt_optional_text
  | authToken =>
    exact textAt_storePart (p := StoreSettings.parts[7]) (List.getElem_mem _) textAt_optional_text
  | keyValueMountPoint =>
    exact textAt_keyValuePart (p := keyValueParts[0]) (List.getElem_mem _) textAt_text
  | keyValueVersion =>
    exact textAt_keyValuePart (p := keyValueParts[1]) (List.getElem_mem _) textAt_text
  | consulMountPoint =>
    exact (textAt_consulPart (p := consulParts[0]) (List.getElem_mem _) textAt_text).congr
      fun _ => Option.map_eq_bind.symm
  | consulLeaseTtl =>
    exact (textAt_consulPart (p := consulParts[1]) (List.getElem_mem _) textAt_text).congr
      fun _ => Option.map_eq_bind.symm
  | logLevel =>
    exact Settings.whole_parts.textAt (p := Settings.parts[4]) (List.getElem_mem _)
      (TelemetrySettings.whole_parts.textAt (p := TelemetrySettings.parts[0]) (List.getElem_mem _)
        textAt_text _ _) _ _

/-! ### One value over the other sources -/

/-- The files and the other variables are valid, but for what they have at the end of a path. -/
inductive OtherwiseValid (path : List String) (files others : Setting) : Prop where
  /-- Each of the two is valid by itself. -/
  | each (hf : Settings.decode.Accepts (files.without path))
      (ho : Settings.decode.Accepts (others.without path))
  /-- Together they are valid, and no other variable has anything but a table on the way. -/
  | together (h : Settings.decode.Accepts ((files.merge others).without path))
      (hc : others.Clear path)

namespace TextSetting

variable {files others u : Setting} (k : TextSetting)

/-- A text over the other sources is read as that text. -/
theorem decode_of_text (hf : Tidy files) (ho : Tidy others)
    (h : OtherwiseValid k.path files others) (s : Source) (t : String) :
    ∃ c, Settings.decode
        (files.merge (others.merge (Environment.nest (.text s t) k.path))) = .ok c ∧
      k.get c = some t := by
  cases h with
  | each hf' ho' =>
    obtain ⟨c, hc, -⟩ := k.textAt.merge_nest Settings.lays_decode ho ho' s t
    exact k.textAt.merge Settings.lays_decode hf
      (ho.merge (Environment.tidy_nest (.text s t) k.path)) hf' ⟨c, hc⟩
      (by rw [Environment.at?_merge_nest, overlay_text])
  | together h hclear =>
    rw [merge_merge_nest hf ho hclear]
    exact k.textAt.merge_nest Settings.lays_decode (hf.merge ho) h s t

/-- Anything else over the other sources is what is wrong. -/
theorem decode_of_not_text (hf : Tidy files) (ho : Tidy others)
    (h : OtherwiseValid k.path files others) (hu : Tidy u) (hnot : ∀ s t, u ≠ .text s t) :
    Settings.decode (files.merge (others.merge (Environment.nest u k.path))) =
      .error (notText u k.path) := by
  have hnest := Environment.tidy_nest hu k.path
  obtain ⟨w, hw, hwfound, hwsource⟩ := exists_overlay (others.at? k.path) u
  obtain ⟨o, ho'⟩ := at?_merge (v := files) (ho.merge hnest)
    ((Environment.at?_merge_nest others u k.path).trans hw)
  obtain ⟨w', hw', hfound, hsource⟩ := exists_overlay o w
  rw [hw'] at ho'
  have htext : ∀ s t, w' ≠ .text s t := by
    rintro s t rfl
    rw [hwfound] at hfound
    cases u with
    | text s' t' => exact hnot s' t' rfl
    | null | flag | number | list | table => cases hfound
  have hrefused := k.textAt.refuses (hf.merge (ho.merge hnest)) ho' htext fun hne => ?_
  · rw [hrefused, notText, notText, hfound, hsource, hwfound, hwsource]
  · -- without the value there is as much left as of a text in its place
    obtain ⟨c, hc, -⟩ := k.decode_of_text hf ho h .environment ""
    have htidy := Environment.tidy_nest (.text .environment "") k.path
    have hrest := k.textAt.drops (hf.merge (ho.merge htidy)) ⟨c, hc⟩
    rw [without_merge hf (ho.merge htidy), without_merge ho htidy, without_nest hne _ u] at hrest
    rwa [without_merge hf (ho.merge hnest), without_merge ho hnest]

end TextSetting

/-! ### Loading -/

open Environment in
/-- **Text settings.** The variable of a text setting is set, no variable that is listed behind it
leads through the same place, and the other sources are valid but for what they have there. If its
value stands for a text, then a configuration is loaded that has exactly that text; otherwise the
value is reported to be no text. A value without blanks is loaded as it is exactly if it is plain,
and any text of one line is loaded if it is quoted. -/
theorem load_of_text_variable (k : TextSetting) (s : Surroundings) (directory value : String)
    (before after : List Variable) (common specific : Setting)
    (henv : s.environment = before ++ ⟨k.variableName, value⟩ :: after)
    (hlater : ∀ y ∈ after, ∀ q, levels? y.name = some q → Apart k.path q)
    (hc : layer s (commonFile directory) = .ok common)
    (hs : layer s (environmentFile s directory) = .ok specific)
    (hvalid : OtherwiseValid k.path (common.merge specific) (settings (before ++ after))) :
    (∀ source t, parse value = .text source t →
      ∃ c, load s directory = .ok c ∧ k.get c = some t) ∧
    ((∀ source t, parse value ≠ .text source t) → load s directory =
      .error (.misfit ⟨.type (parse value).found "a string", k.path, .environment⟩)) ∧
    ((∀ c ∈ value.toList, Text.isBlank c = false) →
      ((∃ c, load s directory = .ok c ∧ k.get c = some value) ↔ Plain value)) ∧
    ∀ t, (∀ c ∈ t.toList, Toml.inString c = true) → value = quote t →
      ∃ c, load s directory = .ok c ∧ k.get c = some t := by
  have hfiles : Tidy (common.merge specific) := (tidy_layer hc).1.merge (tidy_layer hs).1
  have hothers : Tidy (settings (before ++ after)) := tidy_settings _
  have hload := load_eq_of_layers hc hs
  rw [henv, settings_eq_merge_nest (x := ⟨k.variableName, value⟩) k.levels?_variableName hlater]
    at hload
  have htext : ∀ source t, parse value = .text source t →
      ∃ c, load s directory = .ok c ∧ k.get c = some t := by
    intro source t ht
    obtain ⟨c, hc, hget⟩ := k.decode_of_text hfiles hothers hvalid source t
    exact ⟨c, by rw [hload, ht, hc], hget⟩
  have hother : (∀ source t, parse value ≠ .text source t) → load s directory =
      .error (.misfit ⟨.type (parse value).found "a string", k.path, .environment⟩) := by
    intro hnot
    rw [hload, k.decode_of_not_text hfiles hothers hvalid (tidy_parse value) hnot, notText,
      source_parse]
  refine ⟨htext, hother, fun hblank => ?_, fun t hline hquote => ?_⟩
  · rw [← parse_eq_text_iff hblank]
    refine ⟨?_, fun hplain => htext .environment value hplain⟩
    rintro ⟨c, hok, hget⟩
    by_cases hsome : ∃ source t, parse value = .text source t
    · obtain ⟨source, t, ht⟩ := hsome
      obtain ⟨c', hok', hget'⟩ := htext source t ht
      have hsource := source_parse value
      rw [ht] at hsource
      cases Except.ok.inj (hok.symm.trans hok')
      rw [ht, Option.some.inj (hget.symm.trans hget'), show source = .environment from hsource]
    · rw [hother fun source t ht => hsome ⟨source, t, ht⟩] at hok
      cases hok
  · refine htext .environment t ?_
    rw [hquote, parse_quote hline]

/-- A host that a variable sets in place of one of the wrong type, beside a port. -/
theorem host_loaded_of_variable :
    let port : Environment.Variable := ⟨"VAULTADM_VAULT__PORT", "9000"⟩
    let s := { surroundingsOf "[vault]\nhost = 1\n" "[vault]\nprotocol = \"https\"\n" port with
      environment := [⟨TextSetting.host.variableName, "vault.internal"⟩, port] }
    TextSetting.host.variableName = "VAULTADM_VAULT__HOST" ∧
    ∃ c, load s "config" = .ok c ∧ TextSetting.host.get c = some "vault.internal" := by
  intro port s
  obtain ⟨common, hc⟩ := exists_layer s (commonFile "config") (by decide +kernel)
  obtain ⟨specific, hs⟩ := exists_layer s (environmentFile s "config") (by decide +kernel)
  have hfiles : ((layOver (layer s (commonFile "config"))
      (layer s (environmentFile s "config"))).toOption.all fun v =>
        (Settings.decode (v.without TextSetting.host.path)).isOk) = true := by decide +kernel
  rw [hc, hs] at hfiles
  have hport : Environment.levels? port.name = some ["vault", "port"] := by decide +kernel
  have hlater : ∀ y ∈ [port], ∀ q, Environment.levels? y.name = some q →
      Environment.Apart TextSetting.host.path q := by
    rintro y hy q hq
    rw [List.mem_singleton.1 hy, hport] at hq
    obtain rfl := Option.some.inj hq
    constructor <;> decide
  exact ⟨by decide +kernel, (load_of_text_variable .host s "config" "vault.internal" [] [port]
    common specific rfl hlater hc hs
    (.each (exists_of_isOk hfiles) (exists_of_isOk (by decide +kernel)))).1 .environment _ rfl⟩

/-- A numeral is a number, and so it is no version of an engine. Another spelling of the same
variable decides if it is listed behind it. -/
theorem version_refused_of_numeral :
    let s := surroundingsOf "" "" ⟨TextSetting.keyValueVersion.variableName, "2"⟩
    let hosts : List Environment.Variable :=
      [⟨TextSetting.host.variableName, "a"⟩, ⟨"vaultadm_vault__host", "b"⟩]
    (load { s with environment := [] } "config").isOk = true ∧
    load s "config" = .error (.misfit
      ⟨.type (.number (.unsigned 2)) "a string", ["bootstrap", "kv", "version"], .environment⟩) ∧
    (load { s with environment := hosts } "config").toOption.map (·.store.host) = some "b" := by
  intro s hosts
  exact ⟨by decide +kernel, by decide +kernel, by decide +kernel⟩

end SecretStore.Config
