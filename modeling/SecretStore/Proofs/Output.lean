import SecretStore.Command
import SecretStore.Proofs.Json.Records
import SecretStore.Proofs.Provisioning.Material

/-!
# What a run prints

Standard output is the only place that the material of a fresh store reaches. `Session.run_output`
says what a run leaves there, whatever the configuration is and whatever the server answers: the
outcome of a run that succeeds, the material of a run that fails after it initialized the store, and
nothing otherwise. The material can be read back from the text that is printed.
-/

namespace SecretStore

open Json (Printable Takes Fills Value)

/-! ### Material as a document -/

namespace InitMaterial

/-- The token of material as a member. -/
def tokenMember (m : InitMaterial) : String × Value := ("root_token", .string m.rootToken)

/-- The shares of material as members. -/
def shareMembers (m : InitMaterial) : List (String × Value) :=
  [("keys", .array (m.keys.map .string)), ("keys_base64", .array (m.keysBase64.map .string))]

theorem fills_tokenMember (m : InitMaterial) {p : Parts} (h : p.rootToken.isSome = false) :
    Fills shape.fields p [m.tokenMember] { p with rootToken := some m.rootToken } :=
  .cons rfl h ((Json.takes_text m.rootToken).map fun s => { p with rootToken := some s }) .nil

theorem fills_shareMembers (m : InitMaterial) {p : Parts} (hk : p.keys.isSome = false)
    (hb : p.keysBase64.isSome = false) :
    Fills shape.fields p m.shareMembers
      { p with keys := some m.keys, keysBase64 := some m.keysBase64 } := by
  have hkeys := (Json.takes_texts m.keys).map fun ks => { p with keys := some ks }
  have hbase := (Json.takes_texts m.keysBase64).map fun ks =>
    { p with keys := some m.keys, keysBase64 := some ks }
  exact .cons rfl hk hkeys (.cons rfl hb hbase .nil)

/-- Material is taken from its document. -/
theorem takes_toJson (m : InitMaterial) : Takes shape.reader m.toJson m :=
  Json.Shape.takes ((m.fills_tokenMember rfl).append (m.fills_shareMembers rfl rfl)) rfl

theorem normalizeItems_texts (ss : List String) :
    Value.normalizeItems (ss.map .string) = ss.map .string := by
  induction ss with
  | nil => rfl
  | cons s ss ih => exact congrArg (.string s :: ·) ih

/-- Sorted by name, the token comes behind the shares. -/
theorem normalize_toJson (m : InitMaterial) :
    m.toJson.normalize = .object (m.shareMembers ++ [m.tokenMember]) := by
  have hkeys : "keys" < "root_token" := by decide
  have hbase : "keys_base64" < "root_token" := by decide
  have hshares : ¬ "keys_base64" < "keys" ∧ "keys_base64" ≠ "keys" := by decide
  simp only [toJson, Value.normalize, Value.normalizeMembers, normalizeItems_texts, Value.sorted,
    List.foldl_cons, List.foldl_nil, Value.insert, if_pos hkeys, if_pos hbase, if_neg hshares.1,
    if_neg hshares.2]
  rfl

/-- Material is taken from its document with sorted members. -/
theorem takes_normalize (m : InitMaterial) : Takes shape.reader m.toJson.normalize m := by
  rw [normalize_toJson]
  exact Json.Shape.takes ((m.fills_shareMembers rfl rfl).append (m.fills_tokenMember rfl)) rfl

end InitMaterial

/-! ### Documents that are printed -/

theorem Json.printable_texts {d : Nat} (ss : List String) :
    Printable (d + 1) (.array (ss.map .string)) := by
  refine .array fun v hv => ?_
  obtain ⟨s, -, rfl⟩ := List.mem_map.1 hv
  exact .string s

theorem InitMaterial.printable_members (m : InitMaterial) {d : Nat} :
    ∀ x ∈ m.tokenMember :: m.shareMembers, Printable (d + 1) x.2 := by
  simp only [shareMembers, List.forall_mem_cons, List.not_mem_nil, false_imp_iff, implies_true,
    and_true]
  exact ⟨.string _, Json.printable_texts _, Json.printable_texts _⟩

theorem InitMaterial.printable_toJson (m : InitMaterial) {d : Nat} :
    Printable (d + 2) m.toJson :=
  .object m.printable_members

theorem InitMaterial.printable_normalize (m : InitMaterial) {d : Nat} :
    Printable (d + 2) m.toJson.normalize := by
  rw [normalize_toJson]
  refine .object fun x hx => m.printable_members x ?_
  simpa [or_comm] using hx

theorem Health.printable_toJson (h : Health) {d : Nat} : Printable (d + 1) h.toJson := by
  cases h with
  | unknown status =>
    have hn : status.toNat ≤ Json.maxCoefficient :=
      Nat.le_trans (Nat.le_of_lt status.toNat_lt) (by decide)
    exact .object (by simpa using Printable.number hn)
  | _ => exact .string _

/-- The member of fresh material in the document of an outcome. -/
def initMember (init : Option InitMaterial) : List (String × Value) :=
  match init with
  | some m => [("init", m.toJson)]
  | none => []

theorem mem_initMember {init : Option InitMaterial} {x : String × Value} :
    x ∈ initMember init ↔ ∃ m, init = some m ∧ x = ("init", m.toJson) := by
  cases init <;> simp [initMember]

theorem Outcome.toJson_eq (o : Outcome) :
    o.toJson = .object (("initial_health", o.initialHealth.toJson) :: (initMember o.init ++
      [("unsealed", .bool o.unsealed),
        ("policies_installed", .array (o.policiesInstalled.map .string)),
        ("engines_enabled", .array (o.enginesEnabled.map .string))])) := rfl

theorem Outcome.printable_toJson (o : Outcome) : Printable 3 o.toJson := by
  rw [toJson_eq]
  refine .object fun x hx => ?_
  simp only [List.mem_cons, List.mem_append, List.not_mem_nil, or_false] at hx
  rcases hx with rfl | hx | rfl | rfl | rfl
  · exact o.initialHealth.printable_toJson
  · obtain ⟨m, -, rfl⟩ := mem_initMember.1 hx
    exact m.printable_toJson
  · exact .bool _
  · exact Json.printable_texts _
  · exact Json.printable_texts _

/-- The outcome has a member for fresh material exactly if there is some. -/
theorem Outcome.member?_init (o : Outcome) :
    o.toJson.member? "init" = o.init.map InitMaterial.toJson := by
  rw [toJson_eq]
  cases o.init with
  | none => rfl
  | some m => rfl

namespace Command

open Interaction Net

variable {σ : Type} {answer : Message → σ → Option Response × σ} {s : σ} {session : Session}
variable {m : InitMaterial}

theorem salvage_eq (m : InitMaterial) : salvage m = .object [("init", m.toJson.normalize)] := rfl

theorem printable_salvage (m : InitMaterial) : Printable 3 (salvage m) := by
  rw [salvage_eq]
  refine .object fun x hx => ?_
  rw [List.mem_singleton.1 hx]
  exact m.printable_normalize

/-- What is printed is read back as the document, if there is one. -/
theorem Ending.parse_stdout {e : Ending} {v : Value} (h : e.document = some v)
    (hv : Printable 3 v) : Value.parse (Bytes.ofString e.stdout) = .ok v := by
  rw [Ending.stdout, h]
  exact Json.parse_pretty hv (by decide)

/-! ### The calls of a session -/

/-- What a client answers to a call while a server answers its messages. -/
def replyOf (client : HttpClient) (answer : Message → σ → Option Response × σ) (q : Request)
    (s : σ) : Reply × σ :=
  (((client.execute q).run answer s).result, ((client.execute q).run answer s).state)

namespace Session

/-- The calls of a session with their replies. Without a plan or without a client there are
none. -/
def calls (session : Session) (answer : Message → σ → Option Response × σ) (s : σ) :
    List (Request × Reply) :=
  let connection := session.settings.store.connection
  match session.settings.plan session.files,
      HttpClient.ofConnection session.primitives session.files connection with
  | .ok plan, .ok client => (plan.run.run (replyOf client answer) s).exchanges
  | _, _ => []

/-- The result of provisioning belongs to the calls that were made, if it came to any. -/
theorem provision_cases (session : Session) (answer : Message → σ → Option Response × σ) (s : σ) :
    let r := (session.provision.run answer s).result
    (∃ failure, r = .error ⟨failure, none⟩ ∧ session.calls answer s = []) ∨
      ∃ plan : Plan, plan.run.Transcript (session.calls answer s) r := by
  intro r
  cases hp : session.settings.plan session.files with
  | error failure =>
    left
    refine ⟨failure, ?_, ?_⟩
    · simp only [r, provision, hp, Interaction.run]
    · simp only [calls, hp]
  | ok plan =>
    cases hc : HttpClient.ofConnection session.primitives session.files
        session.settings.store.connection with
    | error e =>
      left
      refine ⟨e.toFailure, ?_, ?_⟩
      · simp only [r, provision, hp, hc, Interaction.run]
      · simp only [calls, hp, hc]
    | ok client =>
      right
      have hr : r = (plan.run.run (replyOf client answer) s).result := by
        simp only [r, provision, hp, hc, Interaction.run]
        exact (run_expand answer client.execute plan.run s).1
      have hcalls :
          session.calls answer s = (plan.run.run (replyOf client answer) s).exchanges := by
        simp only [calls, hp, hc]
      refine ⟨plan, ?_⟩
      rw [hr, hcalls]
      exact transcript_run (replyOf client answer) plan.run s

/-- A call handed out material. -/
def HandsOut (calls : List (Request × Reply)) (m : InitMaterial) : Prop :=
  ∃ x ∈ calls, x.1.kind? = some .init ∧ x.2.material = .ok m

/-- The material that a session ends with is what one of its calls handed out. -/
theorem materialOf_provision_iff :
    Plan.materialOf (session.provision.run answer s).result = some m ↔
      HandsOut (session.calls answer s) m := by
  rcases session.provision_cases answer s with ⟨failure, hr, hc⟩ | ⟨plan, ht⟩
  · rw [hr, hc]
    simp [Plan.materialOf, HandsOut]
  · constructor
    · intro hm
      obtain ⟨reply, reply', rest, hx, -, hm, -⟩ := Plan.exchanges_of_materialOf ht hm
      rw [hx]
      exact ⟨_, List.mem_cons_of_mem _ List.mem_cons_self, Client.kind?_initRequest .., hm⟩
    · rintro ⟨x, hx, hk, hm⟩
      exact Plan.materialOf_of_mem ht hx hk hm

/-! ### Standard output -/

/-- How a run ends whose provisioning had that result. -/
def endingOf : Except RunFailure Outcome → Ending
  | .ok o => ⟨0, some o.toJson⟩
  | .error e => ⟨e.failure.exitCode, e.init.map salvage⟩

theorem result_finish (r : Except RunFailure Outcome)
    (answer : Message → σ → Option Response × σ) (s : σ) :
    ((finish r).run answer s).result = endingOf r := by
  cases r with
  | ok o => rfl
  | error e => rfl

theorem result_run (session : Session) (answer : Message → σ → Option Response × σ) (s : σ) :
    (session.run.run answer s).result = endingOf (session.provision.run answer s).result := by
  rw [run, Interaction.run, run_bind]
  exact result_finish _ _ _

/-- Whatever the result, its material can be read back from the text that is printed. -/
theorem material_of_stdout {r : Except RunFailure Outcome} (h : Plan.materialOf r = some m) :
    ∃ v w, Value.parse (Bytes.ofString (endingOf r).stdout) = .ok v ∧
      v.member? "init" = some w ∧
      Json.whole InitMaterial.shape.reader (Bytes.ofString w.compact) = .ok m := by
  cases r with
  | ok o =>
    have hinit : o.init = some m := h
    refine ⟨o.toJson, m.toJson, Ending.parse_stdout rfl o.printable_toJson, ?_,
      m.takes_toJson.whole_compact (d := 2) m.printable_toJson⟩
    rw [o.member?_init, hinit]
    rfl
  | error e =>
    have hinit : e.init = some m := h
    refine ⟨salvage m, m.toJson.normalize, Ending.parse_stdout ?_ (printable_salvage m), ?_,
      m.takes_normalize.whole_compact (d := 2) m.printable_normalize⟩
    · rw [endingOf, hinit]
      rfl
    · rw [salvage_eq]
      rfl

/-- **What a run prints.** Whatever the settings of a session are and whatever the server answers,
standard output holds at most one document. A run that succeeds ends with exit code zero and
prints its outcome, with fresh material in it exactly if one of its calls handed some out. A run
that fails ends with the exit code of its failure, which is not zero; it prints an object with the
fresh material and nothing else, or nothing at all if there is none. In each case the material that
a call handed out is what the printed text spells. -/
theorem run_output (session : Session) (answer : Message → σ → Option Response × σ) (s : σ) :
    let out := (session.run.run answer s).result
    let text := Bytes.ofString out.stdout
    let calls := session.calls answer s
    (∀ o, (session.provision.run answer s).result = .ok o →
      out.exitCode = 0 ∧ Value.parse text = .ok o.toJson ∧
      ((o.toJson.member? "init").isSome ↔ ∃ m, HandsOut calls m)) ∧
    (∀ f, (session.provision.run answer s).result = .error f →
      out.exitCode = f.failure.exitCode ∧ out.exitCode ≠ 0 ∧
      ((∃ m, HandsOut calls m) → ∃ w, Value.parse text = .ok (.object [("init", w)])) ∧
      ((¬ ∃ m, HandsOut calls m) → out.stdout = "")) ∧
    ∀ m, HandsOut calls m → ∃ v w, Value.parse text = .ok v ∧ v.member? "init" = some w ∧
      Json.whole InitMaterial.shape.reader (Bytes.ofString w.compact) = .ok m := by
  intro out text calls
  have hout : out = endingOf (session.provision.run answer s).result :=
    result_run session answer s
  have hcalls : ∀ m, Plan.materialOf (session.provision.run answer s).result = some m ↔
      HandsOut calls m := fun _ => materialOf_provision_iff
  refine ⟨?_, ?_, ?_⟩
  · intro o ho
    simp only [ho, Plan.materialOf] at hout hcalls
    refine ⟨by rw [hout]; rfl, ?_, ?_⟩
    · rw [show text = Bytes.ofString out.stdout from rfl, hout]
      exact Ending.parse_stdout rfl o.printable_toJson
    · rw [o.member?_init, Option.isSome_map, Option.isSome_iff_exists]
      exact exists_congr hcalls
  · intro f hf
    simp only [hf, Plan.materialOf] at hout hcalls
    refine ⟨by rw [hout]; rfl, by rw [hout]; exact f.failure.exitCode_ne_zero, ?_, ?_⟩
    · rintro ⟨m, hm⟩
      have hinit : f.init = some m := (hcalls m).2 hm
      refine ⟨m.toJson.normalize, ?_⟩
      rw [show text = Bytes.ofString out.stdout from rfl, hout, ← salvage_eq]
      refine Ending.parse_stdout ?_ (printable_salvage m)
      rw [endingOf, hinit]
      rfl
    · intro hnone
      have hinit : f.init = none := by
        rw [Option.eq_none_iff_forall_ne_some]
        exact fun m hm => hnone ⟨m, (hcalls m).1 hm⟩
      rw [hout, endingOf, hinit]
      rfl
  · intro m hm
    rw [show text = Bytes.ofString out.stdout from rfl, hout]
    exact material_of_stdout ((hcalls m).2 hm)

end Session

end Command

end SecretStore
