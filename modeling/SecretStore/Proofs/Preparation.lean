import SecretStore.Proofs.Config.Layers
import SecretStore.Proofs.Output
import SecretStore.Proofs.Utf8

/-!
# What happens before the store is touched

The documents of the policies are read first, and the certificates are looked at next. Only then is
anything sent.

* `plan_eq_ok_iff`, `plan_eq_error_iff`: a configuration has a plan exactly if each document can be
  read, and otherwise the first one that cannot is the failure.
* `ascending_of_load`: the policies of a configuration that is loaded ascend by the bytes of their
  names.
* `Session.run_prepared`: a run without a plan or without a client sends nothing and prints nothing.
-/

namespace SecretStore

/-! ### Documents -/

namespace Files

variable {files : Files} {path text : String}

theorem readText_eq_ok_iff :
    files.readText path = .ok text ↔ files path = .ok (Bytes.ofString text) := by
  rw [readText]
  cases hf : files path with
  | error e => simp
  | ok bytes =>
    simp only [Except.ok.injEq, ← Bytes.toString?_eq_some_iff]
    cases bytes.toString? <;> simp

end Files

namespace Config

variable {files : Files} {es : List (String × String)} {policies : List Policy}

/-- A policy has the name that is configured, and the text of its document is the whole file. -/
structure DocumentOf (files : Files) (x : String × String) (p : Policy) : Prop where
  name : p.name = x.1
  document : files x.2 = .ok (Bytes.ofString p.document)

/-- The document of a policy can be read. -/
def Readable (files : Files) (x : String × String) : Prop := ∃ p, DocumentOf files x p

theorem readable_iff {x : String × String} :
    Readable files x ↔ ∃ text, files.readText x.2 = .ok text := by
  simp only [Files.readText_eq_ok_iff]
  exact ⟨fun ⟨p, hp⟩ => ⟨p.document, hp.document⟩, fun ⟨text, h⟩ => ⟨⟨x.1, text⟩, rfl, h⟩⟩

theorem not_readable_iff {x : String × String} :
    ¬ Readable files x ↔ ∃ e, files.readText x.2 = .error e := by
  rw [readable_iff]
  cases files.readText x.2 <;> simp

/-- The policies are read exactly if each of them is. -/
theorem readPolicies_eq_ok_iff :
    readPolicies files es = .ok policies ↔ List.Forall₂ (DocumentOf files) es policies := by
  induction es generalizing policies with
  | nil =>
    rw [readPolicies, List.forall₂_nil_left_iff]
    exact ⟨fun h => (Except.ok.inj h).symm, fun h => congrArg _ h.symm⟩
  | cons x es ih =>
    rw [readPolicies, List.forall₂_cons_left_iff]
    constructor
    · intro h
      split at h
      · cases h
      next document hdocument =>
      cases hes : readPolicies files es with
      | error f =>
        rw [hes] at h
        cases h
      | ok ps =>
        rw [hes] at h
        cases h
        exact ⟨_, ps, ⟨rfl, Files.readText_eq_ok_iff.1 hdocument⟩, ih.1 hes, rfl⟩
    · rintro ⟨⟨name, document⟩, ps, ⟨rfl, hdocument⟩, hps, rfl⟩
      simp only [Files.readText_eq_ok_iff.2 hdocument, ih.2 hps]
      rfl

theorem names_of_forall₂ (h : List.Forall₂ (DocumentOf files) es policies) :
    policies.map Policy.name = es.map Prod.fst := by
  induction h with
  | nil => rfl
  | cons hp _ ih => rw [List.map_cons, List.map_cons, hp.name, ih]

/-- The first policy that cannot be read is the failure. -/
theorem readPolicies_eq_error_iff {f : Failure} :
    readPolicies files es = .error f ↔ ∃ before x after e, es = before ++ x :: after ∧
      (∀ y ∈ before, Readable files y) ∧ files.readText x.2 = .error e ∧
      f = unreadable x.1 x.2 e := by
  induction es with
  | nil =>
    rw [readPolicies]
    constructor
    · rintro ⟨⟩
    · rintro ⟨before, x, after, e, hes, -⟩
      simp at hes
  | cons x es ih =>
    rw [readPolicies]
    constructor
    · intro h
      split at h
      · next e he =>
        cases h
        exact ⟨[], x, es, e, rfl, fun _ hy => absurd hy List.not_mem_nil, he, rfl⟩
      next document hdocument =>
      cases hes : readPolicies files es with
      | ok ps =>
        rw [hes] at h
        cases h
      | error f' =>
        rw [hes] at h
        cases h
        obtain ⟨before, y, after, e, rfl, hbefore, he, rfl⟩ := ih.1 hes
        refine ⟨x :: before, y, after, e, rfl, ?_, he, rfl⟩
        exact List.forall_mem_cons.2 ⟨readable_iff.2 ⟨document, hdocument⟩, hbefore⟩
    · rintro ⟨before, y, after, e, hes, hbefore, he, rfl⟩
      cases before with
      | nil =>
        obtain ⟨rfl, rfl⟩ := List.cons.inj hes
        simp only [he]
      | cons z before =>
        obtain ⟨rfl, rfl⟩ := List.cons.inj hes
        obtain ⟨hz, hbefore⟩ := List.forall_mem_cons.1 hbefore
        obtain ⟨text, htext⟩ := readable_iff.1 hz
        simp only [htext, ih.2 ⟨before, y, after, e, rfl, hbefore, he, rfl⟩]
        rfl

/-- The policies can be read exactly if the document of each of them can. -/
theorem exists_readPolicies_iff :
    (∃ policies, readPolicies files es = .ok policies) ↔ ∀ x ∈ es, Readable files x := by
  constructor
  · rintro ⟨policies, h⟩
    have hdocuments := readPolicies_eq_ok_iff.1 h
    clear h
    induction hdocuments with
    | nil => exact fun _ hx => absurd hx List.not_mem_nil
    | cons hp _ ih => exact List.forall_mem_cons.2 ⟨⟨_, hp⟩, ih⟩
  · intro h
    cases hread : readPolicies files es with
    | ok policies => exact ⟨policies, rfl⟩
    | error f =>
      obtain ⟨before, x, after, e, rfl, -, he, -⟩ := readPolicies_eq_error_iff.1 hread
      exact absurd (h x (by simp)) (not_readable_iff.2 ⟨e, he⟩)

/-! ### The plan -/

/-- A plan is the one of a configuration. -/
structure Settings.Planned (s : Settings) (files : Files) (plan : Plan) : Prop where
  policies : List.Forall₂ (DocumentOf files) s.bootstrap.policies plan.policies
  secretShares : plan.secretShares = s.bootstrap.secretShares
  secretThreshold : plan.secretThreshold = s.bootstrap.secretThreshold
  unsealKeys : plan.unsealKeys = s.bootstrap.unsealKeys
  authToken : plan.authToken = s.store.authToken
  keyValue : plan.keyValue = some s.bootstrap.keyValue
  consul : plan.consul = s.bootstrap.consul

variable {s : Settings} {plan : Plan}

theorem Settings.plan_eq_ok_iff : s.plan files = .ok plan ↔ s.Planned files plan := by
  rw [Settings.plan]
  constructor
  · intro h
    cases hread : readPolicies files s.bootstrap.policies with
    | error f =>
      rw [hread] at h
      cases h
    | ok policies =>
      rw [hread] at h
      cases h
      exact ⟨readPolicies_eq_ok_iff.1 hread, rfl, rfl, rfl, rfl, rfl, rfl⟩
  · intro h
    obtain ⟨⟩ := plan
    obtain ⟨hpolicies, hshares, hthreshold, hkeys, htoken, hkeyValue, hconsul⟩ := h
    rw [readPolicies_eq_ok_iff.2 hpolicies, ← hshares, ← hthreshold, ← hkeys, ← htoken,
      ← hkeyValue, ← hconsul]
    rfl

/-- The policies of a plan stand in the order of the bytes of their names. -/
theorem Settings.Planned.ascending (h : s.Planned files plan)
    (ha : Ascending s.bootstrap.policies) :
    (plan.policies.map fun p => Bytes.ofString p.name).Pairwise (· < ·) := by
  have hnames : (plan.policies.map Policy.name).Pairwise (· < ·) := by
    rw [names_of_forall₂ h.policies]
    exact List.pairwise_map.2 ha
  refine List.pairwise_map.2 ((List.pairwise_map.1 hnames).imp fun hlt => ?_)
  exact Bytes.ofString_lt_ofString_iff.2 hlt

/-- There is a plan exactly if the document of each policy can be read. -/
theorem Settings.exists_plan_iff :
    (∃ plan, s.plan files = .ok plan) ↔ ∀ x ∈ s.bootstrap.policies, Readable files x := by
  rw [← exists_readPolicies_iff, Settings.plan]
  cases readPolicies files s.bootstrap.policies <;> simp [Except.map]

/-- Without a plan, the failure is that of the policy with the least name among those that cannot be
read. -/
theorem Settings.plan_eq_error_iff (ha : Ascending s.bootstrap.policies) {f : Failure} :
    s.plan files = .error f ↔ ∃ x ∈ s.bootstrap.policies, ∃ e, files.readText x.2 = .error e ∧
      f = unreadable x.1 x.2 e ∧ ∀ y ∈ s.bootstrap.policies, ¬ Readable files y →
        y = x ∨ Bytes.ofString x.1 < Bytes.ofString y.1 := by
  have hplan : s.plan files = .error f ↔
      readPolicies files s.bootstrap.policies = .error f := by
    rw [Settings.plan]
    cases readPolicies files s.bootstrap.policies <;> simp [Except.map]
  simp only [hplan, readPolicies_eq_error_iff, Bytes.ofString_lt_ofString_iff]
  constructor
  · rintro ⟨before, x, after, e, hes, hbefore, he, rfl⟩
    rw [hes] at ha ⊢
    refine ⟨x, by simp, e, he, rfl, fun y hy hread => ?_⟩
    rcases List.mem_append.1 hy with hy | hy
    · exact absurd (hbefore y hy) hread
    · exact (List.mem_cons.1 hy).imp_right
        (List.rel_of_pairwise_cons (List.pairwise_append.1 ha).2.1)
  · rintro ⟨x, hx, e, he, rfl, hleast⟩
    obtain ⟨before, after, hes⟩ := List.append_of_mem hx
    refine ⟨before, x, after, e, hes, fun y hy => ?_, he, rfl⟩
    -- a name in front of the least one that cannot be read is less
    have hlt : y.1 < x.1 := by
      rw [hes] at ha
      exact (List.pairwise_append.1 ha).2.2 y hy x List.mem_cons_self
    by_contra hread
    rcases hleast y (by rw [hes]; exact List.mem_append_left _ hy) hread with rfl | hgt
    · exact lt_irrefl _ hlt
    · exact lt_irrefl _ (hlt.trans hgt)

/-- The policies of a configuration that is loaded stand in the order of their names. -/
theorem ascending_of_load {surroundings : Surroundings} {directory : String}
    (h : load surroundings directory = .ok s) : Ascending s.bootstrap.policies := by
  obtain ⟨common, specific, hc, hs⟩ : ∃ common specific,
      layer surroundings (commonFile directory) = .ok common ∧
      layer surroundings (environmentFile surroundings directory) = .ok specific := by
    by_contra hnone
    obtain ⟨last, earlier, hfault⟩ : ∃ last earlier,
        load surroundings directory = .error (.files last earlier) :=
      load_of_fault fun v w hv hw => hnone ⟨v, w, hv, hw⟩
    rw [h] at hfault
    cases hfault
  exact ((load_eq_ok_iff hc hs).1 h).bootstrap.policies.ascending

end Config

/-! ### The client -/

namespace Net.HttpClient

variable {p : Primitives} {files : Files} {c : Connection} {e : ClientError}

/-- No file is trusted exactly if one is given that cannot be read or holds no certificate. -/
theorem trusted_eq_error_iff {given : Option String} : trusted p files given = .error e ↔
    ∃ path, given = some path ∧
      ((∃ f, files path = .error f ∧
        e = .setup ("cannot read CA certificate " ++ path ++ ": " ++ f.message)) ∨
      ∃ bytes reason, files path = .ok bytes ∧ p.certificate bytes = .error reason ∧
        e = .setup ("invalid CA certificate " ++ path ++ ": " ++ reason)) := by
  cases given with
  | none => simp [trusted]
  | some path =>
    rw [trusted]
    simp only [Option.some.injEq, exists_eq_left']
    cases files path with
    | error f => simp [eq_comm]
    | ok bytes =>
      simp only [reduceCtorEq, false_and, exists_false, false_or, Except.ok.injEq,
        exists_and_left, exists_eq_left']
      cases p.certificate bytes <;> simp [eq_comm]

theorem exists_trusted_eq_error_iff {given : Option String} :
    (∃ e, trusted p files given = .error e) ↔ ∃ path, given = some path ∧
      ∀ bytes, files path = .ok bytes → ∃ reason, p.certificate bytes = .error reason := by
  simp only [trusted_eq_error_iff]
  constructor
  · rintro ⟨e, path, hpath, ⟨f, hf, rfl⟩ | ⟨bytes, reason, hb, hcheck, rfl⟩⟩
    · exact ⟨path, hpath, fun bytes hb => by cases hf.symm.trans hb⟩
    · refine ⟨path, hpath, fun bytes' hb' => ?_⟩
      obtain rfl := Except.ok.inj (hb.symm.trans hb')
      exact ⟨reason, hcheck⟩
  · rintro ⟨path, hpath, hbad⟩
    cases hfile : files path with
    | error f => exact ⟨_, path, hpath, .inl ⟨f, hfile, rfl⟩⟩
    | ok bytes =>
      obtain ⟨reason, hreason⟩ := hbad bytes hfile
      exact ⟨_, path, hpath, .inr ⟨bytes, reason, hfile, hreason, rfl⟩⟩

/-- There is no client exactly if no file is trusted, or nothing can be sent with the one that
is. -/
theorem ofConnection_eq_error_iff : ofConnection p files c = .error e ↔
    trusted p files c.rootCertificate = .error e ∨
      ∃ file reason, trusted p files c.rootCertificate = .ok file ∧
        p.transport file = .error reason ∧ e = .setup reason := by
  rw [ofConnection]
  cases trusted p files c.rootCertificate with
  | error e' => simp
  | ok file =>
    simp only [reduceCtorEq, Except.ok.injEq, false_or, exists_and_left, exists_eq_left']
    cases p.transport file <;> simp [eq_comm]

/-- Whatever keeps the client back is a fault of the configuration. -/
theorem kind_of_ofConnection (h : ofConnection p files c = .error e) :
    e.toFailure.kind = .config := by
  rcases ofConnection_eq_error_iff.1 h with ht | ⟨file, reason, -, -, rfl⟩
  · obtain ⟨path, -, ⟨f, -, rfl⟩ | ⟨bytes, reason, -, -, rfl⟩⟩ := trusted_eq_error_iff.1 ht
    · rfl
    · rfl
  · rfl

end Net.HttpClient

/-! ### The run -/

namespace Command.Session

open Net Config
open HttpClient (trusted exists_trusted_eq_error_iff ofConnection_eq_error_iff kind_of_ofConnection)

variable {σ : Type} {answer : Message → σ → Option Response × σ} {s : σ} {session : Session}

/-- A run that ends before the store is touched. -/
structure Stops (session : Session) (answer : Message → σ → Option Response × σ) (s : σ)
    (failure : Failure) : Prop where
  nothingSent : (session.run.run answer s).exchanges = []
  untouched : (session.run.run answer s).state = s
  nothingPrinted : (session.run.run answer s).result.stdout = ""
  exitCode : (session.run.run answer s).result.exitCode = failure.exitCode
  told : .provisioningFailed failure ∈ (session.run.run answer s).events

/-- Without a plan nothing is sent, and the client makes no difference. -/
theorem stops_of_plan {failure : Failure}
    (h : session.settings.plan session.files = .error failure) :
    session.Stops answer s failure := by
  have hrun : session.run = .note (.started session.settings.appName session.settings.appEnv)
      (finish (.error ⟨failure, none⟩)) := by
    rw [run, provision, h]
    rfl
  constructor <;> rw [hrun] <;> simp [finish, Interaction.run, Ending.stdout]

/-- Without a client nothing is sent. -/
theorem stops_of_client {plan : Plan} {e : ClientError}
    (hp : session.settings.plan session.files = .ok plan)
    (hc : HttpClient.ofConnection session.primitives session.files
      session.settings.store.connection = .error e) :
    session.Stops answer s e.toFailure := by
  have hrun : session.run = .note (.started session.settings.appName session.settings.appEnv)
      (.note (.clientCreated session.settings.store.connection.baseUrl)
        (finish (.error ⟨e.toFailure, none⟩))) := by
    rw [run, provision, hp]
    simp only [hc]
    rfl
  constructor <;> rw [hrun] <;> simp [finish, Interaction.run, Ending.stdout]

/-- **Local problems come first.** Of a configuration that was loaded, the plan is made of all that
it says and of the whole documents of its policies, in the order of the bytes of their names, if
each document can be read, and the least name whose document cannot is the failure otherwise. There
is no client exactly if the file of certificates cannot be read, or the reader of certificates finds
none in it, or nothing can be sent with what is trusted, whatever the reader and the transport are.
A run without a plan or without a client sends nothing, prints nothing and ends with the exit code
of that failure; that of the plan comes first. -/
theorem run_prepared (session : Session) (surroundings : Surroundings) (directory : String)
    (h : load surroundings directory = .ok session.settings)
    (answer : Message → σ → Option Response × σ) (s : σ) :
    let settings := session.settings
    let files := session.files
    let primitives := session.primitives
    let client := HttpClient.ofConnection primitives files settings.store.connection
    ((∀ x ∈ settings.bootstrap.policies, Readable files x) →
      ∃ plan, settings.plan files = .ok plan ∧ settings.Planned files plan ∧
        (plan.policies.map fun p => Bytes.ofString p.name).Pairwise (· < ·)) ∧
    ((¬ ∀ x ∈ settings.bootstrap.policies, Readable files x) →
      ∃ x ∈ settings.bootstrap.policies, ∃ e, files.readText x.2 = .error e ∧
        settings.plan files = .error (unreadable x.1 x.2 e) ∧
        ∀ y ∈ settings.bootstrap.policies, ¬ Readable files y →
          y = x ∨ Bytes.ofString x.1 < Bytes.ofString y.1) ∧
    (∀ failure, settings.plan files = .error failure →
      failure.kind = .notFound ∧ session.Stops answer s failure) ∧
    ((∃ e, client = .error e) ↔
      (∃ path, settings.store.rootCertificate = some path ∧
        ∀ bytes, files path = .ok bytes → ∃ reason, primitives.certificate bytes = .error reason) ∨
      ∃ file reason, trusted primitives files settings.store.rootCertificate = .ok file ∧
        primitives.transport file = .error reason) ∧
    ∀ plan e, settings.plan files = .ok plan → client = .error e →
      e.toFailure.kind = .config ∧ session.Stops answer s e.toFailure := by
  intro settings files primitives client
  have ha : Ascending settings.bootstrap.policies := ascending_of_load h
  refine ⟨?plan, ?unreadable, ?stopped, ?client, ?refused⟩
  case plan =>
    intro hread
    obtain ⟨plan, hplan⟩ := Settings.exists_plan_iff.2 hread
    have hplanned := Settings.plan_eq_ok_iff.1 hplan
    exact ⟨plan, hplan, hplanned, hplanned.ascending ha⟩
  case unreadable =>
    intro hread
    cases hplan : settings.plan files with
    | ok plan => exact absurd (Settings.exists_plan_iff.1 ⟨plan, hplan⟩) hread
    | error failure =>
      obtain ⟨x, hx, e, he, rfl, hleast⟩ := (Settings.plan_eq_error_iff ha).1 hplan
      exact ⟨x, hx, e, he, rfl, hleast⟩
  case stopped =>
    intro failure hplan
    obtain ⟨x, -, e, -, rfl, -⟩ := (Settings.plan_eq_error_iff ha).1 hplan
    exact ⟨rfl, stops_of_plan hplan⟩
  case client =>
    rw [← exists_trusted_eq_error_iff]
    constructor
    · rintro ⟨e, he⟩
      rcases ofConnection_eq_error_iff.1 he with ht | ⟨file, reason, hfile, hreason, -⟩
      · exact .inl ⟨e, ht⟩
      · exact .inr ⟨file, reason, hfile, hreason⟩
    · rintro (⟨e, ht⟩ | ⟨file, reason, hfile, hreason⟩)
      · exact ⟨e, ofConnection_eq_error_iff.2 (.inl ht)⟩
      · exact ⟨_, ofConnection_eq_error_iff.2 (.inr ⟨file, reason, hfile, hreason, rfl⟩)⟩
  case refused =>
    intro plan e hplan hclient
    exact ⟨kind_of_ofConnection hclient, stops_of_client hplan hclient⟩

/-- Two policies of which one is no text, and certificates that are not there either; and with both
policies, certificates that the reader refuses. -/
theorem run_prepared_of_unreadable :
    let filesWith := fun (reader : Bytes) (rest : List (String × Except FileError Bytes)) =>
      Files.ofList ([("/p/admin.hcl", .ok (Bytes.ofString "path")),
        ("/p/reader.hcl", .ok reader)] ++ rest)
    let broken := filesWith [0xFF] []
    let complete := filesWith (Bytes.ofString "path") [("/ca.pem", .ok [])]
    let refusing : Primitives := ⟨fun _ => none, fun _ => .error "no certificate", fun _ => .ok ()⟩
    let surroundings := surroundingsOf "[vault]\nroot_ca_cert_path = \"/ca.pem\"\n"
      "[bootstrap.policies]\nreader = \"/p/reader.hcl\"\nadmin = \"/p/admin.hcl\"\n"
      ⟨"APP_ENV", "development"⟩
    let settings : Settings :=
      { store := { rootCertificate := some "/ca.pem" }
        bootstrap := { policies := [("admin", "/p/admin.hcl"), ("reader", "/p/reader.hcl")] } }
    let failure := unreadable "reader" "/p/reader.hcl" .notText
    let refused := ClientError.setup "invalid CA certificate /ca.pem: no certificate"
    ∀ primitives filter, load surroundings "config" = .ok settings ∧
      settings.plan broken = .error failure ∧
      Stops ⟨primitives, settings, broken, filter⟩ (fun _ (n : Nat) => (none, n + 1)) 0 failure ∧
      Stops ⟨refusing, settings, complete, filter⟩ (fun _ (n : Nat) => (none, n + 1)) 0
        refused.toFailure := by
  intro filesWith broken complete refusing surroundings settings failure refused primitives filter
  have hload : load surroundings "config" = .ok settings := by decide +kernel
  have hbroken : settings.plan broken = .error failure := by decide +kernel
  obtain ⟨plan, hplan⟩ : ∃ plan, settings.plan complete = .ok plan :=
    exists_of_isOk (by decide +kernel)
  have hclient : HttpClient.ofConnection refusing complete settings.store.connection =
      .error refused := rfl
  obtain ⟨-, -, hstopped, -⟩ :=
    run_prepared ⟨primitives, settings, broken, filter⟩ surroundings "config" hload
      (fun _ (n : Nat) => (none, n + 1)) 0
  obtain ⟨-, -, -, -, hrefused⟩ :=
    run_prepared ⟨refusing, settings, complete, filter⟩ surroundings "config" hload
      (fun _ (n : Nat) => (none, n + 1)) 0
  exact ⟨hload, hbroken, (hstopped failure hbroken).2, (hrefused plan refused hplan hclient).2⟩

end Command.Session

end SecretStore
