import SecretStore.Proofs.Unsealing
import SecretStore.Provisioning

/-!
# The course of a run

How the steps of `Plan.run` can go. Every step ends the run when it fails, so there is one relation
for each step, between what it exchanges and what it ends with, and one case of it for each way out:

* `Plan.Prepares`: the health check and the initialization;
* `Plan.Unseals`: the submission of key shares, if the store needs them;
* `Plan.Administers`: what needs a token, made up of `Plan.Installs` for the policies and
  `Plan.Mounts` for either engine;
* `Plan.Configures`: everything after the initialization.

`course_of_run` says that a run is prepared and then configured, and that the init material of a
prepared run is part of its result whatever follows.
-/

namespace SecretStore

open Interaction

namespace Workflow

variable {α β : Type} {xs : List (Request × Reply)}

theorem transcript_ofOperation {op : Operation α} {r : Except Failure α} :
    (ofOperation op).run.Transcript xs r ↔
      ∃ v, op.run.Transcript xs v ∧ r = v.mapError ClientError.toFailure := by
  show (op.run.bind fun v => done (v.mapError ClientError.toFailure)).Transcript xs r ↔ _
  simp only [transcript_bind, transcript_done]
  constructor
  · rintro ⟨ys, zs, v, rfl, h, rfl, rfl⟩
    exact ⟨v, by simpa using h, rfl⟩
  · rintro ⟨v, h, rfl⟩
    exact ⟨xs, [], v, by simp, h, rfl, rfl⟩

/-- An operation of which the run needs the value. -/
theorem transcript_ofOperation_bind {op : Operation α} {f : α → Workflow β}
    {r : Except Failure β} :
    (ofOperation op >>= f).run.Transcript xs r ↔
      (∃ e, op.run.Transcript xs (.error e) ∧ r = .error e.toFailure) ∨
        ∃ ys zs a, xs = ys ++ zs ∧ op.run.Transcript ys (.ok a) ∧ (f a).run.Transcript zs r := by
  simp only [transcript_except_bind, transcript_ofOperation]
  constructor
  · rintro (⟨_, ⟨v, h, hv⟩, rfl⟩ | ⟨ys, zs, a, rfl, ⟨v, h, hv⟩, h'⟩)
    · cases v with
      | error e =>
        cases hv
        exact .inl ⟨e, h, rfl⟩
      | ok a => cases hv
    · cases v with
      | error e => cases hv
      | ok b =>
        cases hv
        exact .inr ⟨ys, zs, _, rfl, h, h'⟩
  · rintro (⟨e, h, rfl⟩ | ⟨ys, zs, a, rfl, h, h'⟩)
    · exact .inl ⟨_, ⟨_, h, rfl⟩, rfl⟩
    · exact .inr ⟨ys, zs, a, rfl, ⟨_, h, rfl⟩, h'⟩

theorem transcript_note_bind {e : Log.Event} {f : Unit → Workflow α} {r : Except Failure α} :
    (note e >>= f).run.Transcript xs r ↔ (f ()).run.Transcript xs r :=
  transcript_except_tell_bind

theorem transcript_ofExcept {v r : Except Failure α} :
    (ofExcept v).run.Transcript xs r ↔ xs = [] ∧ r = v :=
  transcript_done

theorem transcript_ofExcept_bind {v : Except Failure α} {f : α → Workflow β}
    {r : Except Failure β} :
    (ofExcept v >>= f).run.Transcript xs r ↔
      (∃ e, v = .error e ∧ xs = [] ∧ r = .error e) ∨
        ∃ a, v = .ok a ∧ (f a).run.Transcript xs r :=
  transcript_except_mk_bind

end Workflow

/-! ### The health check and the initialization -/

namespace Health

theorem isInitialized_ofStatus {n : UInt16} (h : n ∈ [200, 429, 472, 473, 503]) :
    (ofStatus n).isInitialized = true := by
  simp only [List.mem_cons, List.not_mem_nil, or_false] at h
  rcases h with rfl | rfl | rfl | rfl | rfl <;> rfl

theorem mem_of_not_isSealed {n : UInt16} (h : n ∈ [200, 429, 472, 473, 503])
    (hs : (ofStatus n).isSealed = false) : n ∈ [200, 429, 472, 473] := by
  simp only [List.mem_cons, List.not_mem_nil, or_false] at h
  rcases h with rfl | rfl | rfl | rfl | rfl <;> first | decide | cases hs

theorem ofStatus_unclassified {n : UInt16} (h : n ∉ [200, 429, 472, 473, 501, 503]) :
    ofStatus n = unknown n := by
  simp only [List.mem_cons, List.not_mem_nil, or_false, not_or] at h
  obtain ⟨h1, h2, h3, h4, h5, h6⟩ := h
  rw [ofStatus, if_neg h1, if_neg h2, if_neg h3, if_neg h4, if_neg h5, if_neg h6]

end Health

namespace Plan

open Client

variable {plan : Plan} {xs : List (Request × Reply)}

/-- How the steps up to and including the initialization can go. -/
inductive Prepares (plan : Plan) :
    List (Request × Reply) → Except Failure (Health × Option InitMaterial) → Prop
  /-- The health check tells no status. -/
  | unanswered {reply : Reply} {e : ClientError} (he : statusOf reply = .error e) :
      Prepares plan [(healthRequest, reply)] (.error e.toFailure)
  /-- The status means nothing. -/
  | unclassified {reply : Reply} {n : UInt16} (hn : reply.status? = some n)
      (hc : n ∉ [200, 429, 472, 473, 501, 503]) :
      Prepares plan [(healthRequest, reply)] (.error (unknownHealth n))
  /-- The store has been initialized before. -/
  | initialized {reply : Reply} {n : UInt16} (hn : reply.status? = some n)
      (hc : n ∈ [200, 429, 472, 473, 503]) :
      Prepares plan [(healthRequest, reply)] (.ok (.ofStatus n, none))
  /-- The numbers of shares are unusable. -/
  | refused {reply : Reply} (hn : reply.status? = some 501)
      (hv : validShares plan.secretShares plan.secretThreshold = false) :
      Prepares plan [(healthRequest, reply)]
        (.error (sharesRefused plan.secretShares plan.secretThreshold).toFailure)
  /-- The initialization fails. -/
  | failed {reply reply' : Reply} {e : ClientError} (hn : reply.status? = some 501)
      (hv : validShares plan.secretShares plan.secretThreshold = true)
      (he : reply'.material = .error e) :
      Prepares plan
        [(healthRequest, reply), (initRequest plan.secretShares plan.secretThreshold, reply')]
        (.error e.toFailure)
  /-- The store is initialized by this run. -/
  | fresh {reply reply' : Reply} {m : InitMaterial} (hn : reply.status? = some 501)
      (hv : validShares plan.secretShares plan.secretThreshold = true)
      (hm : reply'.material = .ok m) :
      Prepares plan
        [(healthRequest, reply), (initRequest plan.secretShares plan.secretThreshold, reply')]
        (.ok (.notInitialized, some m))

theorem transcript_ensureInitialized_fresh {r : Except Failure (Option InitMaterial)}
    (h : (plan.ensureInitialized .notInitialized).run.Transcript xs r) :
    (validShares plan.secretShares plan.secretThreshold = false ∧ xs = [] ∧
      r = .error (sharesRefused plan.secretShares plan.secretThreshold).toFailure) ∨
    (validShares plan.secretShares plan.secretThreshold = true ∧ ∃ reply : Reply,
      xs = [(initRequest plan.secretShares plan.secretThreshold, reply)] ∧
        r = (reply.material.map some).mapError ClientError.toFailure) := by
  change (Workflow.ofOperation _ >>= _).run.Transcript xs r at h
  rw [Workflow.transcript_ofOperation_bind] at h
  simp only [Workflow.transcript_note_bind, transcript_except_pure] at h
  cases hv : validShares plan.secretShares plan.secretThreshold with
  | false =>
    simp only [transcript_init_refused hv] at h
    rcases h with ⟨e, ⟨rfl, he⟩, rfl⟩ | ⟨_, _, m, _, ⟨_, hm⟩, _⟩
    · cases he
      exact .inl ⟨rfl, rfl, rfl⟩
    · cases hm
  | true =>
    simp only [transcript_init hv] at h
    rcases h with ⟨e, ⟨reply, rfl, he⟩, rfl⟩ | ⟨_, _, m, rfl, ⟨reply, rfl, hm⟩, rfl, rfl⟩
    · exact .inr ⟨rfl, reply, rfl, by rw [← he]; rfl⟩
    · exact .inr ⟨rfl, reply, rfl, by rw [← hm]; rfl⟩

theorem transcript_ensureInitialized_none {health : Health} (hi : health.isInitialized = true)
    {r : Except Failure (Option InitMaterial)} :
    (plan.ensureInitialized health).run.Transcript xs r ↔ xs = [] ∧ r = .ok none := by
  rw [ensureInitialized, if_pos hi, transcript_except_pure]

/-- The transcripts of the preparation. -/
theorem transcript_prepare {r : Except Failure (Health × Option InitMaterial)}
    (h : plan.prepare.run.Transcript xs r) : plan.Prepares xs r := by
  rw [prepare, Workflow.transcript_ofOperation_bind] at h
  simp only [transcript_checkHealth, Workflow.transcript_note_bind] at h
  rcases h with ⟨e, ⟨reply, rfl, he⟩, rfl⟩ | ⟨_, zs, health, rfl, ⟨reply, rfl, hh⟩, h⟩
  · cases hs : statusOf reply with
    | error e' =>
      rw [hs] at he
      cases he
      exact .unanswered hs
    | ok n =>
      rw [hs] at he
      cases he
  · cases hs : statusOf reply with
    | error e' =>
      rw [hs] at hh
      cases hh
    | ok n =>
      rw [hs] at hh
      cases hh
      have hn : reply.status? = some n := statusOf_eq_ok_iff.1 hs
      -- only 501 leads to an initialization, and a status outside the list means nothing
      by_cases hc : n ∈ [200, 429, 472, 473, 503]
      · have hi := Health.isInitialized_ofStatus hc
        -- the match on the state of the store falls through to its last case
        have hrest : (plan.ensureInitialized (.ofStatus n) >>= fun init =>
            pure (Health.ofStatus n, init)).run.Transcript zs r := by
          generalize Health.ofStatus n = health at h hi
          cases health with
          | unknown status => cases hi
          | _ => exact h
        obtain ⟨v, hv, rfl⟩ := transcript_except_bind_pure.1 hrest
        obtain ⟨rfl, rfl⟩ := (transcript_ensureInitialized_none hi).1 hv
        exact .initialized hn hc
      · by_cases h501 : n = 501
        · subst h501
          obtain ⟨v, hi, rfl⟩ := transcript_except_bind_pure.1 h
          rcases transcript_ensureInitialized_fresh hi with
            ⟨hv, rfl, rfl⟩ | ⟨hv, reply', rfl, rfl⟩
          · exact .refused hn hv
          · cases hm : reply'.material with
            | error e => exact .failed hn hv hm
            | ok m => exact .fresh hn hv hm
        · have hu : n ∉ [200, 429, 472, 473, 501, 503] := by
            simp only [List.mem_cons, List.not_mem_nil, or_false, not_or] at hc ⊢
            exact ⟨hc.1, hc.2.1, hc.2.2.1, hc.2.2.2.1, h501, hc.2.2.2.2⟩
          rw [Health.ofStatus_unclassified hu] at h
          obtain ⟨rfl, rfl⟩ := Workflow.transcript_ofExcept.1 h
          exact .unclassified hn hu

/-! ### Unsealing -/

/-- The key shares that a run submits: the fresh ones, or else those of the plan. -/
def shareList (plan : Plan) : Option InitMaterial → List String
  | some m => m.keysBase64
  | none => plan.unsealKeys

/-- How unsealing can go. -/
inductive Unseals (plan : Plan) (health : Health) (init : Option InitMaterial) :
    List (Request × Reply) → Except Failure Unit → Prop
  /-- The store is open. -/
  | needless (hs : health.isSealed = false) : Unseals plan health init [] (.ok ())
  /-- There are no key shares. -/
  | noKeys (hs : health.isSealed = true) (hi : init = none) (hk : plan.unsealKeys = []) :
      Unseals plan health init [] (.error noKeys)
  /-- A submission fails, or the shares run out. -/
  | stuck {xs : List (Request × Reply)} {e : ClientError} (hs : health.isSealed = true)
      (he : (unsealWith (plan.shareList init)).run.Transcript xs (.error e)) :
      Unseals plan health init xs (.error e.toFailure)
  /-- A share opens the store. -/
  | opened {xs : List (Request × Reply)} {report : SealStatus} (hs : health.isSealed = true)
      (hr : (unsealWith (plan.shareList init)).run.Transcript xs (.ok report)) :
      Unseals plan health init xs (.ok ())

theorem unseals_of_unsealWith {health : Health} {init : Option InitMaterial}
    {r : Except Failure Unit} (hs : health.isSealed = true)
    (h : (do let _ ← Workflow.ofOperation (unsealWith (plan.shareList init))
      : Workflow Unit).run.Transcript xs r) :
    plan.Unseals health init xs r := by
  obtain ⟨v, hv, rfl⟩ := transcript_except_bind_pure.1 h
  obtain ⟨w, hw, rfl⟩ := Workflow.transcript_ofOperation.1 hv
  cases w with
  | error e => exact .stuck hs hw
  | ok report => exact .opened hs hw

theorem transcript_unsealStore {health : Health} {init : Option InitMaterial}
    {r : Except Failure Unit} (hs : health.isSealed = true)
    (h : (plan.unsealStore init).run.Transcript xs r) : plan.Unseals health init xs r := by
  cases init with
  | some m => exact unseals_of_unsealWith hs h
  | none =>
    rw [unsealStore] at h
    cases hk : plan.unsealKeys.isEmpty with
    | true =>
      rw [if_pos hk, Workflow.transcript_note_bind] at h
      obtain ⟨rfl, rfl⟩ := Workflow.transcript_ofExcept.1 h
      exact .noKeys hs rfl (List.isEmpty_iff.1 hk)
    | false =>
      rw [if_neg (by simp [hk])] at h
      exact unseals_of_unsealWith hs h

/-! ### Policies and engines -/

/-- How the installation of policies can go. -/
inductive Installs (token : String) :
    List Policy → List (Request × Reply) → Except Failure (List String) → Prop
  | nil : Installs token [] [] (.ok [])
  /-- A policy is refused. -/
  | refused {p : Policy} {rest : List Policy} {e : ClientError} :
      Installs token (p :: rest) [(policyRequest token p.name p.document, .error e)]
        (.error e.toFailure)
  /-- A policy is accepted, and the rest follows. -/
  | accepted {p : Policy} {rest : List Policy} {x : Exchange} {xs : List (Request × Reply)}
      {r : Except Failure (List String)} (hr : Installs token rest xs r) :
      Installs token (p :: rest) ((policyRequest token p.name p.document, .ok x) :: xs)
        (r.map (p.name :: ·))

theorem transcript_installPolicies {token : String} {policies : List Policy}
    {r : Except Failure (List String)}
    (h : (installPolicies token policies).run.Transcript xs r) :
    Installs token policies xs r := by
  induction policies generalizing xs r with
  | nil =>
    obtain ⟨rfl, rfl⟩ := transcript_except_pure.1 h
    exact .nil
  | cons p rest ih =>
    rw [installPolicies, Workflow.transcript_ofOperation_bind] at h
    simp only [transcript_installPolicy, transcript_except_bind_pure] at h
    rcases h with ⟨e, ⟨reply, rfl, he⟩, rfl⟩ | ⟨_, zs, _, rfl, ⟨reply, rfl, ha⟩, v, hv, rfl⟩
    · cases reply with
      | error e' =>
        cases he
        exact .refused
      | ok x => cases he
    · cases reply with
      | error e' => cases ha
      | ok x => exact .accepted (ih hv)

/-- What is to be mounted where, and what the request for it is called. -/
structure Target where
  mountPoint : String
  spec : MountSpec
  operation : String

/-- The request that mounts a target. -/
def Target.request (t : Target) (token : String) : Request :=
  mountRequest token t.mountPoint t.spec t.operation

/-- The key/value engine of a plan. -/
def keyValueTarget (plan : Plan) : Option Target :=
  plan.keyValue.map fun m => ⟨m.mountPoint, .keyValue m.version, "update mounts"⟩

/-- The Consul engine of a plan. -/
def consulTarget (plan : Plan) : Option Target :=
  plan.consul.map fun m => ⟨m.mountPoint, .consul m.defaultLeaseTtl, "update mounts for Consul"⟩

/-- Whether a listing shows a target. -/
def Target.isIn (t : Target) (table : MountTable) : Bool :=
  table.hasEngine t.mountPoint t.spec.engine.name

/-- How the mounting of a target can go. -/
inductive Mounts (token : String) :
    Option Target → List (Request × Reply) → Except Failure (List String) → Prop
  | absent : Mounts token none [] (.ok [])
  /-- There is no listing. -/
  | unlisted {t : Target} {reply : Reply} {e : ClientError} (he : reply.mountTable = .error e) :
      Mounts token (some t) [(listRequest token, reply)] (.error e.toFailure)
  /-- The engine is mounted already. -/
  | present {t : Target} {reply : Reply} {table : MountTable}
      (ht : reply.mountTable = .ok table) (hm : t.isIn table = true) :
      Mounts token (some t) [(listRequest token, reply)] (.ok [])
  /-- The mount is refused. -/
  | refused {t : Target} {reply : Reply} {table : MountTable} {e : ClientError}
      (ht : reply.mountTable = .ok table) (hm : t.isIn table = false) :
      Mounts token (some t) [(listRequest token, reply), (t.request token, .error e)]
        (.error e.toFailure)
  /-- The mount is accepted. -/
  | accepted {t : Target} {reply : Reply} {table : MountTable} {x : Exchange}
      (ht : reply.mountTable = .ok table) (hm : t.isIn table = false) :
      Mounts token (some t) [(listRequest token, reply), (t.request token, .ok x)]
        (.ok [t.mountPoint])

theorem transcript_ensureMounted {token : String} {t : Target} {already : Log.Event}
    {r : Except Failure (List String)}
    (h : (ensureMounted token t.mountPoint t.spec.engine
      (Client.mount token t.mountPoint t.spec t.operation) already).run.Transcript xs r) :
    Mounts token (some t) xs r := by
  rw [ensureMounted, Workflow.transcript_ofOperation_bind] at h
  simp only [transcript_isMounted] at h
  rcases h with ⟨e, ⟨reply, rfl, he⟩, rfl⟩ | ⟨_, zs, mounted, rfl, ⟨reply, rfl, hm⟩, h⟩
  · cases ht : reply.mountTable with
    | error e' =>
      rw [ht] at he
      cases he
      exact .unlisted ht
    | ok table =>
      rw [ht] at he
      cases he
  · cases ht : reply.mountTable with
    | error e' =>
      rw [ht] at hm
      cases hm
    | ok table =>
      rw [ht] at hm
      cases hm
      change (ite (t.isIn table = true) _ _ : Workflow (List String)).run.Transcript zs r at h
      cases hin : t.isIn table with
      | true =>
        rw [if_pos hin, Workflow.transcript_note_bind] at h
        obtain ⟨rfl, rfl⟩ := transcript_except_pure.1 h
        exact .present ht hin
      | false =>
        rw [if_neg (by simp [hin]), transcript_except_bind_pure] at h
        obtain ⟨v, hv, rfl⟩ := h
        obtain ⟨w, hw, rfl⟩ := Workflow.transcript_ofOperation.1 hv
        obtain ⟨reply', rfl, rfl⟩ := transcript_mount.1 hw
        cases reply' with
        | error e => exact .refused ht hin
        | ok x => exact .accepted ht hin

theorem transcript_ensureKeyValue {token : String} {r : Except Failure (List String)}
    (h : (ensureKeyValue token plan.keyValue).run.Transcript xs r) :
    Mounts token plan.keyValueTarget xs r := by
  rw [keyValueTarget]
  cases hk : plan.keyValue with
  | none =>
    rw [hk] at h
    obtain ⟨rfl, rfl⟩ := transcript_except_pure.1 h
    exact .absent
  | some m =>
    rw [hk] at h
    exact transcript_ensureMounted
      (t := ⟨m.mountPoint, .keyValue m.version, "update mounts"⟩) h

theorem transcript_ensureConsul {token : String} {r : Except Failure (List String)}
    (h : (ensureConsul token plan.consul).run.Transcript xs r) :
    Mounts token plan.consulTarget xs r := by
  rw [consulTarget]
  cases hc : plan.consul with
  | none =>
    rw [hc] at h
    obtain ⟨rfl, rfl⟩ := transcript_except_pure.1 h
    exact .absent
  | some m =>
    rw [hc] at h
    exact transcript_ensureMounted
      (t := ⟨m.mountPoint, .consul m.defaultLeaseTtl, "update mounts for Consul"⟩) h

/-- How the steps that need a token can go: the policies, then either engine. -/
inductive Administers (plan : Plan) (token : String) :
    List (Request × Reply) → Except Failure (List String × List String) → Prop
  /-- A policy fails. -/
  | unpolicied {ps : List (Request × Reply)} {f : Failure}
      (hp : Installs token plan.policies ps (.error f)) :
      Administers plan token ps (.error f)
  /-- The key/value engine fails. -/
  | keyValueless {ps ks : List (Request × Reply)} {policies : List String} {f : Failure}
      (hp : Installs token plan.policies ps (.ok policies))
      (hk : Mounts token plan.keyValueTarget ks (.error f)) :
      Administers plan token (ps ++ ks) (.error f)
  /-- The Consul engine fails. -/
  | consulless {ps ks cs : List (Request × Reply)} {policies keyValue : List String} {f : Failure}
      (hp : Installs token plan.policies ps (.ok policies))
      (hk : Mounts token plan.keyValueTarget ks (.ok keyValue))
      (hc : Mounts token plan.consulTarget cs (.error f)) :
      Administers plan token (ps ++ (ks ++ cs)) (.error f)
  /-- Everything is in place. -/
  | finished {ps ks cs : List (Request × Reply)} {policies keyValue consul : List String}
      (hp : Installs token plan.policies ps (.ok policies))
      (hk : Mounts token plan.keyValueTarget ks (.ok keyValue))
      (hc : Mounts token plan.consulTarget cs (.ok consul)) :
      Administers plan token (ps ++ (ks ++ cs)) (.ok (policies, keyValue ++ consul))

theorem transcript_administer {token : String} {sealed : Bool} {r : Except Failure Configured}
    (h : (do
      let policies ← installPolicies token plan.policies
      let keyValue ← ensureKeyValue token plan.keyValue
      let consul ← ensureConsul token plan.consul
      pure ⟨sealed, policies, keyValue ++ consul⟩ : Workflow Configured).run.Transcript xs r) :
    ∃ v, plan.Administers token xs v ∧ r = v.map fun done => ⟨sealed, done.1, done.2⟩ := by
  rw [transcript_except_bind] at h
  rcases h with ⟨f, hp, rfl⟩ | ⟨ps, _, policies, rfl, hp, h⟩
  · exact ⟨_, .unpolicied (transcript_installPolicies hp), rfl⟩
  replace hp := transcript_installPolicies hp
  rw [transcript_except_bind] at h
  rcases h with ⟨f, hk, rfl⟩ | ⟨ks, cs, keyValue, rfl, hk, h⟩
  · exact ⟨_, .keyValueless hp (transcript_ensureKeyValue hk), rfl⟩
  replace hk := transcript_ensureKeyValue hk
  obtain ⟨v, hc, rfl⟩ := transcript_except_bind_pure.1 h
  cases v with
  | error f => exact ⟨_, .consulless hp hk (transcript_ensureConsul hc), rfl⟩
  | ok consul => exact ⟨_, .finished hp hk (transcript_ensureConsul hc), rfl⟩

/-! ### The run -/

/-- How the steps after the initialization can go. -/
inductive Configures (plan : Plan) (health : Health) (init : Option InitMaterial) :
    List (Request × Reply) → Except Failure Configured → Prop
  /-- The store stays sealed. -/
  | stuck {us : List (Request × Reply)} {f : Failure}
      (hu : plan.Unseals health init us (.error f)) : Configures plan health init us (.error f)
  /-- There is no token. -/
  | tokenless {us : List (Request × Reply)} {f : Failure}
      (hu : plan.Unseals health init us (.ok ())) (ht : plan.token init = .error f) :
      Configures plan health init us (.error f)
  /-- The store is open and there is a token. -/
  | administered {us xs : List (Request × Reply)} {token : String}
      {v : Except Failure (List String × List String)}
      (hu : plan.Unseals health init us (.ok ())) (ht : plan.token init = .ok token)
      (ha : plan.Administers token xs v) :
      Configures plan health init (us ++ xs)
        (v.map fun done => ⟨health.isSealed, done.1, done.2⟩)

theorem configure_eq (plan : Plan) (health : Health) (init : Option InitMaterial) :
    plan.configure health init = (do
      (if health.isSealed then plan.unsealStore init else pure () : Workflow Unit)
      let token ← Workflow.ofExcept (plan.token init)
      let policies ← installPolicies token plan.policies
      let keyValue ← ensureKeyValue token plan.keyValue
      let consul ← ensureConsul token plan.consul
      pure ⟨health.isSealed, policies, keyValue ++ consul⟩) := by
  unfold configure
  cases health.isSealed <;> rfl

theorem transcript_unsealing {health : Health} {init : Option InitMaterial}
    {r : Except Failure Unit}
    (h : (if health.isSealed then plan.unsealStore init
      else pure () : Workflow Unit).run.Transcript xs r) : plan.Unseals health init xs r := by
  cases hs : health.isSealed with
  | true =>
    rw [if_pos hs] at h
    exact transcript_unsealStore hs h
  | false =>
    rw [if_neg (by simp [hs])] at h
    obtain ⟨rfl, rfl⟩ := transcript_except_pure.1 h
    exact .needless hs

/-- The transcripts of the steps after the initialization. -/
theorem transcript_configure {health : Health} {init : Option InitMaterial}
    {r : Except Failure Configured} (h : (plan.configure health init).run.Transcript xs r) :
    plan.Configures health init xs r := by
  rw [configure_eq, transcript_except_bind] at h
  rcases h with ⟨f, hu, rfl⟩ | ⟨us, _, _, rfl, hu, h⟩
  · exact .stuck (transcript_unsealing hu)
  replace hu := transcript_unsealing hu
  rw [Workflow.transcript_ofExcept_bind] at h
  rcases h with ⟨f, ht, rfl, rfl⟩ | ⟨token, ht, h⟩
  · rw [List.append_nil]
    exact .tokenless hu ht
  obtain ⟨v, ha, rfl⟩ := transcript_administer h
  exact .administered hu ht ha

/-- A run as its preparation with what follows. -/
theorem run_eq (plan : Plan) :
    plan.run = plan.prepare.run.bind fun
      | .error failure => .done (.error ⟨failure, none⟩)
      | .ok (health, init) =>
        (plan.configure health init).run.bind fun c => .done (conclude health init c) := by
  refine congrArg plan.prepare.run.bind (funext fun v => ?_)
  cases v <;> rfl

/-- A run is prepared and then configured, and in any case ends with the init material that its
preparation made. -/
theorem course_of_run {r : Except RunFailure Outcome} (h : plan.run.Transcript xs r) :
    (∃ f, plan.Prepares xs (.error f) ∧ r = .error ⟨f, none⟩) ∨
      ∃ ys zs health init c, xs = ys ++ zs ∧ plan.Prepares ys (.ok (health, init)) ∧
        plan.Configures health init zs c ∧ r = conclude health init c := by
  obtain ⟨ys, zs, v, rfl, hv, h⟩ := transcript_bind.1 h
  replace hv := transcript_prepare hv
  cases v with
  | error f =>
    obtain ⟨rfl, rfl⟩ := transcript_done.1 h
    rw [List.append_nil]
    exact .inl ⟨f, hv, rfl⟩
  | ok prepared =>
    obtain ⟨health, init⟩ := prepared
    obtain ⟨ws, _, c, rfl, hc, h⟩ := transcript_bind.1 h
    obtain ⟨rfl, rfl⟩ := transcript_done.1 h
    rw [List.append_nil]
    exact .inr ⟨ys, ws, health, init, c, rfl, hv, transcript_configure hc, rfl⟩

/-! ### What the requests are for -/

theorem map_fst_unsealWith {keys : List String} {r : Except ClientError SealStatus}
    (h : (unsealWith keys).run.Transcript xs r) :
    xs.map Prod.fst <+: keys.map unsealRequest := by
  rcases transcript_submitShares (Operation.transcript_note_bind.1 h) with
    ⟨_, _, _, hp, _⟩ | ⟨_, hk, _⟩
  · exact hp
  · exact hk ▸ List.prefix_rfl

theorem map_fst_unseals {health : Health} {init : Option InitMaterial} {r : Except Failure Unit}
    (h : plan.Unseals health init xs r) :
    xs.map Prod.fst <+: (plan.shareList init).map unsealRequest := by
  cases h with
  | needless _ | noKeys _ _ _ => exact List.nil_prefix
  | stuck _ h | opened _ h => exact map_fst_unsealWith h

theorem exists_unsealRequest {keys : List String} (h : xs.map Prod.fst <+: keys.map unsealRequest)
    {x : Request × Reply} (hx : x ∈ xs) : ∃ key, x.1 = unsealRequest key := by
  obtain ⟨key, _, hkey⟩ := List.mem_map.1 (h.subset (List.mem_map_of_mem hx))
  exact ⟨key, hkey.symm⟩

theorem kind?_of_unseals {health : Health} {init : Option InitMaterial} {r : Except Failure Unit}
    (h : plan.Unseals health init xs r) {x : Request × Reply} (hx : x ∈ xs) :
    x.1.kind? = some .unseal := by
  obtain ⟨key, hkey⟩ := exists_unsealRequest (map_fst_unseals h) hx
  rw [hkey, kind?_unsealRequest]

theorem kind?_of_installs {token : String} {policies : List Policy}
    {r : Except Failure (List String)} (h : Installs token policies xs r) {x : Request × Reply}
    (hx : x ∈ xs) : x.1.kind? = some .policy := by
  induction h with
  | nil => cases hx
  | refused =>
    obtain rfl := List.mem_singleton.1 hx
    exact kind?_policyRequest ..
  | accepted _ ih =>
    rcases List.mem_cons.1 hx with rfl | hx
    · exact kind?_policyRequest ..
    · exact ih hx

theorem kind?_of_mounts {token : String} {t : Option Target} {r : Except Failure (List String)}
    (h : Mounts token t xs r) {x : Request × Reply} (hx : x ∈ xs) :
    x.1.kind? = some .listing ∨ x.1.kind? = some .mount := by
  cases h <;> simp only [List.mem_cons, List.not_mem_nil, or_false] at hx
  case unlisted => exact hx ▸ .inl (kind?_listRequest _)
  case present => exact hx ▸ .inl (kind?_listRequest _)
  all_goals
    rcases hx with rfl | rfl
    · exact .inl (kind?_listRequest _)
    · exact .inr (kind?_mountRequest ..)

/-- What a request of the steps that need a token is for. -/
def administrative : List (Option Request.Kind) :=
  [some .policy, some .listing, some .mount]

theorem kind?_of_administers {token : String} {v : Except Failure (List String × List String)}
    (h : plan.Administers token xs v) {x : Request × Reply} (hx : x ∈ xs) :
    x.1.kind? ∈ administrative := by
  have hp {ps r} (h : Installs token plan.policies ps r) (hx : x ∈ ps) :
      x.1.kind? ∈ administrative := by
    simp [administrative, kind?_of_installs h hx]
  have hm {t ms r} (h : Mounts token t ms r) (hx : x ∈ ms) : x.1.kind? ∈ administrative := by
    rcases kind?_of_mounts h hx with hk | hk <;> simp [administrative, hk]
  cases h with
  | unpolicied h => exact hp h hx
  | keyValueless h hk =>
    rcases List.mem_append.1 hx with hx | hx
    · exact hp h hx
    · exact hm hk hx
  | consulless h hk hc | finished h hk hc =>
    simp only [List.mem_append] at hx
    rcases hx with hx | hx | hx
    · exact hp h hx
    · exact hm hk hx
    · exact hm hc hx

theorem kind?_of_configures {health : Health} {init : Option InitMaterial}
    {c : Except Failure Configured} (h : plan.Configures health init xs c)
    {x : Request × Reply} (hx : x ∈ xs) : x.1.kind? ∈ some .unseal :: administrative := by
  cases h with
  | stuck hu | tokenless hu _ => exact List.mem_cons.2 (.inl (kind?_of_unseals hu hx))
  | administered hu ht ha =>
    rcases List.mem_append.1 hx with hx | hx
    · exact List.mem_cons.2 (.inl (kind?_of_unseals hu hx))
    · exact List.mem_cons.2 (.inr (kind?_of_administers ha hx))

theorem kind?_ne_init_of_configures {health : Health} {init : Option InitMaterial}
    {c : Except Failure Configured} (h : plan.Configures health init xs c)
    {x : Request × Reply} (hx : x ∈ xs) : x.1.kind? ≠ some .init := by
  intro hk
  have hc := kind?_of_configures h hx
  rw [hk] at hc
  revert hc
  decide

end Plan

end SecretStore
