import SecretStore.Proofs.Provisioning.Course
import SecretStore.Proofs.View

/-!
# Secrets stay in requests

The token, the key shares and the policy documents of a plan go into requests and nowhere else. An
`Outline` is what shows of a request without its token and its body, and a plan without its secrets
is `Plan.veiled`. `run_hides_secrets` says that no secret of a plan can be told from the outlines of
a run, from its log or from its result, if the replies were given in ignorance of the secrets.

Each operation and each step of a run has a lemma `alike_…` here: with other secrets the same shows
of it. `viewed_run_veiled` puts them together.
-/

namespace SecretStore

open Interaction

/-- What shows of a request: all but its token and its body. -/
structure Request.Outline where
  method : String
  path : String
  operation : String
  expectedStatus : UInt16
  deriving DecidableEq

/-- The outline of a request. -/
def Request.outline (r : Request) : Request.Outline :=
  ⟨r.method, r.path, r.operation, r.expectedStatus⟩

/-- The texts that stand in the place of secrets. -/
def veil (secrets : List String) : List String := secrets.map fun _ => ""

theorem length_veil (secrets : List String) : (veil secrets).length = secrets.length :=
  List.length_map _

theorem veil_eq_of_length {secrets secrets' : List String}
    (h : secrets.length = secrets'.length) : veil secrets = veil secrets' := by
  rw [veil, veil, List.map_const', List.map_const', h]

/-! ### Operations -/

namespace Client

variable {token token' : String}

theorem alike_send {q q' : Request} (h : q.outline = q'.outline) :
    Alike Request.outline (Operation.send q) (Operation.send q') :=
  .query h

theorem alike_installPolicy (token token' name document document' : String) :
    Alike Request.outline (installPolicy token name document)
      (installPolicy token' name document') :=
  .bind (alike_send rfl) fun _ => .refl _

theorem alike_mount (token token' mountPoint : String) (m : MountSpec) (operation : String) :
    Alike Request.outline (mount token mountPoint m operation)
      (mount token' mountPoint m operation) :=
  .bind (alike_send rfl) fun _ => .refl _

theorem alike_isMounted (token token' mountPoint engineType : String) :
    Alike Request.outline (isMounted token mountPoint engineType)
      (isMounted token' mountPoint engineType) :=
  .bind (.bind (alike_send rfl) fun _ => .refl _) fun _ => .refl _

theorem alike_submitShare (key key' : String) :
    Alike Request.outline (submitShare key) (submitShare key') :=
  .bind (alike_send rfl) fun _ => .refl _

/-- The loop over the shares goes by their replies and not by what they are. -/
theorem alike_submitShares (total : Nat) (keys : List String) (p : UnsealProgress) :
    Alike Request.outline (submitShares total keys p) (submitShares total (veil keys) p) := by
  induction keys generalizing p with
  | nil => exact .refl _
  | cons key keys ih =>
    refine .bind (.lift_run (alike_submitShare key "")) fun reply => ?_
    cases reply with
    | error e => exact .refl _
    | ok report =>
      refine .bind (.refl _) fun _ => ?_
      cases p.advance report with
      | unsealed applied report => exact .refl _
      | sealed applied progress threshold => exact ih _

theorem alike_unsealWith (keys : List String) :
    Alike Request.outline (unsealWith keys) (unsealWith (veil keys)) := by
  rw [unsealWith, unsealWith, length_veil]
  exact .bind (.refl _) fun _ => alike_submitShares _ keys _

end Client

/-! ### Steps of a run -/

theorem Workflow.alike_ofOperation {α : Type} {op op' : Operation α}
    (h : Alike Request.outline op op') :
    Alike Request.outline (ofOperation op) (ofOperation op') := by
  show (op.run.bind fun r => .done (r.mapError ClientError.toFailure)).viewed Request.outline =
    (op'.run.bind fun r => .done (r.mapError ClientError.toFailure)).viewed Request.outline
  rw [viewed_bind, viewed_bind, show op.run.viewed _ = op'.run.viewed _ from h]

/-- The policy without its document. -/
def Policy.veiled (p : Policy) : Policy := { p with document := "" }

namespace Plan

open Client Workflow

variable {σ : Type} {plan : Plan}

/-- The plan without its secrets. It shows how many key shares there are and whether there is a
token. -/
def veiled (plan : Plan) : Plan :=
  { plan with
    unsealKeys := veil plan.unsealKeys
    authToken := plan.authToken.map fun _ => ""
    policies := plan.policies.map Policy.veiled }

theorem alike_installPolicies (token token' : String) (policies : List Policy) :
    Alike Request.outline (installPolicies token policies)
      (installPolicies token' (policies.map Policy.veiled)) := by
  induction policies with
  | nil => exact .refl _
  | cons p rest ih =>
    exact .bind (alike_ofOperation (alike_installPolicy ..)) fun _ => .bind ih fun _ => .refl _

theorem alike_ensureMounted (token token' mountPoint : String) {engine : Engine}
    {mount mount' : Operation Unit} {already : Log.Event}
    (h : Alike Request.outline mount mount') :
    Alike Request.outline (ensureMounted token mountPoint engine mount already)
      (ensureMounted token' mountPoint engine mount' already) := by
  refine .bind (alike_ofOperation (alike_isMounted ..)) fun mounted => ?_
  cases mounted with
  | true => exact .refl _
  | false => exact .bind (alike_ofOperation h) fun _ => .refl _

theorem alike_ensureKeyValue (token token' : String) (m : Option KeyValueMount) :
    Alike Request.outline (ensureKeyValue token m) (ensureKeyValue token' m) := by
  cases m with
  | none => exact .refl _
  | some m => exact alike_ensureMounted _ _ _ (alike_mount ..)

theorem alike_ensureConsul (token token' : String) (m : Option ConsulMount) :
    Alike Request.outline (ensureConsul token m) (ensureConsul token' m) := by
  cases m with
  | none => exact .refl _
  | some m => exact alike_ensureMounted _ _ _ (alike_mount ..)

theorem alike_unsealStore (plan : Plan) (init : Option InitMaterial) :
    Alike Request.outline (plan.unsealStore init) (plan.veiled.unsealStore init) := by
  cases init with
  | some m => exact .refl _
  | none =>
    have hempty : plan.veiled.unsealKeys.isEmpty = plan.unsealKeys.isEmpty := List.isEmpty_map
    rw [unsealStore, unsealStore, hempty]
    cases plan.unsealKeys.isEmpty with
    | true => exact .refl _
    | false => exact .bind (alike_ofOperation (alike_unsealWith _)) fun _ => .refl _

/-- The steps that need a token take the same course with any other. -/
theorem alike_administer (plan : Plan) (token token' : String) (sealed : Bool) :
    Alike Request.outline
      (do
        let policies ← installPolicies token plan.policies
        let keyValue ← ensureKeyValue token plan.keyValue
        let consul ← ensureConsul token plan.consul
        pure ⟨sealed, policies, keyValue ++ consul⟩ : Workflow Configured)
      (do
        let policies ← installPolicies token' plan.veiled.policies
        let keyValue ← ensureKeyValue token' plan.keyValue
        let consul ← ensureConsul token' plan.consul
        pure ⟨sealed, policies, keyValue ++ consul⟩) :=
  .bind (alike_installPolicies ..) fun _ => .bind (alike_ensureKeyValue ..) fun _ =>
    .bind (alike_ensureConsul ..) fun _ => .refl _

/-- Whether there is a token shows, and what it is does not. -/
theorem token_veiled (plan : Plan) (init : Option InitMaterial) :
    (∃ f, plan.token init = .error f ∧ plan.veiled.token init = .error f) ∨
      ∃ token token', plan.token init = .ok token ∧ plan.veiled.token init = .ok token' := by
  cases init with
  | some m => exact .inr ⟨m.rootToken, m.rootToken, rfl, rfl⟩
  | none =>
    cases h : plan.authToken with
    | none => exact .inl ⟨noToken, by simp [token, h], by simp [token, veiled, h]⟩
    | some t => exact .inr ⟨t, "", by simp [token, h], by simp [token, veiled, h]⟩

theorem alike_configure (plan : Plan) (health : Health) (init : Option InitMaterial) :
    Alike Request.outline (plan.configure health init) (plan.veiled.configure health init) := by
  rw [configure_eq, configure_eq]
  refine .bind ?_ fun _ => ?_
  · cases health.isSealed with
    | true => exact alike_unsealStore plan init
    | false => exact .refl _
  · rcases plan.token_veiled init with ⟨f, h, h'⟩ | ⟨token, token', h, h'⟩
    · rw [h, h']
      exact .refl _
    · rw [h, h']
      exact alike_administer plan token token' health.isSealed

theorem prepare_veiled (plan : Plan) : plan.veiled.prepare = plan.prepare := rfl

/-- The same shows of a run whatever the secrets of its plan are. -/
theorem viewed_run_veiled (plan : Plan) :
    plan.veiled.run.viewed Request.outline = plan.run.viewed Request.outline := by
  rw [run_eq, run_eq, viewed_bind, viewed_bind, prepare_veiled]
  refine congrArg (plan.prepare.run.viewed Request.outline).bind (funext fun v => ?_)
  cases v with
  | error failure => rfl
  | ok prepared =>
    obtain ⟨health, init⟩ := prepared
    have hc : (plan.configure health init).run.viewed Request.outline =
        (plan.veiled.configure health init).run.viewed Request.outline :=
      alike_configure plan health init
    simp only [viewed_bind, hc]

/-- **Secrets stay in requests.** Let an executor answer by the outlines of the requests alone, as
one does that reads its replies off a script. Two plans that agree but for the characters of their
token, of their key shares and of their policy documents then have runs with the same result, down
to the text of a failure, and the same log, and they send requests with the same outlines, which
get the same replies. Unsealing with as many key shares of other contents ends with the same value
or error. -/
theorem run_hides_secrets (reply : Request.Outline → σ → Reply × σ) (s : σ) (plan plan' : Plan)
    (h : plan.veiled = plan'.veiled) :
    let executor := blind Request.outline reply
    let out := plan.run.run executor s
    let out' := plan'.run.run executor s
    out.result = out'.result ∧ out.events = out'.events ∧
      out.exchanges.map (fun x => (x.1.outline, x.2)) =
        out'.exchanges.map (fun x => (x.1.outline, x.2)) ∧
      ∀ keys keys' : List String, keys.length = keys'.length →
        ((unsealWith keys).run.run executor s).result =
          ((unsealWith keys').run.run executor s).result := by
  intro executor out out'
  have hplans : plan.run.viewed Request.outline = plan'.run.viewed Request.outline := by
    rw [← viewed_run_veiled, h, viewed_run_veiled]
  obtain ⟨hresult, hexchanges, hevents, -⟩ :=
    Run.viewed_eq_iff.1 (viewed_run_congr hplans reply s)
  refine ⟨hresult, hevents, hexchanges, ?_⟩
  intro keys keys' hlength
  have hkeys : Alike Request.outline (unsealWith keys) (unsealWith keys') := by
    have hveil := alike_unsealWith keys
    rw [veil_eq_of_length hlength] at hveil
    exact hveil.trans (alike_unsealWith keys').symm
  exact (Run.viewed_eq_iff.1 (viewed_run_congr hkeys reply s)).1

/-- Replies read off a script, the first one first, whatever is asked. -/
def scripted (o : Request.Outline) : List Reply → Reply × List Reply
  | [] => (.error (.noResponse o.operation "script exhausted"), [])
  | reply :: rest => (reply, rest)

/-- A plan for a sealed store, with a policy and these secrets. -/
def holding (token key key' document : String) : Plan where
  secretShares := 1
  secretThreshold := 1
  unsealKeys := [key, key']
  authToken := some token
  policies := [⟨"reader", document⟩]
  keyValue := none
  consul := none

theorem run_hides_secrets_of_scripted :
    let script : List Reply := [.error (.unexpectedStatus "health check" 200 503 []),
      .ok ⟨"unseal secret store", 200, Bytes.ofString "\x7b\"sealed\": false\x7d"⟩,
      .error (.unexpectedStatus "install policy" 204 403 ["permission denied"])]
    let plan := holding "s.token" "first" "second" "path"
    let plan' := holding "" "1" "2" "deny"
    plan.veiled = plan'.veiled ∧
      (plan.run.run (blind Request.outline scripted) script).result =
        (plan'.run.run (blind Request.outline scripted) script).result := by
  intro script plan plan'
  have h : plan.veiled = plan'.veiled := rfl
  exact ⟨h, (run_hides_secrets scripted script plan plan' h).1⟩

end Plan

end SecretStore
