import SecretStore.Proofs.Provisioning.Material
import SecretStore.Proofs.Provisioning.Verdict

/-!
# What a run depends on

A plan holds two sets of values of which a run needs one. A fresh store is initialized with the
numbers of shares of the plan, and from then on its own root token and key shares are used; a store
that was initialized before is unsealed and administered with the key shares and the token of the
plan. `run_ignores_irrelevant` says that the other set has no influence at all: two plans that agree
but for it have the same run, against every executor.

* `run_bind_congr`: procedures with the same run, continued in the same way, have the same run.
* `run_forFresh`, `run_forInitialized`: a run is that of the plan without what it does not need.
-/

namespace SecretStore

/-- Only one status stands for a store that is not initialized. -/
theorem Health.eq_of_ofStatus {n : UInt16} (h : ofStatus n = .notInitialized) : n = 501 := by
  grind [ofStatus]

namespace Interaction

variable {Q A E σ α β : Type}

/-- Procedures with the same run, with continuations that have the same run from there. -/
theorem run_bind_congr {answer : Q → σ → A × σ} {t t' : Interaction Q A E α}
    {f f' : α → Interaction Q A E β} {s : σ} (ht : t.run answer s = t'.run answer s)
    (hf : (f (t.run answer s).result).run answer (t.run answer s).state =
      (f' (t.run answer s).result).run answer (t.run answer s).state) :
    (t.bind f).run answer s = (t'.bind f').run answer s := by
  simp only [run_bind]
  rw [← ht, hf]

end Interaction

theorem Workflow.result_ofOperation {σ α : Type} (op : Operation α)
    (answer : Request → σ → Reply × σ) (s : σ) :
    ((ofOperation op).run.run answer s).result =
      (op.run.run answer s).result.mapError ClientError.toFailure := by
  show ((op.run.bind fun r => .done (r.mapError ClientError.toFailure)).run answer s).result = _
  rw [Interaction.run_bind]
  rfl

namespace Plan

open Interaction Client

variable {σ : Type} {answer : Request → σ → Reply × σ} {s : σ} {plan : Plan}

/-- The plan without what only an initialized store needs: key shares and token. -/
def forFresh (plan : Plan) : Plan := { plan with unsealKeys := [], authToken := none }

/-- The plan without what only a fresh store needs: the numbers of its shares. -/
def forInitialized (plan : Plan) : Plan := { plan with secretShares := 0, secretThreshold := 0 }

/-! ### Fresh stores -/

theorem prepare_forFresh : plan.forFresh.prepare = plan.prepare := rfl

/-- Fresh material takes the place of what the plan holds. -/
theorem configure_forFresh (health : Health) (m : InitMaterial) :
    plan.forFresh.configure health (some m) = plan.configure health (some m) := rfl

/-- A preparation that finds the store fresh ends with its material, or fails. -/
theorem exists_material_of_prepare (h : (answer healthRequest s).1.status? = some 501)
    {health : Health} {init : Option InitMaterial}
    (hr : (plan.prepare.run.run answer s).result = .ok (health, init)) : ∃ m, init = some m := by
  have hp := transcript_prepare (transcript_run answer plan.prepare.run s)
  obtain ⟨rest, hx⟩ : ∃ rest, (plan.prepare.run.run answer s).exchanges =
      (healthRequest, (answer healthRequest s).1) :: rest := ⟨_, rfl⟩
  rw [hr, hx] at hp
  rcases hp.status_of_ok with ⟨n, hmem, hn, -⟩ | ⟨-, -, m, hm, -⟩
  · rw [healthStatus_cons, h, Option.some.injEq] at hn
    subst hn
    exact absurd hmem (by decide)
  · exact ⟨m, hm⟩

/-- A run against a fresh store looks at neither key shares nor a token of the plan. -/
theorem run_forFresh (h : (answer healthRequest s).1.status? = some 501) :
    plan.forFresh.run.run answer s = plan.run.run answer s := by
  rw [run_eq, run_eq, prepare_forFresh]
  refine run_bind_congr rfl ?_
  cases hr : (plan.prepare.run.run answer s).result with
  | error failure => rfl
  | ok prepared =>
    obtain ⟨health, init⟩ := prepared
    obtain ⟨m, rfl⟩ := exists_material_of_prepare h hr
    simp only [configure_forFresh]

/-! ### Initialized stores -/

theorem configure_forInitialized (health : Health) (init : Option InitMaterial) :
    plan.forInitialized.configure health init = plan.configure health init := rfl

/-- A health check that does not observe 501 does not find the store fresh. -/
theorem checkHealth_ne_notInitialized (h : (answer healthRequest s).1.status? ≠ some 501) :
    ((Workflow.ofOperation checkHealth).run.run answer s).result ≠ .ok .notInitialized := by
  rw [Workflow.result_ofOperation, (run_checkHealth answer s).1]
  intro hr
  cases hs : statusOf (answer healthRequest s).1 with
  | error e =>
    rw [hs] at hr
    cases hr
  | ok n =>
    rw [hs] at hr
    obtain rfl : n = 501 := Health.eq_of_ofStatus (Except.ok.inj hr)
    exact h (statusOf_eq_ok_iff.1 hs)

/-- Where nothing is to be initialized, the preparation does not look at the numbers of shares. -/
theorem run_prepare_forInitialized (h : (answer healthRequest s).1.status? ≠ some 501) :
    plan.forInitialized.prepare.run.run answer s = plan.prepare.run.run answer s := by
  rw [prepare, prepare, ExceptT.run_bind, ExceptT.run_bind]
  refine run_bind_congr rfl ?_
  have hne := checkHealth_ne_notInitialized h
  cases hr : ((Workflow.ofOperation checkHealth).run.run answer s).result with
  | error failure => rfl
  | ok health =>
    rw [hr] at hne
    cases health with
    | notInitialized => exact absurd rfl hne
    | _ => rfl

/-- Nor does any other step of the run. -/
theorem run_forInitialized (h : (answer healthRequest s).1.status? ≠ some 501) :
    plan.forInitialized.run.run answer s = plan.run.run answer s := by
  rw [run_eq, run_eq]
  refine run_bind_congr (run_prepare_forInitialized h) ?_
  simp only [configure_forInitialized]

/-- **What a run depends on.** Every run begins with the health check. If it observes 501, two plans
that agree but for their key shares and their tokens have the same run: the same requests with the
same tokens and bodies, the same replies, the same log and the same result. If it observes anything
else, two plans that agree but for their numbers of shares have the same run. -/
theorem run_ignores_irrelevant (plan plan' : Plan) (answer : Request → σ → Reply × σ) (s : σ) :
    let reply := (answer healthRequest s).1
    (plan.run.run answer s).exchanges.head? = some (healthRequest, reply) ∧
    (reply.status? = some 501 → plan.forFresh = plan'.forFresh →
      plan.run.run answer s = plan'.run.run answer s) ∧
    (reply.status? ≠ some 501 → plan.forInitialized = plan'.forInitialized →
      plan.run.run answer s = plan'.run.run answer s) := by
  intro reply
  refine ⟨rfl, ?_, ?_⟩
  · intro hn hplan
    rw [← run_forFresh hn, hplan, run_forFresh hn]
  · intro hn hplan
    rw [← run_forInitialized hn, hplan, run_forInitialized hn]

end Plan

end SecretStore
