import SecretStore.Proofs.Provisioning.Order

/-!
# The parts of a run

A run can be looked at by the kind of its requests: `ofKind` picks the exchanges of one kind. Since
every step of a run sends requests of its own kinds, the exchanges of a kind are those of the step
that sends it.

* `unseals_of_configures`: the key shares of a run, and what they mean for its result;
* `Succeeds`: how a run goes that succeeds, and `succeeds_of_run` that it does go so.
-/

namespace SecretStore.Plan

open Interaction Client

variable {plan : Plan} {token : String} {xs ys : List (Request × Reply)} {kind : Request.Kind}

/-- The exchanges about requests of one kind. -/
def ofKind (kind : Request.Kind) (xs : List (Request × Reply)) : List (Request × Reply) :=
  xs.filter fun x => x.1.kind? = some kind

@[simp] theorem ofKind_append : ofKind kind (xs ++ ys) = ofKind kind xs ++ ofKind kind ys :=
  List.filter_append ..

theorem ofKind_eq_self (h : ∀ x ∈ xs, x.1.kind? = some kind) : ofKind kind xs = xs :=
  List.filter_eq_self.2 fun x hx => decide_eq_true (h x hx)

theorem ofKind_eq_nil {kinds : List (Option Request.Kind)} (h : ∀ x ∈ xs, x.1.kind? ∈ kinds)
    (hk : some kind ∉ kinds) : ofKind kind xs = [] := by
  refine List.filter_eq_nil_iff.2 fun x hx => ?_
  intro hkind
  exact hk (of_decide_eq_true hkind ▸ h x hx)

/-! ### The kinds of each step -/

/-- What a request of the preparation is for. -/
def preparatory : List (Option Request.Kind) := [some .health, some .init]

theorem kind?_of_prepares {v : Except Failure (Health × Option InitMaterial)}
    (h : plan.Prepares xs v) {x : Request × Reply} (hx : x ∈ xs) : x.1.kind? ∈ preparatory := by
  cases h <;> simp only [List.mem_cons, List.not_mem_nil, or_false] at hx
  case failed | fresh =>
    rcases hx with rfl | rfl
    · simp [preparatory]
    · simp [preparatory]
  all_goals
    subst hx
    simp [preparatory]

theorem ofKind_unseals {health : Health} {init : Option InitMaterial} {r : Except Failure Unit}
    (h : plan.Unseals health init xs r) : ofKind .unseal xs = xs :=
  ofKind_eq_self fun _ hx => kind?_of_unseals h hx

theorem ofKind_prepares {v : Except Failure (Health × Option InitMaterial)}
    (h : plan.Prepares xs v) (hk : some kind ∉ preparatory) : ofKind kind xs = [] :=
  ofKind_eq_nil (fun _ hx => kind?_of_prepares h hx) hk

theorem ofKind_administers {v : Except Failure (List String × List String)}
    (h : plan.Administers token xs v) (hk : some kind ∉ administrative) : ofKind kind xs = [] :=
  ofKind_eq_nil (fun _ hx => kind?_of_administers h hx) hk

theorem ofKind_mounts {target : Option Target} {r : Except Failure (List String)}
    (h : Mounts token target xs r) (hk : some kind ∉ [some .listing, some .mount]) :
    ofKind kind xs = [] := by
  have hkinds : ∀ x ∈ xs, x.1.kind? ∈ [some .listing, some .mount] := by
    intro x hx
    simpa using kind?_of_mounts h hx
  exact ofKind_eq_nil hkinds hk

/-! ### The key shares of a run -/

theorem unseals_of_configures {health : Health} {init : Option InitMaterial}
    {c : Except Failure Configured} (h : plan.Configures health init xs c) :
    ∃ v, plan.Unseals health init (ofKind .unseal xs) v ∧
      (∀ f, v = .error f → c = .error f) ∧
      (∀ f, v = .ok () → plan.token init = .error f → c = .error f) := by
  cases h with
  | @stuck us f hu =>
    refine ⟨.error f, by rwa [ofKind_unseals hu], fun _ hf => ?_, nofun⟩
    cases hf
    rfl
  | @tokenless us f hu ht =>
    refine ⟨.ok (), by rwa [ofKind_unseals hu], nofun, fun f' _ ht' => ?_⟩
    cases ht.symm.trans ht'
    rfl
  | @administered us xs token v hu ht ha =>
    refine ⟨.ok (), ?_, nofun, fun f' _ ht' => ?_⟩
    · rwa [ofKind_append, ofKind_unseals hu, ofKind_administers ha (by decide), List.append_nil]
    · cases ht.symm.trans ht'

/-- The engines of a plan, the key/value engine before the Consul engine. -/
def targets (plan : Plan) : List Target := plan.keyValueTarget.toList ++ plan.consulTarget.toList

/-! ### Runs that succeed -/

/-- How a run can go that succeeds: each of its steps does. -/
inductive Succeeds (plan : Plan) : List (Request × Reply) → Outcome → Prop
  | mk {ys us ps ks cs : List (Request × Reply)} {health : Health} {init : Option InitMaterial}
      {token : String} {policies keyValue consul : List String}
      (hp : plan.Prepares ys (.ok (health, init)))
      (hu : plan.Unseals health init us (.ok ()))
      (ht : plan.token init = .ok token)
      (hi : Installs token plan.policies ps (.ok policies))
      (hk : Mounts token plan.keyValueTarget ks (.ok keyValue))
      (hc : Mounts token plan.consulTarget cs (.ok consul)) :
      Succeeds plan (ys ++ (us ++ (ps ++ (ks ++ cs))))
        ⟨health, init, health.isSealed, policies, keyValue ++ consul⟩

theorem succeeds_of_run {o : Outcome} (h : plan.run.Transcript xs (.ok o)) :
    plan.Succeeds xs o := by
  rcases course_of_run h with ⟨f, -, hr⟩ | ⟨ys, zs, health, init, c, rfl, hp, hc, hr⟩
  · cases hr
  cases hc with
  | stuck _ | tokenless _ _ => cases hr
  | administered hu ht ha =>
    cases ha with
    | unpolicied _ | keyValueless _ _ | consulless _ _ _ => cases hr
    | finished hi hk hc =>
      cases hr
      exact .mk hp hu ht hi hk hc

end SecretStore.Plan
