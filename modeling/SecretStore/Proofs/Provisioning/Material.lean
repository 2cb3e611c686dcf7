import SecretStore.Proofs.Provisioning.Course

/-!
# Init material is kept

The root token and key shares of a fresh store exist nowhere but in the reply to its
initialization. `run_material` says that a run ends with exactly the material that its call of
`Client.init` answered, however it ends, and that such a run sent one request for it, right after
a health check that found the store not initialized.
-/

namespace SecretStore.Plan

open Interaction Client

variable {σ : Type} {plan : Plan} {xs : List (Request × Reply)}

/-- The init material in the result of a run. -/
def materialOf : Except RunFailure Outcome → Option InitMaterial
  | .ok o => o.init
  | .error f => f.init

theorem materialOf_conclude (health : Health) (init : Option InitMaterial)
    (c : Except Failure Configured) : materialOf (conclude health init c) = init := by
  cases c <;> rfl

/-! ### The calls of a run -/

theorem run_checkHealth (answer : Request → σ → Reply × σ) (s : σ) :
    (checkHealth.run.run answer s).result =
        (statusOf (answer healthRequest s).1).map Health.ofStatus ∧
      (checkHealth.run.run answer s).state = (answer healthRequest s).2 := by
  obtain ⟨reply, hx, hr⟩ := transcript_checkHealth.1 (transcript_run answer checkHealth.run s)
  have he := exchanges_eq_recite answer checkHealth.run s
  rw [hx] at he
  obtain rfl : reply = (answer healthRequest s).1 := by simpa [recite] using he
  refine ⟨hr, ?_⟩
  rw [state_eq_foldl, hx]
  rfl

theorem run_init {shares threshold : UInt32} (answer : Request → σ → Reply × σ) (s : σ)
    (hv : validShares shares threshold = true) :
    ((Client.init shares threshold).run.run answer s).result =
      (answer (initRequest shares threshold) s).1.material := by
  obtain ⟨reply, hx, hr⟩ :=
    (transcript_init hv).1 (transcript_run answer (Client.init shares threshold).run s)
  have he := exchanges_eq_recite answer (Client.init shares threshold).run s
  rw [hx] at he
  obtain rfl : reply = (answer (initRequest shares threshold) s).1 := by simpa [recite] using he
  exact hr

theorem run_init_refused {shares threshold : UInt32} (answer : Request → σ → Reply × σ) (s : σ)
    (hv : validShares shares threshold = false) :
    ((Client.init shares threshold).run.run answer s).result =
      .error (sharesRefused shares threshold) :=
  ((transcript_init_refused hv).1
    (transcript_run answer (Client.init shares threshold).run s)).2

/-- The preparation ends with fresh material exactly if the store was not initialized and the
initialization handed it out. -/
theorem Prepares.material_iff {answer : Request → σ → Reply × σ} {s : σ}
    {v : Except Failure (Health × Option InitMaterial)} (h : plan.Prepares xs v)
    (hx : xs = recite answer (xs.map Prod.fst) s) (m : InitMaterial) :
    let health := checkHealth.run.run answer s
    let init := (Client.init plan.secretShares plan.secretThreshold).run.run answer health.state
    (∃ health, v = .ok (health, some m)) ↔
      health.result = .ok .notInitialized ∧ init.result = .ok m := by
  intro health init
  obtain ⟨hh, hs⟩ : health.result = _ ∧ health.state = _ := run_checkHealth answer s
  cases h with
  | @unanswered reply e he =>
    obtain rfl : reply = (answer healthRequest s).1 := by simpa [recite] using hx
    rw [hh, he]
    simp [Except.map]
  | @unclassified reply n hn hc =>
    obtain rfl : reply = (answer healthRequest s).1 := by simpa [recite] using hx
    rw [hh, statusOf_eq_ok_iff.2 hn]
    simp [Except.map, Health.ofStatus_unclassified hc]
  | @initialized reply n hn hc =>
    obtain rfl : reply = (answer healthRequest s).1 := by simpa [recite] using hx
    rw [hh, statusOf_eq_ok_iff.2 hn]
    have hne : Health.ofStatus n ≠ .notInitialized := by
      intro heq
      have hi := Health.isInitialized_ofStatus hc
      rw [heq] at hi
      cases hi
    simp [Except.map, hne]
  | refused hn hv =>
    have hi : init.result = _ := run_init_refused answer health.state hv
    simp [hi]
  | @failed reply reply' e hn hv he =>
    obtain ⟨rfl, rfl⟩ : reply = (answer healthRequest s).1 ∧ reply' = _ := by
      simpa [recite] using hx
    have hi : init.result = _ := run_init answer health.state hv
    rw [hi, hs, he]
    simp
  | @fresh reply reply' m' hn hv hm =>
    obtain ⟨rfl, rfl⟩ : reply = (answer healthRequest s).1 ∧ reply' = _ := by
      simpa [recite] using hx
    have hi : init.result = _ := run_init answer health.state hv
    rw [hh, statusOf_eq_ok_iff.2 hn, hi, hs, hm]
    simp [Except.map, Health.ofStatus]

theorem Prepares.fresh_of_some {health : Health} {m : InitMaterial}
    (h : plan.Prepares xs (.ok (health, some m))) :
    ∃ reply reply' : Reply,
      xs = [(healthRequest, reply),
        (initRequest plan.secretShares plan.secretThreshold, reply')] ∧
      reply.status? = some 501 ∧ reply'.material = .ok m := by
  cases h with
  | fresh hn hv hm => exact ⟨_, _, rfl, hn, hm⟩

theorem Prepares.some_of_mem {v : Except Failure (Health × Option InitMaterial)}
    (h : plan.Prepares xs v) {x : Request × Reply} (hx : x ∈ xs) (hk : x.1.kind? = some .init)
    {m : InitMaterial} (hm : x.2.material = .ok m) : ∃ health, v = .ok (health, some m) := by
  have hhealth {reply : Reply} (hx : x = (healthRequest, reply)) : False := by
    rw [hx, kind?_healthRequest] at hk
    cases hk
  cases h with
  | unanswered _ | unclassified _ _ | initialized _ _ | refused _ _ =>
    exact (hhealth (List.mem_singleton.1 hx)).elim
  | failed hn hv he =>
    rcases List.mem_cons.1 hx with hx | hx
    · exact (hhealth hx).elim
    · rw [List.mem_singleton.1 hx, he] at hm
      cases hm
  | fresh hn hv hm' =>
    rcases List.mem_cons.1 hx with hx | hx
    · exact (hhealth hx).elim
    · rw [List.mem_singleton.1 hx, hm'] at hm
      cases hm
      exact ⟨_, rfl⟩

/-! ### The material of a run -/

/-- The preparation alone decides about the material, since it is part of the result whatever
follows. -/
theorem materialOf_run_iff (answer : Request → σ → Reply × σ) (s : σ) (m : InitMaterial) :
    let health := checkHealth.run.run answer s
    let init := (Client.init plan.secretShares plan.secretThreshold).run.run answer health.state
    materialOf (plan.run.run answer s).result = some m ↔
      health.result = .ok .notInitialized ∧ init.result = .ok m := by
  have hx := exchanges_eq_recite answer plan.run s
  rcases course_of_run (transcript_run answer plan.run s) with
    ⟨f, hp, hr⟩ | ⟨ys, zs, h, i, c, hxs, hp, hc, hr⟩
  · refine Iff.trans ?_ (hp.material_iff hx m)
    simp [hr, materialOf]
  · rw [hxs] at hx
    refine Iff.trans ?_ (hp.material_iff (eq_recite_of_append hx) m)
    simp [hr, materialOf_conclude]

/-- Material that is handed out is in the result. -/
theorem materialOf_of_mem {r : Except RunFailure Outcome} (h : plan.run.Transcript xs r)
    {x : Request × Reply} (hx : x ∈ xs) (hk : x.1.kind? = some .init) {m : InitMaterial}
    (hm : x.2.material = .ok m) : materialOf r = some m := by
  rcases course_of_run h with ⟨f, hp, rfl⟩ | ⟨ys, zs, health, i, c, rfl, hp, hc, rfl⟩
  · obtain ⟨health, hv⟩ := hp.some_of_mem hx hk hm
    cases hv
  rw [materialOf_conclude]
  rcases List.mem_append.1 hx with hx | hx
  · obtain ⟨health, hv⟩ := hp.some_of_mem hx hk hm
    cases hv
    rfl
  -- after the preparation nothing is initialized
  · exact (kind?_ne_init_of_configures hc hx hk).elim

/-- Material in the result was handed out, by the only initialization of the run. -/
theorem exchanges_of_materialOf {r : Except RunFailure Outcome} (h : plan.run.Transcript xs r)
    {m : InitMaterial} (hm : materialOf r = some m) :
    ∃ (reply reply' : Reply) (rest : _),
      xs = (healthRequest, reply) ::
        (initRequest plan.secretShares plan.secretThreshold, reply') :: rest ∧
      reply.status? = some 501 ∧ reply'.material = .ok m ∧
      ∀ x ∈ rest, x.1.kind? ≠ some .init := by
  rcases course_of_run h with ⟨f, hp, rfl⟩ | ⟨ys, zs, health, i, c, rfl, hp, hc, rfl⟩
  · cases hm
  rw [materialOf_conclude] at hm
  subst hm
  obtain ⟨reply, reply', rfl, hn, hm⟩ := hp.fresh_of_some
  exact ⟨reply, reply', zs, rfl, hn, hm, fun x hx => kind?_ne_init_of_configures hc hx⟩

/-- **Init material is never lost and never invented.** However a run ends, the material in its
result is what its call of `Client.init`, made after a health check that found the store not
initialized, answered; in particular there is none if either call fails. A run with material sent
exactly one request for it, after a health check of status 501, and the reply decodes to it. -/
theorem run_material (plan : Plan) (answer : Request → σ → Reply × σ) (s : σ) :
    let health := checkHealth.run.run answer s
    let init := (Client.init plan.secretShares plan.secretThreshold).run.run answer health.state
    let out := plan.run.run answer s
    (∀ m, materialOf out.result = some m ↔
      health.result = .ok .notInitialized ∧ init.result = .ok m) ∧
    ((∃ e, health.result = .error e) ∨ (∃ e, init.result = .error e) →
      materialOf out.result = none) ∧
    (∀ x ∈ out.exchanges, x.1.kind? = some .init → ∀ m, x.2.material = .ok m →
      materialOf out.result = some m) ∧
    (∀ m, materialOf out.result = some m → ∃ (reply reply' : Reply) (rest : _),
      out.exchanges = (healthRequest, reply) ::
        (initRequest plan.secretShares plan.secretThreshold, reply') :: rest ∧
      reply.status? = some 501 ∧ reply'.material = .ok m ∧
      ∀ x ∈ rest, x.1.kind? ≠ some .init) := by
  intro health init out
  have ht : plan.run.Transcript out.exchanges out.result := transcript_run answer plan.run s
  have hiff : ∀ m, materialOf out.result = some m ↔
      health.result = .ok .notInitialized ∧ init.result = .ok m := materialOf_run_iff answer s
  refine ⟨hiff, ?_, ?_, ?_⟩
  · intro h
    rw [Option.eq_none_iff_forall_ne_some]
    intro m hm
    obtain ⟨hh, hi⟩ := (hiff m).1 hm
    rcases h with ⟨e, he⟩ | ⟨e, he⟩
    · rw [he] at hh
      cases hh
    · rw [he] at hi
      cases hi
  · intro x hx hk m hm
    exact materialOf_of_mem ht hx hk hm
  · intro m hm
    exact exchanges_of_materialOf ht hm

end SecretStore.Plan
