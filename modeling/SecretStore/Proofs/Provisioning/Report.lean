import Mathlib.Data.List.Basic
import SecretStore.Proofs.Provisioning.Parts

/-!
# The outcome of a run

A run keeps its outcome beside its requests. `run_reports_effects` says that the two agree whenever
a run succeeds: every part of the outcome can be read off the exchanges of the run, and tells
neither more nor less than they do. For an engine this is `Enabling`: its listing, and the mount
that follows exactly if the listing does not show it.
-/

namespace SecretStore.Plan

open Interaction Client

variable {σ : Type} {plan : Plan} {token : String} {xs ys : List (Request × Reply)}
variable {target : Option Target} {added : List Target} {o : Outcome}

/-- The exchanges about an engine, and whether they added it. Nothing is asked about an engine that
is not configured. For any other one a listing is fetched, and the mount follows unless the listing
shows the mount point with exactly that type of engine. -/
def Enabling (token : String) (target : Option Target) (xs : List (Request × Reply))
    (added : List Target) : Prop :=
  match target with
  | none => xs = [] ∧ added = []
  | some t =>
    ∃ (reply : Reply) (table : MountTable), reply.mountTable = .ok table ∧
      if table.hasEngine t.mountPoint t.spec.engine.name then
        xs = [(listRequest token, reply)] ∧ added = []
      else ∃ x, xs = [(listRequest token, reply), (t.request token, .ok x)] ∧ added = [t]

theorem Mounts.enabling {names : List String} (h : Mounts token target xs (.ok names)) :
    ∃ added, Enabling token target xs added ∧ names = added.map (·.mountPoint) := by
  cases h with
  | absent => exact ⟨[], ⟨rfl, rfl⟩, rfl⟩
  | @present t reply table ht hm =>
    refine ⟨[], ⟨reply, table, ht, ?_⟩, rfl⟩
    rw [Target.isIn] at hm
    rw [if_pos hm]
    exact ⟨rfl, rfl⟩
  | @accepted t reply table x ht hm =>
    refine ⟨[t], ⟨reply, table, ht, ?_⟩, rfl⟩
    rw [Target.isIn] at hm
    rw [if_neg (Bool.eq_false_iff.1 hm)]
    exact ⟨x, rfl, rfl⟩

namespace Enabling

theorem subset (h : Enabling token target xs added) : ∀ t ∈ added, target = some t := by
  intro t ht
  cases target with
  | none =>
    rw [h.2] at ht
    cases ht
  | some t' =>
    obtain ⟨reply, table, -, h⟩ := h
    split at h
    · rw [h.2] at ht
      cases ht
    · obtain ⟨x, -, rfl⟩ := h
      rw [List.mem_singleton.1 ht]

/-- What was added had its mount accepted. -/
theorem accepted (h : Enabling token target xs added) {t : Target} (ht : t ∈ added) :
    ∃ x, (t.request token, .ok x) ∈ xs := by
  obtain rfl := h.subset t ht
  obtain ⟨reply, table, -, h⟩ := h
  split at h
  · rw [h.2] at ht
    cases ht
  · obtain ⟨x, rfl, -⟩ := h
    exact ⟨x, by simp⟩

/-- What had its mount accepted was added. -/
theorem mem_of_accepted (h : Enabling token target xs added) {q : Request} {x : Exchange}
    (hx : (q, .ok x) ∈ xs) (hq : q.kind? = some .mount) :
    ∃ t ∈ added, q = t.request token := by
  have hlist {reply : Reply} (hr : (q, .ok x) = (listRequest token, reply)) : False := by
    rw [(Prod.mk.inj hr).1, kind?_listRequest] at hq
    cases hq
  cases target with
  | none =>
    rw [h.1] at hx
    cases hx
  | some t =>
    obtain ⟨reply, table, -, h⟩ := h
    split at h
    · rw [h.1] at hx
      exact (hlist (List.mem_singleton.1 hx)).elim
    · obtain ⟨y, rfl, rfl⟩ := h
      simp only [List.mem_cons, List.not_mem_nil, or_false] at hx
      rcases hx with hx | hx
      · exact (hlist hx).elim
      · exact ⟨t, List.mem_singleton.2 rfl, (Prod.mk.inj hx).1⟩

end Enabling

theorem operation_of_keyValueTarget {t : Target} (h : plan.keyValueTarget = some t) :
    (t.request token).operation = "update mounts" := by
  obtain ⟨m, -, rfl⟩ := Option.map_eq_some_iff.1 h
  rfl

theorem operation_of_consulTarget {t : Target} (h : plan.consulTarget = some t) :
    (t.request token).operation = "update mounts for Consul" := by
  obtain ⟨m, -, rfl⟩ := Option.map_eq_some_iff.1 h
  rfl

/-- No two engines of a plan are mounted by the same request, even at one mount point. -/
theorem eq_of_request_eq {t t' : Target} (ht : t ∈ plan.targets) (ht' : t' ∈ plan.targets)
    (h : t.request token = t'.request token) : t = t' := by
  have hop : (t.request token).operation = (t'.request token).operation := by rw [h]
  simp only [targets, List.mem_append, Option.mem_toList] at ht ht'
  rcases ht with hk | hc <;> rcases ht' with hk' | hc'
  · exact Option.some.inj (hk.symm.trans hk')
  · rw [operation_of_keyValueTarget hk, operation_of_consulTarget hc'] at hop
    exact absurd hop (by decide)
  · rw [operation_of_consulTarget hc, operation_of_keyValueTarget hk'] at hop
    exact absurd hop (by decide)
  · exact Option.some.inj (hc.symm.trans hc')

/-! ### Health, key shares and policies -/

theorem Prepares.health_observed {health : Health} {init : Option InitMaterial}
    (h : plan.Prepares xs (.ok (health, init))) :
    ∃ reply n rest, xs = (healthRequest, reply) :: rest ∧ reply.status? = some n ∧
      health = .ofStatus n := by
  cases h with
  | initialized hn hc => exact ⟨_, _, [], rfl, hn, rfl⟩
  | fresh hn hv hm => exact ⟨_, 501, _, rfl, hn, rfl⟩

/-- Unsealing that succeeds submits a share that opens the store exactly if the store is sealed. -/
theorem Unseals.isSealed_iff {health : Health} {init : Option InitMaterial}
    (h : plan.Unseals health init xs (.ok ())) :
    health.isSealed = true ↔ ∃ x ∈ xs, Opens x := by
  constructor
  · intro hs
    exact h.unsealed.2 rfl hs
  · rintro ⟨x, hx, -⟩
    cases h with
    | needless _ => cases hx
    | opened hs _ => exact hs

theorem Installs.names {policies : List Policy} {names : List String}
    (h : Installs token policies xs (.ok names)) : names = policies.map (·.name) := by
  generalize hr : (Except.ok names : Except Failure (List String)) = r at h
  induction h generalizing names with
  | nil =>
    cases hr
    rfl
  | refused => cases hr
  | @accepted p rest x xs r _ ih =>
    cases r with
    | error f => cases hr
    | ok names' =>
      cases hr
      exact congrArg (p.name :: ·) (ih rfl)

theorem Installs.accepted_all {policies : List Policy} {names : List String}
    (h : Installs token policies xs (.ok names)) :
    xs.map Prod.fst = policyScript token policies ∧ ∀ x ∈ xs, ∃ e, x.2 = .ok e := by
  obtain ⟨hsent, hclean⟩ := h.follows.complete rfl
  refine ⟨hsent, fun x hx => ?_⟩
  cases hr : x.2 with
  | ok e => exact ⟨e, rfl⟩
  | error e =>
    refine absurd ?_ (hclean x hx)
    rw [Fails, kind?_of_installs h hx]
    exact ⟨e, hr⟩

/-! ### The outcome -/

/-- The engines that were added are those of the plan whose mounts were accepted. -/
theorem mem_added_iff {ks cs : List (Request × Reply)} {keyValue consul : List Target}
    (hk : Enabling token plan.keyValueTarget ks keyValue)
    (hc : Enabling token plan.consulTarget cs consul)
    (hy : ∀ x ∈ ys, x.1.kind? ≠ some .mount) (t : Target) :
    t ∈ keyValue ++ consul ↔
      t ∈ plan.targets ∧ ∃ x, (t.request token, .ok x) ∈ ys ++ (ks ++ cs) := by
  have hmem {t : Target} (ht : t ∈ keyValue ++ consul) : t ∈ plan.targets := by
    rcases List.mem_append.1 ht with ht | ht
    · exact List.mem_append_left _ (Option.mem_toList.2 (hk.subset t ht))
    · exact List.mem_append_right _ (Option.mem_toList.2 (hc.subset t ht))
  constructor
  · intro ht
    refine ⟨hmem ht, ?_⟩
    rcases List.mem_append.1 ht with h | h
    · obtain ⟨x, hx⟩ := hk.accepted h
      exact ⟨x, by simp [hx]⟩
    · obtain ⟨x, hx⟩ := hc.accepted h
      exact ⟨x, by simp [hx]⟩
  · rintro ⟨ht, x, hx⟩
    have hq : (t.request token).kind? = some .mount := kind?_mountRequest ..
    have hadded : ∃ t' ∈ keyValue ++ consul, t.request token = t'.request token := by
      simp only [List.mem_append] at hx
      rcases hx with hx | hx | hx
      · exact absurd hq (hy (t.request token, .ok x) hx)
      · obtain ⟨t', ht', he⟩ := hk.mem_of_accepted hx hq
        exact ⟨t', List.mem_append_left _ ht', he⟩
      · obtain ⟨t', ht', he⟩ := hc.mem_of_accepted hx hq
        exact ⟨t', List.mem_append_right _ ht', he⟩
    obtain ⟨t', ht', he⟩ := hadded
    rwa [eq_of_request_eq ht (hmem ht') he]

/-- **The outcome of a run.** A run that succeeds reports the state of the store that its health
check observed before anything else, whether one of its key shares opened the store, and the names
of the policies of the plan, each of which had its document accepted, once and in order. The engines
that it reports are those whose mounts were accepted, the key/value engine first, and one is left
out exactly if it is not configured or the listing fetched right before shows it. -/
theorem run_reports_effects (plan : Plan) (answer : Request → σ → Reply × σ) (s : σ) (o : Outcome)
    (h : (plan.run.run answer s).result = .ok o) :
    let xs := (plan.run.run answer s).exchanges
    ∃ token, plan.credential xs = some token ∧
    (∃ reply n rest, xs = (healthRequest, reply) :: rest ∧ reply.status? = some n ∧
      o.initialHealth = .ofStatus n) ∧
    (o.unsealed = true ↔ ∃ x ∈ ofKind .unseal xs, Opens x) ∧
    o.policiesInstalled = plan.policies.map (·.name) ∧
    (ofKind .policy xs).map Prod.fst =
      plan.policies.map (fun p => policyRequest token p.name p.document) ∧
    (∀ x ∈ ofKind .policy xs, ∃ e, x.2 = .ok e) ∧
    ∃ before ks cs keyValue consul,
      xs = before ++ (ks ++ cs) ∧
      (∀ x ∈ before, x.1.kind? ≠ some .listing ∧ x.1.kind? ≠ some .mount) ∧
      Enabling token plan.keyValueTarget ks keyValue ∧
      Enabling token plan.consulTarget cs consul ∧
      o.enginesEnabled = (keyValue ++ consul).map (·.mountPoint) ∧
      ∀ t, t ∈ keyValue ++ consul ↔
        t ∈ plan.targets ∧ ∃ x, (t.request token, .ok x) ∈ xs := by
  intro xs
  have hrun : plan.Succeeds xs o := by
    refine succeeds_of_run ?_
    rw [← h]
    exact transcript_run answer plan.run s
  generalize xs = xs at hrun ⊢
  cases hrun with
  | @mk ys us ps ks cs health init token policies _ _ hp hu ht hi hk hc =>
  obtain ⟨reply, n, rest, hys, hn, hhealth⟩ := hp.health_observed
  obtain ⟨keyValue, hkv, hkn⟩ := hk.enabling
  obtain ⟨consul, hcv, hcn⟩ := hc.enabling
  obtain ⟨hsent, haccepted⟩ := hi.accepted_all
  have hcred : plan.credential (ys ++ (us ++ (ps ++ (ks ++ cs)))) = some token := by
    obtain ⟨reply, prep, rfl, hprep⟩ := hp.prepared
    exact credential_of_configures reply (hprep.fresh _ _ rfl)
      (.administered hu ht (.finished hi hk hc)) ht
  -- each kind of request is sent by one step only
  have hunseal : ofKind .unseal (ys ++ (us ++ (ps ++ (ks ++ cs)))) = us := by
    rw [ofKind_append, ofKind_append, ofKind_prepares hp (by decide), ofKind_unseals hu,
      ofKind_administers (.finished hi hk hc) (by decide), List.nil_append, List.append_nil]
  have hpolicy : ofKind .policy (ys ++ (us ++ (ps ++ (ks ++ cs)))) = ps := by
    have hys : ofKind .policy ys = [] := ofKind_prepares hp (by decide)
    have hus : ofKind .policy us = [] := by
      have hkinds : ∀ x ∈ us, x.1.kind? ∈ [some .unseal] := by
        intro x hx
        simp [kind?_of_unseals hu hx]
      exact ofKind_eq_nil hkinds (by decide)
    have hps : ofKind .policy ps = ps := ofKind_eq_self fun _ hx => kind?_of_installs hi hx
    have hks : ofKind .policy ks = [] := ofKind_mounts hk (by decide)
    have hcs : ofKind .policy cs = [] := ofKind_mounts hc (by decide)
    simp only [ofKind_append, hys, hus, hps, hks, hcs, List.nil_append, List.append_nil]
  have hbefore : ∀ x ∈ ys ++ (us ++ ps), x.1.kind? ≠ some .listing ∧ x.1.kind? ≠ some .mount := by
    intro x hx
    simp only [List.mem_append] at hx
    rcases hx with hx | hx | hx
    · have hk := kind?_of_prepares hp hx
      simp only [preparatory, List.mem_cons, List.not_mem_nil, or_false] at hk
      rcases hk with hk | hk <;> simp [hk]
    · simp [kind?_of_unseals hu hx]
    · simp [kind?_of_installs hi hx]
  have hsplit : ys ++ (us ++ (ps ++ (ks ++ cs))) = (ys ++ (us ++ ps)) ++ (ks ++ cs) := by
    simp only [List.append_assoc]
  refine ⟨token, hcred, ⟨reply, n, _, by rw [hys]; rfl, hn, hhealth⟩, ?_, hi.names, ?_, ?_,
    ys ++ (us ++ ps), ks, cs, keyValue, consul, hsplit, hbefore, hkv, hcv, ?_, ?_⟩
  · rw [hunseal]
    exact hu.isSealed_iff
  · rw [hpolicy]
    exact hsent
  · rw [hpolicy]
    exact haccepted
  · simp only [hkn, hcn, List.map_append]
  · intro t
    rw [hsplit]
    exact mem_added_iff hkv hcv (fun x hx => (hbefore x hx).2) t

/-- A plan for a sealed store. -/
def reopening : Plan where
  secretShares := 3
  secretThreshold := 2
  unsealKeys := ["first", "second"]
  authToken := some "token"
  policies := [⟨"reader", "path \"secret/*\""⟩]
  keyValue := some {}
  consul := some { mountPoint := "/consul" }

/-- A sealed store that one share opens and that has a Consul engine. -/
def sealedStore (r : Request) (s : Unit) : Reply × Unit :=
  (match r.kind? with
    | some .health => .error (.unexpectedStatus r.operation 200 503 [])
    | some .unseal => .ok ⟨r.operation, 200, .ofString "\x7b\"sealed\":false\x7d"⟩
    | some .listing =>
      .ok ⟨r.operation, 200,
        .ofString "\x7b\"data\":\x7b\"consul/\":\x7b\"type\":\"consul\"\x7d\x7d\x7d"⟩
    | _ => .ok ⟨r.operation, 204, []⟩, s)

theorem run_reports_effects_of_reopening :
    let xs := (reopening.run.run sealedStore ()).exchanges
    (reopening.run.run sealedStore ()).result =
      .ok ⟨.sealed, none, true, ["reader"], ["secret"]⟩ ∧
    ∃ x ∈ ofKind .unseal xs, Opens x := by
  intro xs
  have h : (reopening.run.run sealedStore ()).result =
      .ok ⟨.sealed, none, true, ["reader"], ["secret"]⟩ := by decide +kernel
  refine ⟨h, ?_⟩
  obtain ⟨_, _, _, hu, _⟩ := run_reports_effects reopening sealedStore () _ h
  exact hu.1 rfl

end SecretStore.Plan
