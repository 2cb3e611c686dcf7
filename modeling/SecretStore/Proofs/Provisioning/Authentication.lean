import SecretStore.Proofs.Provisioning.Token
import SecretStore.Proofs.Provisioning.Verdict

/-!
# Requests without a token

A missing token and an empty one are not treated alike. A run against an open store ends before it
administers anything if its plan has no token, and for this reason only. The empty token is a token
for the run, but a request leaves it out, so the run goes on and sends every request about policies
and mounts unauthenticated. `run_unauthenticated_iff` says exactly when this happens.

* `credential_of_seenOpen`: a store that was initialized before is administered with the token of
  the plan.
* `eq_noToken_iff`: what it takes for a run to end for want of a token.
-/

namespace SecretStore

/-- The request carries a token that says something. -/
def Request.Authenticated (r : Request) : Prop := ∃ token, r.token = some token ∧ token ≠ ""

/-- No error of the client reads like the want of a token. -/
theorem ClientError.toFailure_ne_noToken (e : ClientError) : e.toFailure ≠ Plan.noToken := by
  intro h
  cases e with
  | setup message =>
    have hmessage : "cannot build HTTP client: " ++ message = Plan.noToken.message :=
      congrArg Failure.message h
    have hhead := congrArg (fun s : String => s.toList.head?) hmessage
    simp [Plan.noToken] at hhead
  | unexpectedStatus operation expected actual errors =>
    have hkind : kindOfStatus actual = .config := congrArg Failure.kind h
    rw [kindOfStatus] at hkind
    split at hkind
    · cases hkind
    · split at hkind <;> cases hkind
  | noResponse | decode | encode | thresholdNotReached | invalidArgument =>
    cases congrArg Failure.kind h

namespace Plan

open Interaction Client

variable {σ : Type} {plan : Plan} {xs : List (Request × Reply)}
variable {r : Except RunFailure Outcome}

theorem authenticated_iff_of_carried {q : Request} {token : String} (h : q.token = carried token) :
    q.Authenticated ↔ token ≠ "" := by
  rw [Request.Authenticated, h, carried]
  by_cases ht : token = ""
  · simp [ht]
  · simp [ht]

/-- What needs a token carries the credential of its run. -/
theorem exists_credential_of_mem (h : plan.run.Transcript xs r) {x : Request × Reply}
    (hx : x ∈ xs) (hk : x.1.kind? ∈ administrative) :
    ∃ token, plan.credential xs = some token ∧ x.1.token = carried token := by
  obtain ⟨p, token, rfl, hp⟩ := exists_phases h
  have hmem : x ∈ p.administration := by
    rw [p.all_eq] at hx
    rcases List.mem_append.1 hx with hx | hx
    · exact absurd hk (not_administrative_of_unauthenticated (hp.token_eq_none hx).1)
    · exact hx
  exact ⟨token, hp.credentialed (List.ne_nil_of_mem hmem), (hp.token_eq_carried hmem).2⟩

/-- A store that was initialized before is administered with the token of the plan. -/
theorem credential_of_seenOpen (h : plan.run.Transcript xs r) (ho : SeenOpen xs) :
    plan.credential xs = plan.authToken := by
  obtain ⟨ys, zs, v, hp, hstatus, hfresh, -⟩ := exists_preparation h
  obtain ⟨health, rfl, -⟩ := hp.of_seenOpen hstatus ho
  rw [credential, hfresh, hp.freshMaterial_eq]

/-- A run ends for want of a token exactly if the store was seen open and the plan has none. -/
theorem eq_noToken_iff (h : plan.run.Transcript xs r) :
    r = .error ⟨noToken, none⟩ ↔ SeenOpen xs ∧ plan.authToken = none := by
  constructor
  · rintro rfl
    have hfails : FailsWith (.error ⟨noToken, none⟩) .config := ⟨_, rfl, rfl⟩
    rcases (plan.stops_iff xs .config).1 ((failsWith_iff_stops h).1 hfails) with
      ⟨e, hl, -⟩ | hrest
    · obtain ⟨init, hr⟩ := failure_of_lastRefuses h hl
      have hf : noToken = e.toFailure := congrArg RunFailure.failure (Except.error.inj hr)
      exact absurd hf.symm e.toFailure_ne_noToken
    · simpa using hrest
  · rintro ⟨ho, ht⟩
    exact eq_noToken_of_seenOpen h ho ht

/-- **Requests without a token.** A request about policies or mounts goes out unauthenticated
exactly if the credential of its run is the empty text. For a store that was seen open without being
initialized by the run, the credential is the token of the plan. A run ends for want of a token
exactly if such a store was seen and the plan has no token, and then nothing about policies or
mounts was sent; an empty token of the plan does not end it. -/
theorem run_unauthenticated_iff (plan : Plan) (answer : Request → σ → Reply × σ) (s : σ) :
    let out := plan.run.run answer s
    let xs := out.exchanges
    (∀ x ∈ xs, x.1.kind? ∈ administrative →
      (¬ x.1.Authenticated ↔ plan.credential xs = some "")) ∧
    (SeenOpen xs → plan.credential xs = plan.authToken) ∧
    (out.result = .error ⟨noToken, none⟩ ↔ SeenOpen xs ∧ plan.authToken = none) ∧
    (out.result = .error ⟨noToken, none⟩ → ∀ x ∈ xs, x.1.kind? ∉ administrative) := by
  intro out xs
  have ht : plan.run.Transcript xs out.result := transcript_run answer plan.run s
  refine ⟨?_, credential_of_seenOpen ht, eq_noToken_iff ht, ?_⟩
  · intro x hx hk
    obtain ⟨token, hcred, htoken⟩ := exists_credential_of_mem ht hx hk
    rw [authenticated_iff_of_carried htoken, hcred, Ne, Classical.not_not, Option.some.injEq]
  · intro hr x hx hk
    obtain ⟨ho, hnone⟩ := (eq_noToken_iff ht).1 hr
    obtain ⟨token, hcred, -⟩ := exists_credential_of_mem ht hx hk
    rw [credential_of_seenOpen ht ho, hnone] at hcred
    cases hcred

/-- A plan whose token is empty, with a policy. -/
def blankToken : Plan where
  secretShares := 1
  secretThreshold := 1
  unsealKeys := []
  authToken := some ""
  policies := [⟨"reader", "path \"secret/*\""⟩]
  keyValue := none
  consul := none

/-- An open store that does what it is asked to, whoever asks. -/
def trustingStore (r : Request) (s : Unit) : Reply × Unit :=
  (.ok ⟨r.operation, r.expectedStatus, []⟩, s)

/-- With an empty token a run against an open store installs its policies unauthenticated and
succeeds. -/
theorem unauthenticated_of_blankToken :
    let out := blankToken.run.run trustingStore ()
    SeenOpen out.exchanges ∧
      (∃ x ∈ out.exchanges, x.1.kind? ∈ administrative ∧ ¬ x.1.Authenticated) ∧
      out.result = .ok ⟨.active, none, false, ["reader"], []⟩ := by
  intro out
  have hx : out.exchanges =
      [(healthRequest, .ok ⟨"health check", 200, []⟩),
        (policyRequest "" "reader" "path \"secret/*\"", .ok ⟨"install policy", 204, []⟩)] := rfl
  refine ⟨?_, ?_, rfl⟩
  · rw [hx]
    exact .inl ⟨200, List.mem_cons_self, healthStatus_cons⟩
  · refine ⟨_, by rw [hx]; exact List.mem_cons_of_mem _ List.mem_cons_self, ?_, ?_⟩
    · simp [administrative]
    · rintro ⟨token, ht, -⟩
      cases ht

end Plan

end SecretStore
