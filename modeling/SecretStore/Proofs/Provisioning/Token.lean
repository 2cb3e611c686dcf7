import SecretStore.Proofs.Provisioning.Order

/-!
# The token of a run

Health checks, initializations and key shares are never authenticated. Everything else carries the
one token of its run, `Plan.credential`: the root token of the material that this run was handed, or
else the token of the plan. The empty token is no token. `run_token_discipline` says this of every
run, and that nothing carries a token before the store was seen open.
-/

namespace SecretStore.Plan

open Interaction Client

variable {σ : Type} {plan : Plan} {token : String} {p : Phases} {done : Bool}

/-- What a request without a token is for. -/
def unauthenticated : List (Option Request.Kind) :=
  [some .health, some .init, some .unseal]

/-- The token that a request carries for a credential. -/
def carried (token : String) : Option String := if token = "" then none else some token

theorem not_administrative_of_unauthenticated {k : Option Request.Kind}
    (h : k ∈ unauthenticated) : k ∉ administrative := by
  simp only [unauthenticated, List.mem_cons, List.not_mem_nil, or_false] at h
  rcases h with rfl | rfl | rfl <;> decide

theorem request_mem {xs : List (Request × Reply)} {script : List Request}
    (h : xs.map Prod.fst <+: script) {x : Request × Reply} (hx : x ∈ xs) : x.1 ∈ script :=
  h.subset (List.mem_map_of_mem hx)

/-- The requests of the script for a target. -/
theorem mem_mountScript {target : Option Target} {xs : List (Request × Reply)} {q : Request}
    (h : q ∈ mountScript token target xs) :
    q = listRequest token ∨ ∃ t : Target, q = t.request token := by
  cases target with
  | none => cases h
  | some t =>
    rcases List.mem_cons.1 h with h | h
    · exact .inl h
    · cases hs : shows xs t with
      | true =>
        rw [if_pos hs] at h
        cases h
      | false =>
        rw [if_neg (by simp [hs])] at h
        exact .inr ⟨t, List.mem_singleton.1 h⟩

theorem carried_of_mountScript {target : Option Target} {xs : List (Request × Reply)}
    {q : Request} (h : q ∈ mountScript token target xs) :
    q.kind? ∈ administrative ∧ q.token = carried token := by
  rcases mem_mountScript h with rfl | ⟨t, rfl⟩
  · exact ⟨by simp [administrative], rfl⟩
  · exact ⟨by simp [administrative, Target.request], rfl⟩

theorem carried_of_policyScript {policies : List Policy} {q : Request}
    (h : q ∈ policyScript token policies) :
    q.kind? ∈ administrative ∧ q.token = carried token := by
  obtain ⟨policy, _, rfl⟩ := List.mem_map.1 h
  exact ⟨by simp [administrative], rfl⟩

namespace Lawful

/-- What comes before the administration carries no token. -/
theorem token_eq_none (h : plan.Lawful token p done) {x : Request × Reply}
    (hx : x ∈ (healthRequest, p.health) :: (p.init ++ p.shares)) :
    x.1.kind? ∈ unauthenticated ∧ x.1.token = none := by
  rcases List.mem_cons.1 hx with rfl | hx
  · exact ⟨by simp [unauthenticated], rfl⟩
  rcases List.mem_append.1 hx with hx | hx
  · have hq : x.1 ∈ plan.initScript p.health.status? := h.init_sent ▸ List.mem_map_of_mem hx
    rw [initScript] at hq
    split at hq
    · rw [List.mem_singleton.1 hq]
      exact ⟨by simp [unauthenticated], rfl⟩
    · cases hq
  · obtain ⟨key, hkey⟩ := exists_unsealRequest h.shares_sent hx
    rw [hkey]
    exact ⟨by simp [unauthenticated], rfl⟩

/-- The administration carries the token. -/
theorem token_eq_carried (h : plan.Lawful token p done) {x : Request × Reply}
    (hx : x ∈ p.administration) :
    x.1.kind? ∈ administrative ∧ x.1.token = carried token := by
  rw [Phases.administration, List.mem_append, List.mem_append] at hx
  rcases hx with hx | hx | hx
  · exact carried_of_policyScript (request_mem h.policies_sent hx)
  · exact carried_of_mountScript (request_mem h.keyValue_sent hx)
  · exact carried_of_mountScript (request_mem h.consul_sent hx)

end Lawful

/-- The exchange shows that the store is open: a health check found it so, or a key share
opened it. -/
def ShowsOpen (x : Request × Reply) : Prop :=
  (x.1.kind? = some .health ∧ ∃ n ∈ [200, 429, 472, 473], x.2.status? = some n) ∨
    (x.1.kind? = some .unseal ∧ Opens x)

/-- The store is seen open before the administration begins. -/
theorem Lawful.shows_open (h : plan.Lawful token p done) (hne : p.administration ≠ []) :
    ∃ y ∈ (healthRequest, p.health) :: (p.init ++ p.shares), ShowsOpen y := by
  rcases h.opened hne with hn | ⟨x, hx, ho⟩
  · exact ⟨_, List.mem_cons_self, .inl ⟨kind?_healthRequest, hn⟩⟩
  · obtain ⟨key, hkey⟩ := exists_unsealRequest h.shares_sent hx
    refine ⟨x, List.mem_cons_of_mem _ (List.mem_append_right _ hx), .inr ⟨?_, ho⟩⟩
    rw [hkey, kind?_unsealRequest]

theorem Phases.all_eq (p : Phases) :
    p.all = ((healthRequest, p.health) :: (p.init ++ p.shares)) ++ p.administration := by
  rw [Phases.all, List.cons_append, List.append_assoc]

/-- **The token of a run.** A request is either a health check, an initialization or a key share,
and then has no token, or it is about policies or mounts, and then carries the credential of the
run, in place of which the empty one leaves it without. Requests about policies or mounts come after
an exchange that shows the store open. -/
theorem run_token_discipline (plan : Plan) (answer : Request → σ → Reply × σ) (s : σ) :
    let xs := (plan.run.run answer s).exchanges
    (∀ x ∈ xs,
      (x.1.kind? ∈ unauthenticated ∧ x.1.token = none) ∨
      (x.1.kind? ∈ administrative ∧ ∃ token, plan.credential xs = some token ∧
        x.1.token = if token = "" then none else some token)) ∧
    (∀ pre x post, xs = pre ++ x :: post → x.1.kind? ∈ administrative →
      ∃ y ∈ pre, ShowsOpen y) := by
  intro xs
  obtain ⟨p, token, hx, hp⟩ := exists_phases (transcript_run answer plan.run s)
  replace hx : xs = _ := hx.trans p.all_eq
  constructor
  · intro x hmem
    rw [hx] at hmem
    rcases List.mem_append.1 hmem with hmem | hmem
    · exact .inl (hp.token_eq_none hmem)
    · obtain ⟨hk, ht⟩ := hp.token_eq_carried hmem
      have hcred := hp.credentialed (List.ne_nil_of_mem hmem)
      rw [p.all_eq, ← hx] at hcred
      exact .inr ⟨hk, token, hcred, ht⟩
  · intro pre x post hsplit hk
    rw [hx] at hsplit
    rcases List.append_eq_append_iff.1 hsplit with ⟨rest, rfl, hrest⟩ | ⟨rest, hfront, hrest⟩
    -- `x` lies in the administration
    · have hne : p.administration ≠ [] := by
        rw [hrest]
        simp
      obtain ⟨y, hy, ho⟩ := hp.shows_open hne
      exact ⟨y, List.mem_append_left _ hy, ho⟩
    -- `x` begins the administration, since it is none of the exchanges before it
    · cases rest with
      | nil =>
        rw [List.append_nil] at hfront
        rw [← hfront]
        exact hp.shows_open fun hnil => by simp [hnil] at hrest
      | cons z rest =>
        obtain ⟨rfl, -⟩ := List.cons.inj hrest
        have hmem : x ∈ (healthRequest, p.health) :: (p.init ++ p.shares) := by
          rw [hfront]
          exact List.mem_append_right pre List.mem_cons_self
        exact absurd hk (not_administrative_of_unauthenticated (hp.token_eq_none hmem).1)

end SecretStore.Plan
