import Mathlib.Tactic.MkIffOfInductiveProp
import SecretStore.Proofs.Provisioning.Parts

/-!
# Why a run fails

A run fails because its last exchange did, or because of what it found without any exchange failing:
a status without a meaning, unusable numbers of shares, no key shares or not enough of them, no
token. `Stops` lists these ways by what can be seen in the exchanges, and `fails_iff_stops` says
that a run fails in just these ways. `run_failure_kind` spells this out for each kind of failure,
against an executor that keeps its promises.

* `Refuses`: the error that an exchange ends its operation with;
* `Blames`: a step fails exactly with what its last exchange refused.
-/

namespace SecretStore

open Interaction Client

/-! ### Refused exchanges -/

namespace Reply

/-- What an executor promises to answer: an exchange, or one of the errors that sending a request
can end with. -/
def Promised : Reply → Prop
  | .ok _ | .error (.noResponse ..) | .error (.unexpectedStatus ..) | .error (.decode ..) => True
  | .error _ => False

/-- There was no response. -/
def IsSilence (r : Reply) : Prop := ∃ operation source, r = .error (.noResponse operation source)

/-- The response had an unexpected status. -/
def IsUnexpected (status : UInt16) (r : Reply) : Prop :=
  ∃ operation expected errors, r = .error (.unexpectedStatus operation expected status errors)

/-- The body of the response could not be read. -/
def IsUnreadable (r : Reply) : Prop :=
  ∃ operation status message, r = .error (.decode operation status message)

end Reply

theorem Exchange.decode_eq_error {α : Type} {reader : Json.Reader α} {x : Exchange}
    {e : ClientError} (h : x.decode reader = .error e) :
    ∃ message, e = .decode x.operation x.status message := by
  rw [Exchange.decode] at h
  cases hw : Json.whole reader x.body with
  | ok a =>
    rw [hw] at h
    cases h
  | error f =>
    rw [hw] at h
    cases h
    exact ⟨_, rfl⟩

theorem Health.eq_of_isSealed {n : UInt16} (hc : n ∈ [200, 429, 472, 473, 503])
    (hs : (Health.ofStatus n).isSealed = true) : n = 503 := by
  simp only [List.mem_cons, List.not_mem_nil, or_false] at hc
  rcases hc with rfl | rfl | rfl | rfl | rfl <;> first | rfl | cases hs

namespace Plan

variable {σ α : Type} {plan : Plan} {token : String} {xs ys : List (Request × Reply)}
variable {x : Request × Reply} {e : ClientError} {f : Failure} {n : UInt16}

/-- The error that an exchange ends its operation with. It is opened by the lemmas below alone,
since what a request is for is costly to compute from its path. -/
@[irreducible]
def Refuses (x : Request × Reply) (e : ClientError) : Prop :=
  match x.1.kind? with
  | some .health => statusOf x.2 = .error e
  | some .init => x.2.material = .error e
  | some .unseal => x.2.sealStatus = .error e
  | some .listing => x.2.mountTable = .error e
  | _ => x.2 = .error e

/-- The body of the response is not what its operation needs. -/
def Undecodable (x : Request × Reply) : Prop :=
  ∃ exchange, x.2 = .ok exchange ∧
    match x.1.kind? with
    | some .init => ∃ e, exchange.decode InitMaterial.shape.reader = .error e
    | some .unseal => ∃ e, exchange.decode SealStatus.shape.reader = .error e
    | some .listing => ∃ e, exchange.decode MountTable.shape.reader = .error e
    | _ => False

@[simp] theorem refuses_health {reply : Reply} :
    Refuses (healthRequest, reply) e ↔ statusOf reply = .error e := by
  simp only [Refuses, kind?_healthRequest]

@[simp] theorem refuses_init {shares threshold : UInt32} {reply : Reply} :
    Refuses (initRequest shares threshold, reply) e ↔ reply.material = .error e := by
  simp only [Refuses, kind?_initRequest]

@[simp] theorem refuses_listing {reply : Reply} :
    Refuses (listRequest token, reply) e ↔ reply.mountTable = .error e := by
  simp only [Refuses, kind?_listRequest]

@[simp] theorem refuses_policy {name document : String} {reply : Reply} :
    Refuses (policyRequest token name document, reply) e ↔ reply = .error e := by
  simp only [Refuses, kind?_policyRequest]

@[simp] theorem refuses_mount {t : Target} {reply : Reply} :
    Refuses (t.request token, reply) e ↔ reply = .error e := by
  simp only [Refuses, Target.request, kind?_mountRequest]

theorem refuses_of_unseal (h : x.1.kind? = some .unseal) :
    Refuses x e ↔ x.2.sealStatus = .error e := by
  simp only [Refuses, h]

theorem Refuses.unique {e' : ClientError} (h : Refuses x e) (h' : Refuses x e') : e = e' := by
  rw [Refuses] at h h'
  generalize x.1.kind? = kind at h h'
  match kind with
  | some .health | some .init | some .unseal | some .listing | some .policy | some .mount | none =>
    exact Except.error.inj (h.symm.trans h')

/-- None of the exchanges refuses its operation. -/
def Clean (xs : List (Request × Reply)) : Prop := ∀ x ∈ xs, ∀ e, ¬ Refuses x e

/-- The last exchange refuses its operation. -/
def LastRefuses (xs : List (Request × Reply)) (e : ClientError) : Prop :=
  ∃ x, xs.getLast? = some x ∧ Refuses x e

namespace Clean

theorem nil : Clean [] := fun _ h => absurd h List.not_mem_nil

theorem singleton (h : ∀ e, ¬ Refuses x e) : Clean [x] := by
  intro y hy
  rw [List.mem_singleton.1 hy]
  exact h

theorem append (h : Clean xs) (h' : Clean ys) : Clean (xs ++ ys) := by
  intro x hx
  rcases List.mem_append.1 hx with hx | hx
  · exact h x hx
  · exact h' x hx

theorem cons (hx : ∀ e, ¬ Refuses x e) (h : Clean xs) : Clean (x :: xs) :=
  append (singleton hx) h

theorem not_lastRefuses (h : Clean xs) : ¬ LastRefuses xs e := by
  rintro ⟨x, hx, hr⟩
  exact h x (List.mem_of_getLast? hx) e hr

end Clean

theorem lastRefuses_singleton (h : Refuses x e) : LastRefuses [x] e := ⟨x, rfl, h⟩

theorem lastRefuses_concat : LastRefuses (xs ++ [x]) e ↔ Refuses x e := by
  simp [LastRefuses]

theorem lastRefuses_append (h : Clean xs) : LastRefuses (xs ++ ys) e ↔ LastRefuses ys e := by
  rcases List.eq_nil_or_concat ys with rfl | ⟨zs, z, rfl⟩
  · rw [List.append_nil]
    exact ⟨fun hl => absurd hl h.not_lastRefuses, fun hl => absurd hl Clean.nil.not_lastRefuses⟩
  · rw [List.concat_eq_append, ← List.append_assoc, lastRefuses_concat, lastRefuses_concat]

/-- A step whose last exchange was refused fails with that, and one that succeeds has no refused
exchange. -/
structure Heeds (xs : List (Request × Reply)) (v : Except Failure α) : Prop where
  fails : ∀ e, LastRefuses xs e → v = .error e.toFailure
  clean : v.isOk = true → Clean xs

namespace Heeds

variable {v : Except Failure α}

theorem of_clean (h : Clean xs) : Heeds xs v :=
  ⟨fun _ hl => absurd hl h.not_lastRefuses, fun _ => h⟩

theorem error (h : LastRefuses xs e) : Heeds xs (.error e.toFailure : Except Failure α) where
  fails := by
    rintro e' ⟨x', hx', hr'⟩
    obtain ⟨x, hx, hr⟩ := h
    cases hx.symm.trans hx'
    rw [hr.unique hr']
  clean := nofun

theorem append (h : Clean ys) (hb : Heeds xs v) : Heeds (ys ++ xs) v where
  fails e hl := hb.fails e ((lastRefuses_append h).1 hl)
  clean hv := h.append (hb.clean hv)

theorem map {β : Type} (g : α → β) (h : Heeds xs v) : Heeds xs (v.map g) where
  fails e hl := by
    rw [h.fails e hl]
    rfl
  clean hv := h.clean (by cases v <;> exact hv)

end Heeds

/-- A step that fails in no other way than by its last exchange. -/
structure Blames (xs : List (Request × Reply)) (v : Except Failure α) : Prop extends
    Heeds xs v where
  blamed : ∀ f, v = .error f → ∃ e, LastRefuses xs e ∧ f = e.toFailure

namespace Blames

variable {v : Except Failure α}

theorem ok {a : α} (h : Clean xs) : Blames xs (.ok a : Except Failure α) :=
  ⟨.of_clean h, nofun⟩

theorem error (h : LastRefuses xs e) : Blames xs (.error e.toFailure : Except Failure α) where
  toHeeds := .error h
  blamed := by
    rintro f ⟨⟩
    exact ⟨e, h, rfl⟩

theorem append (h : Clean ys) (hb : Blames xs v) : Blames (ys ++ xs) v where
  toHeeds := hb.toHeeds.append h
  blamed f hf := by
    obtain ⟨e, hl, he⟩ := hb.blamed f hf
    exact ⟨e, (lastRefuses_append h).2 hl, he⟩

theorem cons (hx : ∀ e, ¬ Refuses x e) (hb : Blames xs v) : Blames (x :: xs) v :=
  append (.singleton hx) hb

theorem map {β : Type} (g : α → β) (h : Blames xs v) : Blames xs (v.map g) where
  toHeeds := h.toHeeds.map g
  blamed f hf := by
    cases v with
    | ok a => cases hf
    | error f' =>
      cases hf
      exact h.blamed f rfl

end Blames

/-! ### Steps that fail with their last exchange -/

theorem not_refuses_policy {name document : String} {exchange : Exchange} :
    ¬ Refuses (policyRequest token name document, .ok exchange) e := by
  rw [refuses_policy]
  nofun

theorem not_refuses_mount {t : Target} {exchange : Exchange} :
    ¬ Refuses (t.request token, .ok exchange) e := by
  rw [refuses_mount]
  nofun

theorem not_refuses_listing {reply : Reply} {table : MountTable}
    (ht : reply.mountTable = .ok table) : ¬ Refuses (listRequest token, reply) e := by
  rw [refuses_listing, ht]
  nofun

theorem Installs.blames {policies : List Policy} {r : Except Failure (List String)}
    (h : Installs token policies xs r) : Blames xs r := by
  induction h with
  | nil => exact .ok .nil
  | @refused p rest e =>
    have hr : Refuses (policyRequest token p.name p.document, .error e) e := by
      rw [refuses_policy]
    exact .error (lastRefuses_singleton hr)
  | accepted _ ih => exact .map _ (.cons (fun _ => not_refuses_policy) ih)

theorem Mounts.blames {target : Option Target} {r : Except Failure (List String)}
    (h : Mounts token target xs r) : Blames xs r := by
  cases h with
  | absent => exact .ok .nil
  | unlisted he => exact .error (lastRefuses_singleton (refuses_listing.2 he))
  | present ht hm => exact .ok (.singleton fun _ => not_refuses_listing ht)
  | @refused t reply table e ht hm =>
    have hr : Refuses (t.request token, .error e) e := by rw [refuses_mount]
    exact .cons (fun _ => not_refuses_listing ht) (.error (lastRefuses_singleton hr))
  | accepted ht hm =>
    exact .ok (.cons (fun _ => not_refuses_listing ht) (.singleton fun _ => not_refuses_mount))

theorem Administers.blames {v : Except Failure (List String × List String)}
    (h : plan.Administers token xs v) : Blames xs v := by
  cases h with
  | @unpolicied ps f hp =>
    obtain ⟨e, hl, rfl⟩ := hp.blames.blamed f rfl
    exact .error hl
  | @keyValueless ps ks _ f hp hk =>
    obtain ⟨e, hl, rfl⟩ := hk.blames.blamed f rfl
    exact .append (hp.blames.clean rfl) (.error hl)
  | @consulless ps ks cs _ _ f hp hk hc =>
    obtain ⟨e, hl, rfl⟩ := hc.blames.blamed f rfl
    exact .append (hp.blames.clean rfl) (.append (hk.blames.clean rfl) (.error hl))
  | finished hp hk hc =>
    exact .ok ((hp.blames.clean rfl).append ((hk.blames.clean rfl).append (hc.blames.clean rfl)))

/-! ### Unsealing -/

/-- The store took a key share and stayed sealed. -/
def StaysSealed (x : Request × Reply) : Prop :=
  ∃ report, x.2.sealStatus = .ok report ∧ report.isSealed = true

/-- Submissions that run out of shares: all of them were sent, and the store stayed sealed. -/
structure RunsOut (keys : List String) (xs : List (Request × Reply)) : Prop where
  sent : xs.map Prod.fst = keys.map unsealRequest
  sealed : ∀ x ∈ xs, StaysSealed x

theorem RunsOut.clean {keys : List String} (h : RunsOut keys xs) : Clean xs := by
  intro x hx e he
  have hsent : xs.map Prod.fst <+: keys.map unsealRequest := h.sent ▸ List.prefix_rfl
  obtain ⟨key, hkey⟩ := exists_unsealRequest hsent hx
  obtain ⟨report, hr, -⟩ := h.sealed x hx
  rw [refuses_of_unseal (by rw [hkey, kind?_unsealRequest]), hr] at he
  cases he

/-- Unsealing fails with the submission that was refused, or because the shares ran out. -/
theorem blames_or_runsOut {keys : List String} {r : Except ClientError SealStatus}
    (h : (unsealWith keys).run.Transcript xs r) :
    (Blames xs (r.mapError ClientError.toFailure) ∧ ¬ RunsOut keys xs) ∨
      (RunsOut keys xs ∧ ∃ e, r = .error e ∧ e.kind = .failedPrecondition) := by
  have hkind : ∀ x ∈ xs, x.1.kind? = some .unseal := by
    intro x hx
    obtain ⟨key, hkey⟩ := exists_unsealRequest (map_fst_unsealWith h) hx
    rw [hkey, kind?_unsealRequest]
  rcases transcript_submitShares (Operation.transcript_note_bind.1 h) with
    ⟨ys, x, rfl, -, hy, hx, rfl⟩ | ⟨reports, hsent, hrep, hall, rfl⟩
  · have hlast : x ∈ ys ++ [x] := List.mem_append_right _ (List.mem_singleton.2 rfl)
    have hns : ¬ RunsOut keys (ys ++ [x]) := by
      intro ho
      obtain ⟨report, hr, hs⟩ := ho.sealed x hlast
      rw [hx report hr] at hs
      cases hs
    refine .inl ⟨?_, hns⟩
    cases hv : x.2.sealStatus with
    | error e =>
      exact .error (lastRefuses_concat.2 ((refuses_of_unseal (hkind x hlast)).2 hv))
    | ok report =>
      refine .ok (.append (fun y hm e he => ?_) (.singleton fun e he => ?_))
      · obtain ⟨report', hr', -⟩ := Reply.not_settles_iff.1 (hy y hm)
        rw [refuses_of_unseal (hkind y (List.mem_append_left _ hm)), hr'] at he
        cases he
      · rw [refuses_of_unseal (hkind x hlast), hv] at he
        cases he
  · refine .inr ⟨⟨hsent, fun x hx => ?_⟩, _, rfl, ?_⟩
    · exact Reply.not_settles_iff.1 (not_settles_of_reports hrep hall x hx)
    · cases reports.foldl UnsealProgress.advance .start <;> rfl

theorem runsOut_nil : RunsOut [] [] := ⟨rfl, fun _ h => absurd h List.not_mem_nil⟩

/-- Unsealing fails with its last exchange, or because a sealed store got all the shares there are
and stayed sealed. -/
theorem Unseals.blames_or_runsOut {health : Health} {init : Option InitMaterial}
    {v : Except Failure Unit} (h : plan.Unseals health init xs v) :
    (Blames xs v ∧ (health.isSealed = true → ¬ RunsOut (plan.shareList init) xs)) ∨
      (health.isSealed = true ∧ RunsOut (plan.shareList init) xs ∧
        ∃ f, v = .error f ∧ f.kind = .failedPrecondition) := by
  cases h with
  | needless hs => exact .inl ⟨.ok .nil, fun hs' => absurd (hs.symm.trans hs') (by decide)⟩
  | noKeys hs hi hk =>
    subst hi
    have ho : RunsOut (plan.shareList none) [] := by
      rw [shareList, hk]
      exact runsOut_nil
    exact .inr ⟨hs, ho, _, rfl, rfl⟩
  | stuck hs he =>
    rcases Plan.blames_or_runsOut he with ⟨hb, hn⟩ | ⟨ho, e', hr, hk⟩
    · exact .inl ⟨hb.map fun _ => (), fun _ => hn⟩
    · cases hr
      exact .inr ⟨hs, ho, _, rfl, hk⟩
  | opened hs hr =>
    rcases Plan.blames_or_runsOut hr with ⟨hb, hn⟩ | ⟨ho, e', hr, hk⟩
    · exact .inl ⟨hb.map fun _ => (), fun _ => hn⟩
    · cases hr

theorem Unseals.heeds {health : Health} {init : Option InitMaterial} {v : Except Failure Unit}
    (h : plan.Unseals health init xs v) : Heeds xs v := by
  rcases h.blames_or_runsOut with ⟨hb, -⟩ | ⟨-, ho, -⟩
  · exact hb.toHeeds
  · exact .of_clean ho.clean

/-- A share that opens the store is enough. -/
theorem Unseals.ok_of_opens {health : Health} {init : Option InitMaterial}
    {v : Except Failure Unit} (h : plan.Unseals health init xs v) (ho : ∃ x ∈ xs, Opens x) :
    v = .ok () := by
  obtain ⟨x, hx, hopen⟩ := ho
  cases h with
  | needless _ | opened _ _ => rfl
  | noKeys _ _ _ => cases hx
  | stuck hs he =>
    rcases transcript_submitShares (Operation.transcript_note_bind.1 he) with
      ⟨ys, y, rfl, -, hy, -, hr⟩ | ⟨reports, -, hrep, hall, -⟩
    -- a share that opens the store settles the submission, so it is the last one
    · rcases List.mem_append.1 hx with hm | hm
      · exact absurd (settles_of_opens hopen) (hy x hm)
      · obtain rfl := List.mem_singleton.1 hm
        obtain ⟨report, hreport, -⟩ := hopen
        rw [hreport] at hr
        cases hr
    · exact absurd (settles_of_opens hopen) (not_settles_of_reports hrep hall x hx)

/-! ### What can be seen of a run -/

/-- The status that the health check among some exchanges observed. -/
def healthStatus (xs : List (Request × Reply)) : Option UInt16 :=
  (ofKind .health xs).head?.bind (·.2.status?)

@[simp] theorem healthStatus_cons {reply : Reply} :
    healthStatus ((healthRequest, reply) :: xs) = reply.status? := by
  simp [healthStatus, ofKind]

/-- The store was seen open: the health check found it so, or found it sealed, and then a share
opened it. -/
def SeenOpen (xs : List (Request × Reply)) : Prop :=
  (∃ n ∈ [200, 429, 472, 473], healthStatus xs = some n) ∨
    (healthStatus xs = some 503 ∧ ∃ x ∈ ofKind .unseal xs, Opens x)

/-- The key shares at hand: those of the plan for a sealed store, fresh ones for a fresh store. -/
def Available (plan : Plan) (xs : List (Request × Reply)) (keys : List String) : Prop :=
  (healthStatus xs = some 503 ∧ keys = plan.unsealKeys) ∨
    (healthStatus xs = some 501 ∧ ∃ m, freshMaterial xs = some m ∧ keys = m.keysBase64)

/-- What makes a run fail, and with which kind of failure. -/
@[mk_iff]
inductive Stops (plan : Plan) (xs : List (Request × Reply)) : Failure.Kind → Prop
  /-- The last exchange was refused. -/
  | refused {e : ClientError} (hl : LastRefuses xs e) : Stops plan xs e.kind
  /-- The status of the store means nothing. -/
  | unclassified {n : UInt16} (hn : healthStatus xs = some n)
      (hc : n ∉ [200, 429, 472, 473, 501, 503]) : Stops plan xs .externalService
  /-- The numbers of shares are unusable. -/
  | shares (hn : healthStatus xs = some 501)
      (hv : ¬ (1 ≤ plan.secretThreshold ∧ plan.secretThreshold ≤ plan.secretShares)) :
      Stops plan xs .validation
  /-- The store is sealed and no shares are known. -/
  | keyless (hn : healthStatus xs = some 503) (hk : plan.unsealKeys = []) :
      Stops plan xs .failedPrecondition
  /-- The store took all the shares there are and stayed sealed. -/
  | exhausted {keys : List String} (ha : plan.Available xs keys)
      (ho : RunsOut keys (ofKind .unseal xs)) : Stops plan xs .failedPrecondition
  /-- The store is open, but there is no token. -/
  | tokenless (ho : SeenOpen xs) (ht : plan.authToken = none) : Stops plan xs .config

/-- A run ended with a failure of that kind. -/
def FailsWith (r : Except RunFailure Outcome) (kind : Failure.Kind) : Prop :=
  ∃ f, r = .error f ∧ f.failure.kind = kind

instance (r : Except RunFailure Outcome) (kind : Failure.Kind) : Decidable (FailsWith r kind) :=
  match r with
  | .ok _ => .isFalse fun ⟨_, h, _⟩ => nomatch h
  | .error f => decidable_of_iff (f.failure.kind = kind)
      ⟨fun h => ⟨f, rfl, h⟩, fun ⟨_, h, hk⟩ => Except.error.inj h ▸ hk⟩

/-! ### The preparation -/

theorem not_refuses_health {reply : Reply} (hn : reply.status? = some n) :
    ¬ Refuses (healthRequest, reply) e := by
  rw [refuses_health, statusOf_eq_ok_iff.2 hn]
  nofun

theorem Prepares.heeds {v : Except Failure (Health × Option InitMaterial)}
    (h : plan.Prepares xs v) : Heeds xs v := by
  cases h with
  | unanswered he => exact .error (lastRefuses_singleton (refuses_health.2 he))
  | unclassified hn hc => exact .of_clean (.singleton fun _ => not_refuses_health hn)
  | initialized hn hc => exact .of_clean (.singleton fun _ => not_refuses_health hn)
  | refused hn hv => exact .of_clean (.singleton fun _ => not_refuses_health hn)
  | failed hn hv he =>
    exact (Heeds.error (lastRefuses_singleton (refuses_init.2 he))).append
      (.singleton fun _ => not_refuses_health hn)
  | fresh hn hv hm =>
    refine .of_clean (.cons (fun _ => not_refuses_health hn) (.singleton fun e he => ?_))
    rw [refuses_init, hm] at he
    cases he

/-- A preparation that fails accounts for a failure of the run. -/
theorem Prepares.stops (h : plan.Prepares xs (.error f)) : plan.Stops xs f.kind := by
  cases h with
  | unanswered he => exact .refused (lastRefuses_singleton (refuses_health.2 he))
  | unclassified hn hc => exact .unclassified (healthStatus_cons.trans hn) hc
  | refused hn hv =>
    refine .shares (healthStatus_cons.trans hn) fun hs => ?_
    rw [validShares_iff.2 hs] at hv
    cases hv
  | @failed reply reply' e hn hv he =>
    have hclean : Clean [(healthRequest, reply)] := .singleton fun _ => not_refuses_health hn
    exact .refused ((lastRefuses_append hclean).2 (lastRefuses_singleton (refuses_init.2 he)))

theorem status_eq {reply : Reply} {m n : UInt16} (hm : reply.status? = some m)
    (hn : healthStatus ((healthRequest, reply) :: xs) = some n) : m = n := by
  rw [healthStatus_cons] at hn
  exact Option.some.inj (hm.symm.trans hn)

section Status

variable {v : Except Failure (Health × Option InitMaterial)}

theorem Prepares.of_unclassified (h : plan.Prepares xs v) (hn : healthStatus xs = some n)
    (hc : n ∉ [200, 429, 472, 473, 501, 503]) : v = .error (unknownHealth n) := by
  cases h with
  | unanswered he =>
    rw [statusOf_eq_ok_iff.2 (healthStatus_cons.symm.trans hn)] at he
    cases he
  | unclassified hn' _ => rw [status_eq hn' hn]
  | initialized hn' hc' =>
    obtain rfl := status_eq hn' hn
    have hsub : List.Sublist ([200, 429, 472, 473, 503] : List UInt16)
        [200, 429, 472, 473, 501, 503] := by decide
    exact absurd (hsub.subset hc') hc
  | refused hn' _ | failed hn' _ _ | fresh hn' _ _ =>
    obtain rfl := status_eq hn' hn
    exact absurd (by decide) hc

theorem Prepares.of_initialized (h : plan.Prepares xs v) (hn : healthStatus xs = some n)
    (hc : n ∈ [200, 429, 472, 473, 503]) : v = .ok (.ofStatus n, none) := by
  cases h with
  | unanswered he =>
    rw [statusOf_eq_ok_iff.2 (healthStatus_cons.symm.trans hn)] at he
    cases he
  | unclassified hn' hc' =>
    obtain rfl := status_eq hn' hn
    have hsub : List.Sublist ([200, 429, 472, 473, 503] : List UInt16)
        [200, 429, 472, 473, 501, 503] := by decide
    exact absurd (hsub.subset hc) hc'
  | initialized hn' _ => rw [status_eq hn' hn]
  | refused hn' _ | failed hn' _ _ | fresh hn' _ _ =>
    obtain rfl := status_eq hn' hn
    exact absurd hc (by decide)

/-- A store that is not initialized gets an initialization, unless the numbers of shares are
unusable. -/
theorem Prepares.of_uninitialized (h : plan.Prepares xs v) (hn : healthStatus xs = some 501) :
    (validShares plan.secretShares plan.secretThreshold = false ∧ freshMaterial xs = none ∧
      v = .error (sharesRefused plan.secretShares plan.secretThreshold).toFailure) ∨
    (validShares plan.secretShares plan.secretThreshold = true ∧
      ((freshMaterial xs = none ∧ ∃ f, v = .error f) ∨
        ∃ m, freshMaterial xs = some m ∧ v = .ok (.notInitialized, some m))) := by
  have hinit {reply reply' : Reply} : freshMaterial [(healthRequest, reply),
      (initRequest plan.secretShares plan.secretThreshold, reply')] =
        reply'.material.toOption := by
    rw [freshMaterial_health_cons, freshMaterial, List.findSome?_cons,
      if_pos (kind?_initRequest ..)]
    cases reply'.material.toOption <;> rfl
  cases h with
  | unanswered he =>
    rw [statusOf_eq_ok_iff.2 (healthStatus_cons.symm.trans hn)] at he
    cases he
  | unclassified hn' hc =>
    obtain rfl := status_eq hn' hn
    exact absurd (by decide) hc
  | initialized hn' hc =>
    obtain rfl := status_eq hn' hn
    exact absurd hc (by decide)
  | refused _ hv => exact .inl ⟨hv, freshMaterial_health_cons, rfl⟩
  | failed _ hv he => exact .inr ⟨hv, .inl ⟨by rw [hinit, he]; rfl, _, rfl⟩⟩
  | fresh _ hv hm => exact .inr ⟨hv, .inr ⟨_, by rw [hinit, hm]; rfl, rfl⟩⟩

end Status

/-! ### The run -/

theorem healthStatus_append_of_prepares {v : Except Failure (Health × Option InitMaterial)}
    (h : plan.Prepares xs v) : healthStatus (xs ++ ys) = healthStatus xs := by
  obtain ⟨reply, init, rfl, -⟩ := h.prepared
  rw [List.cons_append, healthStatus_cons, healthStatus_cons]

theorem ofKind_unseal_append_of_prepares {v : Except Failure (Health × Option InitMaterial)}
    (h : plan.Prepares xs v) : ofKind .unseal (xs ++ ys) = ofKind .unseal ys := by
  rw [ofKind_append, ofKind_prepares h (by decide), List.nil_append]

theorem Configures.heeds {health : Health} {init : Option InitMaterial}
    {c : Except Failure Configured} (h : plan.Configures health init xs c) : Heeds xs c := by
  cases h with
  | stuck hu => exact ⟨fun e hl => by cases hu.heeds.fails e hl; rfl, nofun⟩
  | tokenless hu ht => exact .of_clean (hu.heeds.clean rfl)
  | administered hu ht ha =>
    exact .append (hu.heeds.clean rfl) (ha.blames.toHeeds.map _)

/-- What a run with a refused exchange ends with. -/
theorem failure_of_lastRefuses {r : Except RunFailure Outcome} (h : plan.run.Transcript xs r)
    (hl : LastRefuses xs e) : ∃ init, r = .error ⟨e.toFailure, init⟩ := by
  rcases course_of_run h with ⟨f, hp, rfl⟩ | ⟨ys, zs, health, init, c, rfl, hp, hc, rfl⟩
  · cases hp.heeds.fails e hl
    exact ⟨none, rfl⟩
  · rw [hc.heeds.fails e ((lastRefuses_append (hp.heeds.clean rfl)).1 hl)]
    exact ⟨init, rfl⟩

section Configuration

variable {health : Health} {init : Option InitMaterial} {c : Except Failure Configured}

/-- A preparation that succeeds ends with the material that its exchanges hand out. -/
theorem Prepares.freshMaterial_eq (h : plan.Prepares xs (.ok (health, init))) :
    freshMaterial xs = init := by
  obtain ⟨reply, rest, rfl, hprep⟩ := h.prepared
  rw [freshMaterial_health_cons]
  exact hprep.fresh health init rfl

/-- The status that lets a run go on to configure the store. -/
theorem Prepares.status_of_ok (h : plan.Prepares xs (.ok (health, init))) :
    (∃ n ∈ [200, 429, 472, 473, 503], healthStatus xs = some n ∧ health = .ofStatus n ∧
      init = none) ∨
    (healthStatus xs = some 501 ∧ health = .notInitialized ∧
      ∃ m, init = some m ∧ freshMaterial xs = some m) := by
  have hfresh := h.freshMaterial_eq
  cases h with
  | initialized hn hc => exact .inl ⟨_, hc, healthStatus_cons.trans hn, rfl, rfl⟩
  | fresh hn hv hm => exact .inr ⟨healthStatus_cons.trans hn, rfl, _, rfl, hfresh⟩

/-- A sealed store is offered the key shares at hand. -/
theorem available_of_configures (hp : plan.Prepares ys (.ok (health, init)))
    (hc : plan.Configures health init xs c) (hs : health.isSealed = true) :
    plan.Available (ys ++ xs) (plan.shareList init) := by
  have hfresh : freshMaterial (ys ++ xs) = freshMaterial ys :=
    freshMaterial_append_of_ne fun x hx => kind?_ne_init_of_configures hc hx
  rw [Available, healthStatus_append_of_prepares hp, hfresh]
  rcases hp.status_of_ok with ⟨n, hmem, hn, rfl, rfl⟩ | ⟨hn, rfl, m, rfl, hm⟩
  · rw [Health.eq_of_isSealed hmem hs] at hn
    exact .inl ⟨hn, rfl⟩
  · exact .inr ⟨hn, m, hm, rfl⟩

/-- A store that is open by the time a token is needed was seen open, unless it is fresh. -/
theorem seenOpen_of_unseals {us : List (Request × Reply)}
    (hp : plan.Prepares ys (.ok (health, none))) (hu : plan.Unseals health none us (.ok ())) :
    SeenOpen (ys ++ us) := by
  rw [SeenOpen, healthStatus_append_of_prepares hp, ofKind_unseal_append_of_prepares hp,
    ofKind_unseals hu]
  rcases hp.status_of_ok with ⟨n, hmem, hn, rfl, -⟩ | ⟨-, -, m, hm, -⟩
  · cases hs : (Health.ofStatus n).isSealed with
    | false => exact .inl ⟨n, Health.mem_of_not_isSealed hmem hs, hn⟩
    | true =>
      have hopen := hu.unsealed.2 rfl hs
      rw [Health.eq_of_isSealed hmem hs] at hn
      exact .inr ⟨hn, hopen⟩
  · cases hm

theorem token_eq_error (h : plan.token init = .error f) :
    init = none ∧ plan.authToken = none ∧ f = noToken := by
  cases init with
  | some m => cases h
  | none =>
    rw [token] at h
    cases ha : plan.authToken with
    | some t =>
      rw [ha] at h
      cases h
    | none =>
      rw [ha] at h
      cases h
      exact ⟨rfl, rfl, rfl⟩

/-- A configuration that fails accounts for a failure of the run. -/
theorem Configures.stops (hp : plan.Prepares ys (.ok (health, init)))
    (hc : plan.Configures health init xs (.error f)) : plan.Stops (ys ++ xs) f.kind := by
  have hlast {e : ClientError} (hl : LastRefuses xs e) : plan.Stops (ys ++ xs) e.kind :=
    .refused ((lastRefuses_append (hp.heeds.clean rfl)).2 hl)
  have hc' := hc
  generalize hr : (Except.error f : Except Failure Configured) = c at hc'
  cases hc' with
  | stuck hu =>
    cases hr
    rcases hu.blames_or_runsOut with ⟨hb, -⟩ | ⟨hs, ho, f', hf, hk⟩
    · obtain ⟨e, hl, rfl⟩ := hb.blamed f rfl
      exact hlast hl
    · cases hf
      rw [hk]
      refine .exhausted (available_of_configures hp hc hs) ?_
      rwa [ofKind_unseal_append_of_prepares hp, ofKind_unseals hu]
  | tokenless hu ht =>
    cases hr
    obtain ⟨rfl, hauth, rfl⟩ := token_eq_error ht
    exact .tokenless (seenOpen_of_unseals hp hu) hauth
  | @administered us zs token v hu ht ha =>
    cases v with
    | ok done => cases hr
    | error f' =>
      cases hr
      obtain ⟨e, hl, rfl⟩ := ha.blames.blamed f rfl
      exact hlast ((lastRefuses_append (hu.heeds.clean rfl)).2 hl)

/-- Shares that run out end the configuration of a sealed store. -/
theorem Configures.failure_of_runsOut (hc : plan.Configures health init xs c)
    (hs : health.isSealed = true) (ho : RunsOut (plan.shareList init) (ofKind .unseal xs)) :
    ∃ f, c = .error f ∧ f.kind = .failedPrecondition := by
  obtain ⟨v, hu, herr, -⟩ := unseals_of_configures hc
  rcases hu.blames_or_runsOut with ⟨-, hn⟩ | ⟨-, -, f, rfl, hk⟩
  · exact absurd ho (hn hs)
  · exact ⟨f, herr f rfl, hk⟩

/-- Without shares they run out at once. -/
theorem Configures.runsOut_of_keyless (hc : plan.Configures health init xs c)
    (hk : plan.shareList init = []) :
    RunsOut (plan.shareList init) (ofKind .unseal xs) := by
  obtain ⟨v, hu, -⟩ := unseals_of_configures hc
  have hnil : ofKind .unseal xs = [] := by
    have hsent := map_fst_unseals hu
    rw [hk] at hsent
    exact List.map_eq_nil_iff.1 (List.prefix_nil.1 hsent)
  rw [hk, hnil]
  exact runsOut_nil

/-- An open store ends the configuration when there is no token. -/
theorem Configures.eq_noToken (hc : plan.Configures health none xs c)
    (ho : health.isSealed = false ∨ ∃ x ∈ ofKind .unseal xs, Opens x)
    (ht : plan.authToken = none) : c = .error noToken := by
  obtain ⟨v, hu, -, htok⟩ := unseals_of_configures hc
  have hv : v = .ok () := by
    generalize ofKind .unseal xs = us at hu ho
    rcases ho with hs | ho
    · cases hu with
      | needless _ | opened _ _ => rfl
      | noKeys hs' _ _ | stuck hs' _ => cases hs.symm.trans hs'
    · exact hu.ok_of_opens ho
  exact htok noToken hv (by rw [token, ht])

end Configuration

/-- A run by its preparation, which alone decides about its status and its material. -/
theorem exists_preparation {r : Except RunFailure Outcome} (h : plan.run.Transcript xs r) :
    ∃ ys zs v, plan.Prepares ys v ∧ healthStatus xs = healthStatus ys ∧
      freshMaterial xs = freshMaterial ys ∧ ofKind .unseal xs = ofKind .unseal zs ∧
      (∀ f, v = .error f → r = .error ⟨f, none⟩) ∧
      ∀ health init, v = .ok (health, init) →
        ∃ c, plan.Configures health init zs c ∧ r = conclude health init c := by
  rcases course_of_run h with ⟨f, hp, rfl⟩ | ⟨ys, zs, health, init, c, rfl, hp, hc, rfl⟩
  · refine ⟨xs, [], _, hp, rfl, rfl, ofKind_prepares hp (by decide), ?_, nofun⟩
    rintro _ ⟨⟩
    rfl
  · refine ⟨ys, zs, _, hp, healthStatus_append_of_prepares hp,
      freshMaterial_append_of_ne fun x hx => kind?_ne_init_of_configures hc hx,
      ofKind_unseal_append_of_prepares hp, nofun, ?_⟩
    rintro _ _ ⟨⟩
    exact ⟨c, hc, rfl⟩

theorem failsWith_conclude {health : Health} {init : Option InitMaterial} {kind : Failure.Kind}
    (hk : f.kind = kind) : FailsWith (conclude health init (.error f)) kind :=
  ⟨_, rfl, hk⟩

/-- A store that was seen open is not prepared any further. -/
theorem Prepares.of_seenOpen {v : Except Failure (Health × Option InitMaterial)}
    (h : plan.Prepares ys v) (hstatus : healthStatus xs = healthStatus ys) (ho : SeenOpen xs) :
    ∃ health, v = .ok (health, none) ∧
      (health.isSealed = false ∨ ∃ x ∈ ofKind .unseal xs, Opens x) := by
  rcases ho with ⟨n, hmem, hn⟩ | ⟨hn, hopen⟩
  · have hsub : List.Sublist ([200, 429, 472, 473] : List UInt16)
        [200, 429, 472, 473, 503] := by decide
    refine ⟨_, h.of_initialized (hstatus ▸ hn) (hsub.subset hmem), .inl ?_⟩
    simp only [List.mem_cons, List.not_mem_nil, or_false] at hmem
    rcases hmem with rfl | rfl | rfl | rfl <;> rfl
  · exact ⟨_, h.of_initialized (hstatus ▸ hn) (by decide), .inr hopen⟩

/-- A run against an open store ends for want of a token, if there is none. -/
theorem eq_noToken_of_seenOpen {r : Except RunFailure Outcome} (h : plan.run.Transcript xs r)
    (ho : SeenOpen xs) (ht : plan.authToken = none) : r = .error ⟨noToken, none⟩ := by
  obtain ⟨ys, zs, v, hp, hstatus, -, hunseal, -, hok⟩ := exists_preparation h
  obtain ⟨health, hv, ho⟩ := hp.of_seenOpen hstatus ho
  obtain ⟨c, hc, rfl⟩ := hok _ _ hv
  rw [hunseal] at ho
  rw [hc.eq_noToken ho ht]
  rfl

/-- What accounts for a failure makes the run fail. -/
theorem failsWith_of_stops {r : Except RunFailure Outcome} {kind : Failure.Kind}
    (h : plan.run.Transcript xs r) (hs : plan.Stops xs kind) : FailsWith r kind := by
  obtain ⟨ys, zs, v, hp, hstatus, hfresh, hunseal, herror, hok⟩ := exists_preparation h
  -- with shares at hand the run goes on to unseal the store
  have hexhausted {keys : List String} (ha : plan.Available xs keys)
      (ho : keys = [] ∨ RunsOut keys (ofKind .unseal xs)) : FailsWith r .failedPrecondition := by
    have hgoes : ∃ health init, v = .ok (health, init) ∧ health.isSealed = true ∧
        plan.shareList init = keys := by
      rcases ha with ⟨hn, rfl⟩ | ⟨hn, m, hm, rfl⟩
      · exact ⟨_, _, hp.of_initialized (hstatus ▸ hn) (by decide), rfl, rfl⟩
      · rw [hfresh] at hm
        rcases hp.of_uninitialized (hstatus ▸ hn) with
          ⟨-, hnone, -⟩ | ⟨-, ⟨hnone, -⟩ | ⟨m', hm', hv⟩⟩
        · cases hnone.symm.trans hm
        · cases hnone.symm.trans hm
        · cases hm'.symm.trans hm
          exact ⟨_, _, hv, rfl, rfl⟩
    obtain ⟨health, init, hv, hsealed, rfl⟩ := hgoes
    obtain ⟨c, hc, rfl⟩ := hok _ _ hv
    have hout : RunsOut (plan.shareList init) (ofKind .unseal zs) := by
      rcases ho with hk | ho
      · exact hc.runsOut_of_keyless hk
      · rwa [hunseal] at ho
    obtain ⟨f, rfl, hk⟩ := hc.failure_of_runsOut hsealed hout
    exact failsWith_conclude hk
  cases hs with
  | refused hl =>
    obtain ⟨init, hr⟩ := failure_of_lastRefuses h hl
    exact ⟨_, hr, rfl⟩
  | unclassified hn hc => exact ⟨_, herror _ (hp.of_unclassified (hstatus ▸ hn) hc), rfl⟩
  | shares hn hv =>
    rcases hp.of_uninitialized (hstatus ▸ hn) with ⟨-, -, hf⟩ | ⟨hvalid, -⟩
    · exact ⟨_, herror _ hf, rfl⟩
    · exact absurd (validShares_iff.1 hvalid) hv
  | keyless hn hk => exact hexhausted (.inl ⟨hn, rfl⟩) (.inl hk)
  | exhausted ha ho => exact hexhausted ha (.inr ho)
  | tokenless ho ht => exact ⟨_, eq_noToken_of_seenOpen h ho ht, rfl⟩

/-- A run fails with a kind of failure exactly if something in its exchanges accounts for it. -/
theorem failsWith_iff_stops {r : Except RunFailure Outcome} {kind : Failure.Kind}
    (h : plan.run.Transcript xs r) : FailsWith r kind ↔ plan.Stops xs kind := by
  refine ⟨?_, failsWith_of_stops h⟩
  rintro ⟨f, rfl, rfl⟩
  rcases course_of_run h with ⟨f, hp, hr⟩ | ⟨ys, zs, health, init, c, rfl, hp, hc, hr⟩
  · cases hr
    exact hp.stops
  · cases c with
    | ok done => cases hr
    | error f =>
      cases hr
      exact hc.stops hp

/-! ### Kinds of failure -/

/-- An executor's error is passed on, but for one with a status that answers a health check. -/
theorem refuses_error_iff {q : Request} {e' : ClientError} :
    Refuses (q, .error e') e ↔ e = e' ∧ (q.kind? = some .health → e'.status? = none) := by
  rw [Refuses]
  cases q.kind? with
  | none => simp [eq_comm]
  | some kind =>
    cases kind with
    | health => cases hs : e'.status? <;> simp [statusOf, hs, eq_comm]
    | _ => simp [Reply.material, Reply.sealStatus, Reply.mountTable, Reply.decode, eq_comm]

/-- A response is refused if its body is not what its operation needs. -/
theorem exists_refuses_ok_iff {q : Request} {exchange : Exchange} {kind : Failure.Kind} :
    (∃ e, Refuses (q, .ok exchange) e ∧ e.kind = kind) ↔
      Undecodable (q, .ok exchange) ∧ kind = .internal := by
  have hdecode {α : Type} {reader : Json.Reader α} :
      (∃ e, exchange.decode reader = .error e ∧ e.kind = kind) ↔
        (∃ e, exchange.decode reader = .error e) ∧ kind = .internal := by
    constructor
    · rintro ⟨e, he, rfl⟩
      obtain ⟨message, rfl⟩ := Exchange.decode_eq_error he
      exact ⟨⟨_, he⟩, rfl⟩
    · rintro ⟨⟨e, he⟩, rfl⟩
      obtain ⟨message, rfl⟩ := Exchange.decode_eq_error he
      exact ⟨_, he, rfl⟩
  simp only [Refuses, Undecodable, Except.ok.injEq, exists_eq_left']
  cases q.kind? with
  | none => simp
  | some k =>
    cases k with
    | health | policy | mount => simp [statusOf]
    | _ => exact hdecode

theorem health_decodable {q : Request} {exchange : Exchange}
    (hq : q.kind? = some .health) : ¬ Undecodable (q, .ok exchange) := by
  rintro ⟨_, -, h⟩
  rw [hq] at h
  exact h

/-- What is wrong with an exchange, and which kind of failure that is. For a health check an error
with a status is an answer like any other. -/
@[mk_iff]
inductive Faults (x : Request × Reply) : Failure.Kind → Prop
  | silent (hr : x.2.IsSilence) : Faults x .externalService
  | forbidden (hq : x.1.kind? ≠ some .health) (hr : x.2.IsUnexpected 401 ∨ x.2.IsUnexpected 403) :
      Faults x .forbidden
  | missing (hq : x.1.kind? ≠ some .health) (hr : x.2.IsUnexpected 404) : Faults x .notFound
  | unexpected {n : UInt16} (hq : x.1.kind? ≠ some .health) (hn : n ∉ [401, 403, 404])
      (hr : x.2.IsUnexpected n) : Faults x .externalService
  | unreadable (hq : x.1.kind? ≠ some .health) (hr : x.2.IsUnreadable ∨ Undecodable x) :
      Faults x .internal

theorem faults_unexpected {q : Request} {operation : String} {expected : UInt16}
    {errors : List String} (hq : q.kind? ≠ some .health) :
    Faults (q, .error (.unexpectedStatus operation expected n errors))
      (ClientError.kindOfStatus n) := by
  have hr : Reply.IsUnexpected n (.error (.unexpectedStatus operation expected n errors)) :=
    ⟨_, _, _, rfl⟩
  by_cases hforbidden : n = 401 ∨ n = 403
  · rw [ClientError.kindOfStatus, if_pos hforbidden]
    refine .forbidden hq ?_
    rcases hforbidden with rfl | rfl
    · exact .inl hr
    · exact .inr hr
  rw [ClientError.kindOfStatus, if_neg hforbidden]
  by_cases hmissing : n = 404
  · subst hmissing
    exact .missing hq hr
  · rw [if_neg hmissing]
    exact .unexpected hq (by simp [not_or.1 hforbidden, hmissing]) hr

/-- An exchange that ends its operation is at fault, if its reply is one that was promised. -/
theorem faults_of_refuses (hp : x.2.Promised) (h : Refuses x e) : Faults x e.kind := by
  obtain ⟨q, reply⟩ := x
  cases reply with
  | ok exchange =>
    obtain ⟨hu, hk⟩ := exists_refuses_ok_iff.1 ⟨e, h, rfl⟩
    rw [hk]
    exact .unreadable (fun hq => health_decodable hq hu) (.inr hu)
  | error e' =>
    obtain ⟨rfl, hhealth⟩ := refuses_error_iff.1 h
    cases e with
    | encode | thresholdNotReached | invalidArgument | setup => cases hp
    | noResponse operation source => exact .silent ⟨operation, source, rfl⟩
    | unexpectedStatus operation expected n errors =>
      exact faults_unexpected fun hq => by cases hhealth hq
    | decode operation status message =>
      exact .unreadable (fun hq => by cases hhealth hq) (.inl ⟨operation, status, message, rfl⟩)

/-- An exchange at fault ends its operation. -/
theorem exists_refuses_of_faults {kind : Failure.Kind} (h : Faults x kind) :
    ∃ e, Refuses x e ∧ e.kind = kind := by
  obtain ⟨q, reply⟩ := x
  have herror {e : ClientError} (hq : q.kind? ≠ some .health) (hr : reply = .error e) :
      ∃ e', Refuses (q, reply) e' ∧ e'.kind = e.kind := by
    rw [hr]
    exact ⟨e, refuses_error_iff.2 ⟨rfl, fun h => absurd h hq⟩, rfl⟩
  cases h with
  | silent hr =>
    obtain ⟨operation, source, rfl⟩ := hr
    exact ⟨_, refuses_error_iff.2 ⟨rfl, fun _ => rfl⟩, rfl⟩
  | forbidden hq hr =>
    rcases hr with ⟨_, _, _, hr⟩ | ⟨_, _, _, hr⟩
    · exact herror hq hr
    · exact herror hq hr
  | missing hq hr =>
    obtain ⟨_, _, _, hr⟩ := hr
    exact herror hq hr
  | @unexpected n hq hn hr =>
    obtain ⟨_, _, _, hr⟩ := hr
    have hkind : ClientError.kindOfStatus n = .externalService := by
      simp only [List.mem_cons, List.not_mem_nil, or_false, not_or] at hn
      rw [ClientError.kindOfStatus, if_neg (not_or.2 ⟨hn.1, hn.2.1⟩), if_neg hn.2.2]
    rw [← hkind]
    exact herror hq hr
  | unreadable hq hr =>
    rcases hr with ⟨_, _, _, hr⟩ | hu
    · exact herror hq hr
    · obtain ⟨exchange, rfl, -⟩ := id hu
      exact exists_refuses_ok_iff.2 ⟨hu, rfl⟩

/-- **The kinds of failure.** A run against an executor that answers with exchanges and with errors
of requests fails with

* `validation` if the store is not initialized and the numbers of shares are unusable; then nothing
  was sent after the health check;
* `config` if the store is open without being initialized by this run and there is no token;
* `failedPrecondition` if the store is sealed and no shares are known, or it took all the shares
  there are and stayed sealed;
* `forbidden`, `notFound` or `internal` if the last request, not being a health check, was answered
  401 or 403, answered 404, or got a reply that cannot be read;
* `externalService` if the last request got no response or another unexpected status, or the status
  of the store means nothing;

and only then. -/
theorem run_failure_kind (plan : Plan) (answer : Request → σ → Reply × σ) (s : σ)
    (hanswer : ∀ q s, (answer q s).1.Promised) :
    let out := plan.run.run answer s
    let xs := out.exchanges
    (FailsWith out.result .validation ↔
      healthStatus xs = some 501 ∧
        ¬ (1 ≤ plan.secretThreshold ∧ plan.secretThreshold ≤ plan.secretShares)) ∧
    (FailsWith out.result .validation → ∃ reply, xs = [(healthRequest, reply)]) ∧
    (FailsWith out.result .config ↔ SeenOpen xs ∧ plan.authToken = none) ∧
    (FailsWith out.result .failedPrecondition ↔
      (healthStatus xs = some 503 ∧ plan.unsealKeys = []) ∨
        ∃ keys, plan.Available xs keys ∧ RunsOut keys (ofKind .unseal xs)) ∧
    (FailsWith out.result .forbidden ↔
      ∃ x, xs.getLast? = some x ∧ x.1.kind? ≠ some .health ∧
        (x.2.IsUnexpected 401 ∨ x.2.IsUnexpected 403)) ∧
    (FailsWith out.result .notFound ↔
      ∃ x, xs.getLast? = some x ∧ x.1.kind? ≠ some .health ∧ x.2.IsUnexpected 404) ∧
    (FailsWith out.result .internal ↔
      ∃ x, xs.getLast? = some x ∧ x.1.kind? ≠ some .health ∧
        (x.2.IsUnreadable ∨ Undecodable x)) ∧
    (FailsWith out.result .externalService ↔
      (∃ x, xs.getLast? = some x ∧
        (x.2.IsSilence ∨
          ∃ n, x.1.kind? ≠ some .health ∧ n ∉ [401, 403, 404] ∧ x.2.IsUnexpected n)) ∨
      ∃ n, healthStatus xs = some n ∧ n ∉ [200, 429, 472, 473, 501, 503]) := by
  intro out xs
  have ht : plan.run.Transcript xs out.result := transcript_run answer plan.run s
  have hlast (kind : Failure.Kind) : (∃ e, LastRefuses xs e ∧ kind = e.kind) ↔
      ∃ x, xs.getLast? = some x ∧ Faults x kind := by
    constructor
    · rintro ⟨e, ⟨x, hx, hr⟩, rfl⟩
      obtain ⟨s', hs'⟩ := exists_answer_of_mem (List.mem_of_getLast? hx)
      exact ⟨x, hx, faults_of_refuses (hs' ▸ hanswer x.1 s') hr⟩
    · rintro ⟨x, hx, hf⟩
      obtain ⟨e, hr, rfl⟩ := exists_refuses_of_faults hf
      exact ⟨e, ⟨x, hx, hr⟩, rfl⟩
  have hkind (kind : Failure.Kind) : FailsWith out.result kind ↔ _ :=
    (failsWith_iff_stops ht).trans (plan.stops_iff xs kind)
  have hrefused : healthStatus xs = some 501 ∧
      ¬ (1 ≤ plan.secretThreshold ∧ plan.secretThreshold ≤ plan.secretShares) →
      ∃ reply, xs = [(healthRequest, reply)] := by
    rintro ⟨hn, hv⟩
    obtain ⟨p, token, hx, hp⟩ := exists_phases ht
    rw [show xs = p.all from hx, Phases.all, healthStatus_cons] at hn
    exact ⟨p.health, hx.trans (hp.all_of_refused hn hv)⟩
  -- each kind has its own ways to stop, and its own faults of the last exchange
  simp only [hkind, hlast, faults_iff, reduceCtorEq, and_false, and_true, exists_false, false_or,
    or_false, true_and]
  exact hrefused

/-- A plan for a store that is open, with a policy. -/
def reconfiguring : Plan where
  secretShares := 1
  secretThreshold := 1
  unsealKeys := []
  authToken := some "stale"
  policies := [⟨"reader", "path \"secret/*\""⟩]
  keyValue := none
  consul := none

/-- An open store that accepts no token. -/
def guardedStore (r : Request) (s : Unit) : Reply × Unit :=
  (match r.kind? with
    | some .health => .ok ⟨r.operation, 200, []⟩
    | _ => .error (.unexpectedStatus r.operation r.expectedStatus 403 ["permission denied"]), s)

theorem run_failure_kind_of_guarded :
    let xs := (reconfiguring.run.run guardedStore ()).exchanges
    (∀ q s, (guardedStore q s).1.Promised) ∧
      ∃ x, xs.getLast? = some x ∧ x.1.kind? ≠ some .health ∧
        (x.2.IsUnexpected 401 ∨ x.2.IsUnexpected 403) := by
  have hanswer : ∀ q s, (guardedStore q s).1.Promised := by
    intro q s
    rw [guardedStore]
    split <;> trivial
  have hfails : FailsWith (reconfiguring.run.run guardedStore ()).result .forbidden := by decide
  obtain ⟨-, -, -, -, hforbidden, -⟩ := run_failure_kind reconfiguring guardedStore () hanswer
  exact ⟨hanswer, hforbidden.1 hfails⟩

end Plan

end SecretStore
