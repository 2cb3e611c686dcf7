import SecretStore.Proofs.Provisioning.Course

/-!
# The order of a run

The exchanges of a run fall into phases: the health check, the initialization, the key shares, the
policies and the two engines. `Plan.script` lists what the phases are to send, and `Lawful` says how
far a run gets in it:

* `Follows`: the requests begin a script, and nothing is sent after an exchange that failed;
* `Prepared`, `Unsealed` and `Administered`: what the steps of a run contribute;
* `exists_phases` puts them together, and `run_in_order` is the law for every run.
-/

namespace SecretStore.Plan

open Interaction Client

variable {σ : Type} {plan : Plan} {token : String} {xs ys : List (Request × Reply)}

/-- An exchange that ends its run: the executor failed, or the reply cannot be read. For a health
check an error with a status is an answer, but a status without a meaning is not. -/
def Fails (x : Request × Reply) : Prop :=
  match x.1.kind? with
  | some .health => ∀ n, x.2.status? = some n → n ∉ [200, 429, 472, 473, 501, 503]
  | some .init => ∃ e, x.2.material = .error e
  | some .unseal => ∃ e, x.2.sealStatus = .error e
  | some .listing => ∃ e, x.2.mountTable = .error e
  | _ => ∃ e, x.2 = .error e

/-- The reply reports that the store is open. -/
def Opens (x : Request × Reply) : Prop :=
  ∃ report, x.2.sealStatus = .ok report ∧ report.isSealed = false

/-! ### Scripts -/

/-- The requests begin the script, none follows an exchange that failed, and if the step is done
they are the whole script. -/
structure Follows (script : List Request) (xs : List (Request × Reply)) (done : Bool) : Prop where
  ordered : xs.map Prod.fst <+: script
  stops : xs.Pairwise fun a _ => ¬ Fails a
  complete : done = true → xs.map Prod.fst = script ∧ ∀ a ∈ xs, ¬ Fails a

namespace Follows

variable {script script' : List Request} {done : Bool}

theorem nil : Follows [] [] done :=
  ⟨List.prefix_rfl, List.Pairwise.nil, fun _ => ⟨rfl, fun _ h => absurd h List.not_mem_nil⟩⟩

theorem singleton (x : Request × Reply) (h : done = true → ¬ Fails x) :
    Follows [x.1] [x] done := by
  refine ⟨List.prefix_rfl, List.pairwise_singleton _ _, fun hd => ⟨rfl, ?_⟩⟩
  intro a ha
  rw [List.mem_singleton.1 ha]
  exact h hd

/-- An exchange that ends the run. -/
theorem stop (x : Request × Reply) : Follows [x.1] [x] false :=
  singleton x nofun

theorem append (h : Follows script xs true) (h' : Follows script' ys done) :
    Follows (script ++ script') (xs ++ ys) done := by
  obtain ⟨hx, hf⟩ := h.complete rfl
  refine ⟨?_, ?_, fun hd => ?_⟩
  · rw [List.map_append, hx]
    exact (List.prefix_append_right_inj _).2 h'.ordered
  · exact List.pairwise_append.2 ⟨h.stops, h'.stops, fun a ha _ _ => hf a ha⟩
  · obtain ⟨hy, hg⟩ := h'.complete hd
    refine ⟨by rw [List.map_append, hx, hy], fun a ha => ?_⟩
    rcases List.mem_append.1 ha with ha | ha
    · exact hf a ha
    · exact hg a ha

theorem cons (x : Request × Reply) (hx : ¬ Fails x) (h : Follows script xs done) :
    Follows (x.1 :: script) (x :: xs) done :=
  append (singleton x fun _ => hx) h

/-- A run may end here and leave the rest of the script unsent. -/
theorem halt (h : Follows script xs done) : Follows (script ++ script') xs false :=
  ⟨h.ordered.trans (List.prefix_append _ _), h.stops, fun hd => absurd hd (by decide)⟩

end Follows

/-- The request of the initialization, if the status asks for it and the numbers are usable. -/
def initScript (plan : Plan) (status : Option UInt16) : List Request :=
  if status = some 501 ∧ 1 ≤ plan.secretThreshold ∧ plan.secretThreshold ≤ plan.secretShares then
    [initRequest plan.secretShares plan.secretThreshold]
  else []

/-- The init material that is handed out in some exchanges. -/
def freshMaterial (xs : List (Request × Reply)) : Option InitMaterial :=
  xs.findSome? fun x => if x.1.kind? = some .init then x.2.material.toOption else none

/-- The key shares that may be submitted: the fresh ones to a fresh store, those of the plan to a
sealed one. -/
def sharesAfter (plan : Plan) (status : Option UInt16) (fresh : Option InitMaterial) :
    List String :=
  if status = some 501 then (fresh.map (·.keysBase64)).getD []
  else if status = some 503 then plan.unsealKeys
  else []

/-- The token that goes with some exchanges: the fresh root token, or else that of the plan. -/
def credential (plan : Plan) (xs : List (Request × Reply)) : Option String :=
  match freshMaterial xs with
  | some m => some m.rootToken
  | none => plan.authToken

/-- The requests for the policies, in order. -/
def policyScript (token : String) (policies : List Policy) : List Request :=
  policies.map fun p => policyRequest token p.name p.document

/-- The first of some exchanges lists a target. -/
def shows (xs : List (Request × Reply)) (t : Target) : Bool :=
  xs.head?.any fun x => x.2.mountTable.toOption.any t.isIn

/-- The requests for a target: the listing, and the mount unless the listing shows it. -/
def mountScript (token : String) (target : Option Target) (xs : List (Request × Reply)) :
    List Request :=
  match target with
  | none => []
  | some t => listRequest token :: if shows xs t then [] else [t.request token]

/-- The exchanges of a run by phases. -/
structure Phases where
  health : Reply
  init : List (Request × Reply)
  shares : List (Request × Reply)
  policies : List (Request × Reply)
  keyValue : List (Request × Reply)
  consul : List (Request × Reply)

namespace Phases

/-- What needs a token. -/
def administration (p : Phases) : List (Request × Reply) := p.policies ++ (p.keyValue ++ p.consul)

/-- All exchanges in order. -/
def all (p : Phases) : List (Request × Reply) :=
  (healthRequest, p.health) :: (p.init ++ (p.shares ++ p.administration))

end Phases

/-- The requests of the phases that need a token. -/
def administrationScript (plan : Plan) (token : String) (p : Phases) : List Request :=
  policyScript token plan.policies ++
    (mountScript token plan.keyValueTarget p.keyValue ++
      mountScript token plan.consulTarget p.consul)

/-- The requests of all phases. Of the shares only those count that were submitted. -/
def script (plan : Plan) (token : String) (p : Phases) : List Request :=
  healthRequest :: (plan.initScript p.health.status? ++
    (p.shares.map Prod.fst ++ plan.administrationScript token p))

/-- How far a run gets in the script, and what else ends it. -/
structure Lawful (plan : Plan) (token : String) (p : Phases) (done : Bool) : Prop where
  init_sent : p.init.map Prod.fst = plan.initScript p.health.status?
  shares_sent : p.shares.map Prod.fst <+:
    (plan.sharesAfter p.health.status? (freshMaterial p.init)).map unsealRequest
  policies_sent : p.policies.map Prod.fst <+: policyScript token plan.policies
  keyValue_sent : p.keyValue.map Prod.fst <+: mountScript token plan.keyValueTarget p.keyValue
  consul_sent : p.consul.map Prod.fst <+: mountScript token plan.consulTarget p.consul
  follows : Follows (plan.script token p) p.all done
  /-- A share that opens the store is the last one. -/
  opened_last : p.shares.Pairwise fun a _ => ¬ Opens a
  /-- Nothing needs a token before the store is open. -/
  opened : p.administration ≠ [] →
    (∃ n ∈ [200, 429, 472, 473], p.health.status? = some n) ∨ ∃ x ∈ p.shares, Opens x
  /-- Nothing that needs a token is sent without the right one. -/
  credentialed : p.administration ≠ [] → plan.credential p.all = some token

/-! ### The steps of a run -/

theorem freshMaterial_append_of_ne {ys : List (Request × Reply)}
    (h : ∀ x ∈ ys, x.1.kind? ≠ some .init) : freshMaterial (xs ++ ys) = freshMaterial xs := by
  have hy : freshMaterial ys = none := by
    refine List.findSome?_eq_none_iff.2 fun x hx => ?_
    rw [if_neg (h x hx)]
  rw [freshMaterial, List.findSome?_append]
  exact (congrArg _ hy).trans (Option.or_none)

theorem freshMaterial_health_cons {reply : Reply} :
    freshMaterial ((healthRequest, reply) :: xs) = freshMaterial xs := by
  rw [freshMaterial, List.findSome?_cons, kind?_healthRequest]
  rfl

theorem not_fails_health {reply : Reply} {n : UInt16} (hn : reply.status? = some n)
    (hc : n ∈ [200, 429, 472, 473, 501, 503]) : ¬ Fails (healthRequest, reply) := by
  intro hf
  rw [Fails, kind?_healthRequest] at hf
  exact hf n hn hc

/-- What the preparation contributes. -/
structure Prepared (plan : Plan) (reply : Reply) (init : List (Request × Reply))
    (v : Except Failure (Health × Option InitMaterial)) : Prop where
  init_sent : init.map Prod.fst = plan.initScript reply.status?
  follows : Follows (healthRequest :: plan.initScript reply.status?)
    ((healthRequest, reply) :: init) v.isOk
  fresh : ∀ health m, v = .ok (health, m) → freshMaterial init = m
  shares : ∀ health m, v = .ok (health, m) →
    plan.sharesAfter reply.status? m = if health.isSealed then plan.shareList m else []
  opened : ∀ health m, v = .ok (health, m) → health.isSealed = false →
    ∃ n ∈ [200, 429, 472, 473], reply.status? = some n

theorem initScript_of_ne {status : Option UInt16} (h : status ≠ some 501) :
    plan.initScript status = [] :=
  if_neg fun hs => h hs.1

theorem initScript_of_validShares {status : Option UInt16} (h : status = some 501)
    (hv : validShares plan.secretShares plan.secretThreshold = true) :
    plan.initScript status = [initRequest plan.secretShares plan.secretThreshold] :=
  if_pos ⟨h, validShares_iff.1 hv⟩

theorem initScript_of_not_validShares {status : Option UInt16}
    (hv : validShares plan.secretShares plan.secretThreshold = false) :
    plan.initScript status = [] := by
  refine if_neg fun hs => ?_
  rw [validShares_iff.2 hs.2] at hv
  cases hv

/-- A preparation that sends nothing but the health check and then fails. -/
theorem prepared_error {reply : Reply} {f : Failure} (h : plan.initScript reply.status? = []) :
    plan.Prepared reply [] (.error f) where
  init_sent := h.symm
  follows := by
    rw [h]
    exact .stop (healthRequest, reply)
  fresh _ _ hv := by cases hv
  shares _ _ hv := by cases hv
  opened _ _ hv := by cases hv

/-- A preparation that finds the store initialized. -/
theorem prepared_initialized {reply : Reply} {n : UInt16} (hn : reply.status? = some n)
    (hc : n ∈ [200, 429, 472, 473, 503]) :
    plan.Prepared reply [] (.ok (.ofStatus n, none)) := by
  have h501 : reply.status? ≠ some 501 := by
    rw [hn, Ne, Option.some.injEq]
    rintro rfl
    revert hc
    decide
  have hs : plan.initScript reply.status? = [] := initScript_of_ne h501
  refine ⟨hs.symm, ?_, ?_, ?_, ?_⟩
  · rw [hs]
    have hsub : List.Sublist ([200, 429, 472, 473, 503] : List UInt16)
        [200, 429, 472, 473, 501, 503] := by decide
    exact .singleton (healthRequest, reply) fun _ => not_fails_health hn (hsub.subset hc)
  · rintro _ _ ⟨⟩
    rfl
  · rintro _ _ ⟨⟩
    rw [sharesAfter, if_neg h501, hn]
    simp only [List.mem_cons, List.not_mem_nil, or_false] at hc
    rcases hc with rfl | rfl | rfl | rfl | rfl <;> rfl
  · rintro _ _ ⟨⟩ hsealed
    exact ⟨n, Health.mem_of_not_isSealed hc hsealed, hn⟩

theorem Prepares.prepared {v : Except Failure (Health × Option InitMaterial)}
    (h : plan.Prepares xs v) :
    ∃ reply init, xs = (healthRequest, reply) :: init ∧ plan.Prepared reply init v := by
  cases h with
  | @unanswered reply e he =>
    refine ⟨reply, [], rfl, prepared_error (initScript_of_ne fun hn => ?_)⟩
    rw [statusOf_eq_ok_iff.2 hn] at he
    cases he
  | @unclassified reply n hn hc =>
    refine ⟨reply, [], rfl, prepared_error (initScript_of_ne fun h501 => ?_)⟩
    rw [hn, Option.some.injEq] at h501
    exact hc (by simp [h501])
  | @refused reply hn hv =>
    exact ⟨reply, [], rfl, prepared_error (initScript_of_not_validShares hv)⟩
  | @initialized reply n hn hc => exact ⟨reply, [], rfl, prepared_initialized hn hc⟩
  | @failed reply reply' e hn hv he =>
    have hs := initScript_of_validShares hn hv
    refine ⟨reply, _, rfl, ⟨hs.symm, ?_, ?_, ?_, ?_⟩⟩
    · rw [hs]
      exact .cons (healthRequest, reply) (not_fails_health hn (by decide))
        (.stop (initRequest _ _, reply'))
    all_goals
      intro _ _ hv
      cases hv
  | @fresh reply reply' m hn hv hm =>
    have hs := initScript_of_validShares hn hv
    refine ⟨reply, _, rfl, ⟨hs.symm, ?_, ?_, ?_, ?_⟩⟩
    · rw [hs]
      refine .cons (healthRequest, reply) (not_fails_health hn (by decide))
        (.singleton (initRequest _ _, reply') fun _ hf => ?_)
      rw [Fails, kind?_initRequest] at hf
      obtain ⟨e, he⟩ := hf
      rw [hm] at he
      cases he
    · rintro _ _ ⟨⟩
      rw [freshMaterial, List.findSome?_cons, if_pos (kind?_initRequest ..), hm]
      rfl
    · rintro _ _ ⟨⟩
      rw [sharesAfter, if_pos hn]
      rfl
    · rintro _ _ ⟨⟩ hsealed
      cases hsealed

theorem fails_iff_of_unseal {x : Request × Reply} (h : x.1.kind? = some .unseal) :
    Fails x ↔ ∃ e, x.2.sealStatus = .error e := by
  rw [Fails, h]

theorem not_fails_of_not_settles {x : Request × Reply} (h : x.1.kind? = some .unseal)
    (hs : ¬ x.2.Settles) : ¬ Fails x := by
  obtain ⟨report, hr, -⟩ := Reply.not_settles_iff.1 hs
  rw [fails_iff_of_unseal h, hr]
  rintro ⟨e, he⟩
  cases he

theorem settles_of_opens {x : Request × Reply} (h : Opens x) : x.2.Settles := by
  obtain ⟨report, hr, hs⟩ := h
  intro report' hr'
  rw [hr] at hr'
  cases hr'
  exact hs

theorem pairwise_of_mem {p : Request × Reply → Prop} (h : ∀ a ∈ xs, p a) :
    xs.Pairwise fun a _ => p a :=
  List.pairwise_of_forall_mem_list fun a ha _ _ => h a ha

/-- What the submission of key shares contributes. -/
structure Unsealed (us : List (Request × Reply)) (done : Bool) : Prop where
  follows : Follows (us.map Prod.fst) us done
  opened_last : us.Pairwise fun a _ => ¬ Opens a

theorem unsealed_nil {done : Bool} : Unsealed [] done :=
  ⟨.nil, List.Pairwise.nil⟩

theorem unsealed_of_pairwise {done : Bool} (hk : ∀ x ∈ xs, x.1.kind? = some .unseal)
    (hp : xs.Pairwise fun a _ => ¬ a.2.Settles) (hd : done = true → ∀ a ∈ xs, ¬ Fails a) :
    Unsealed xs done where
  follows :=
    { ordered := List.prefix_rfl
      stops := hp.imp_of_mem fun ha _ hs => not_fails_of_not_settles (hk _ ha) hs
      complete := fun h => ⟨rfl, hd h⟩ }
  opened_last := hp.imp fun hs ho => hs (settles_of_opens ho)

theorem unsealed_of_unsealWith {keys : List String} {r : Except ClientError SealStatus}
    (h : (unsealWith keys).run.Transcript xs r) :
    Unsealed xs r.isOk ∧ (r.isOk = true → ∃ x ∈ xs, Opens x) := by
  have hkind : ∀ x ∈ xs, x.1.kind? = some .unseal := by
    intro x hx
    obtain ⟨key, hkey⟩ := exists_unsealRequest (map_fst_unsealWith h) hx
    rw [hkey, kind?_unsealRequest]
  rcases transcript_submitShares (Operation.transcript_note_bind.1 h) with
    ⟨ys, x, rfl, -, hy, hx, hr⟩ | ⟨reports, -, hrep, hall, rfl⟩
  -- the last submission settled: all before it reported a sealed store
  · have hp : (ys ++ [x]).Pairwise fun a _ => ¬ a.2.Settles := by
      exact List.pairwise_append.2
        ⟨pairwise_of_mem hy, List.pairwise_singleton _ _, fun a ha _ _ => hy a ha⟩
    have hmem : x ∈ ys ++ [x] := List.mem_append_right _ (List.mem_singleton.2 rfl)
    cases hv : x.2.sealStatus with
    | error e =>
      rw [hv] at hr
      subst hr
      exact ⟨unsealed_of_pairwise hkind hp nofun, nofun⟩
    | ok report =>
      rw [hv] at hr
      subst hr
      refine ⟨unsealed_of_pairwise hkind hp fun _ a ha => ?_,
        fun _ => ⟨x, hmem, report, hv, hx report hv⟩⟩
      rcases List.mem_append.1 ha with hm | hm
      · exact not_fails_of_not_settles (hkind a ha) (hy a hm)
      · rw [fails_iff_of_unseal (hkind a ha), List.mem_singleton.1 hm, hv]
        rintro ⟨e, he⟩
        cases he
  -- the shares ran out, and none of them opened the store
  · have hns := not_settles_of_reports hrep hall
    exact ⟨unsealed_of_pairwise hkind (pairwise_of_mem hns) nofun, nofun⟩

theorem Unseals.unsealed {health : Health} {init : Option InitMaterial} {r : Except Failure Unit}
    (h : plan.Unseals health init xs r) :
    Unsealed xs r.isOk ∧ (r.isOk = true → health.isSealed = true → ∃ x ∈ xs, Opens x) := by
  cases h with
  | needless hs => exact ⟨unsealed_nil, fun _ hs' => absurd (hs.symm.trans hs') (by decide)⟩
  | noKeys hs hi hk => exact ⟨unsealed_nil, nofun⟩
  | stuck hs he => exact ⟨(unsealed_of_unsealWith he).1, nofun⟩
  | opened hs hr =>
    obtain ⟨hu, ho⟩ := unsealed_of_unsealWith hr
    exact ⟨hu, fun _ _ => ho rfl⟩

theorem Unseals.shares_sent {health : Health} {init : Option InitMaterial}
    {r : Except Failure Unit} (h : plan.Unseals health init xs r) :
    xs.map Prod.fst <+:
      (if health.isSealed then plan.shareList init else []).map unsealRequest := by
  cases hs : health.isSealed with
  | true =>
    rw [if_pos rfl]
    exact map_fst_unseals h
  | false =>
    cases h with
    | needless _ => exact List.nil_prefix
    | noKeys hs' _ _ | stuck hs' _ | opened hs' _ => cases hs.symm.trans hs'

theorem not_fails_of_ok {x : Request × Reply} {e : Exchange} (hx : x.2 = .ok e)
    (hk : x.1.kind? = some .policy ∨ x.1.kind? = some .mount) : ¬ Fails x := by
  intro hf
  rcases hk with hk | hk
  all_goals
    rw [Fails, hk] at hf
    obtain ⟨_, he⟩ := hf
    rw [hx] at he
    cases he

theorem not_fails_listing {reply : Reply} {table : MountTable}
    (ht : reply.mountTable = .ok table) : ¬ Fails (listRequest token, reply) := by
  intro hf
  rw [Fails, kind?_listRequest] at hf
  obtain ⟨e, he⟩ := hf
  rw [ht] at he
  cases he

theorem Installs.follows {policies : List Policy} {r : Except Failure (List String)}
    (h : Installs token policies xs r) : Follows (policyScript token policies) xs r.isOk := by
  -- a refused policy halts the script, an accepted one goes on with the rest of it
  induction h with
  | nil => exact .nil
  | @refused p rest e =>
    exact Follows.halt (.stop (policyRequest token p.name p.document, .error e))
  | @accepted p rest x xs r _ ih =>
    have hok : (r.map (p.name :: ·)).isOk = r.isOk := by cases r <;> rfl
    rw [hok]
    exact .cons (policyRequest token p.name p.document, .ok x)
      (not_fails_of_ok rfl (.inl (kind?_policyRequest ..))) ih

theorem shows_cons {t : Target} {q : Request} {reply : Reply} {table : MountTable}
    (ht : reply.mountTable = .ok table) : shows ((q, reply) :: xs) t = t.isIn table := by
  rw [shows, List.head?_cons]
  exact congrArg (Option.any t.isIn) (congrArg Except.toOption ht)

theorem Mounts.follows {target : Option Target} {r : Except Failure (List String)}
    (h : Mounts token target xs r) : Follows (mountScript token target xs) xs r.isOk := by
  cases h with
  | absent => exact .nil
  | @unlisted t reply e he =>
    exact Follows.halt (.stop (listRequest token, reply))
  | @present t reply table ht hm =>
    rw [mountScript, shows_cons ht, if_pos hm]
    exact .singleton (listRequest token, reply) fun _ => not_fails_listing ht
  | @refused t reply table e ht hm =>
    rw [mountScript, shows_cons ht, if_neg (by simp [hm])]
    exact .cons (listRequest token, reply) (not_fails_listing ht)
      (.stop (t.request token, .error e))
  | @accepted t reply table x ht hm =>
    rw [mountScript, shows_cons ht, if_neg (by simp [hm])]
    exact .cons (listRequest token, reply) (not_fails_listing ht)
      (.singleton (t.request token, .ok x) fun _ =>
        not_fails_of_ok rfl (.inr (kind?_mountRequest ..)))

/-- What the steps that need a token contribute. -/
structure Administered (plan : Plan) (token : String) (ps ks cs : List (Request × Reply))
    (done : Bool) : Prop where
  policies_sent : ps.map Prod.fst <+: policyScript token plan.policies
  keyValue_sent : ks.map Prod.fst <+: mountScript token plan.keyValueTarget ks
  consul_sent : cs.map Prod.fst <+: mountScript token plan.consulTarget cs
  follows : Follows (policyScript token plan.policies ++
    (mountScript token plan.keyValueTarget ks ++ mountScript token plan.consulTarget cs))
    (ps ++ (ks ++ cs)) done

theorem Administers.administered {v : Except Failure (List String × List String)}
    (h : plan.Administers token xs v) :
    ∃ ps ks cs, xs = ps ++ (ks ++ cs) ∧ plan.Administered token ps ks cs v.isOk := by
  cases h with
  | @unpolicied ps f hp =>
    refine ⟨xs, [], [], (List.append_nil xs).symm, hp.follows.ordered, List.nil_prefix,
      List.nil_prefix, ?_⟩
    rw [List.append_nil, List.append_nil]
    exact hp.follows.halt
  | @keyValueless ps ks policies f hp hk =>
    refine ⟨ps, ks, [], by rw [List.append_nil], hp.follows.ordered, hk.follows.ordered,
      List.nil_prefix, ?_⟩
    rw [List.append_nil]
    exact hp.follows.append hk.follows.halt
  | consulless hp hk hc | finished hp hk hc =>
    exact ⟨_, _, _, rfl, hp.follows.ordered, hk.follows.ordered, hc.follows.ordered,
      hp.follows.append (hk.follows.append hc.follows)⟩

/-! ### The run -/

/-- A run that ends before anything needs a token. -/
theorem lawful_of_unadministered {reply : Reply} {init us : List (Request × Reply)} {done : Bool}
    (hi : init.map Prod.fst = plan.initScript reply.status?)
    (hs : us.map Prod.fst <+:
      (plan.sharesAfter reply.status? (freshMaterial init)).map unsealRequest)
    (hf : Follows (healthRequest :: (plan.initScript reply.status? ++ us.map Prod.fst))
      ((healthRequest, reply) :: (init ++ us)) done)
    (ho : us.Pairwise fun a _ => ¬ Opens a) :
    plan.Lawful token ⟨reply, init, us, [], [], []⟩ false where
  init_sent := hi
  shares_sent := hs
  policies_sent := List.nil_prefix
  keyValue_sent := List.nil_prefix
  consul_sent := List.nil_prefix
  follows := by
    have hall : Phases.all ⟨reply, init, us, [], [], []⟩ = (healthRequest, reply) :: (init ++ us) :=
      congrArg (fun l => (healthRequest, reply) :: (init ++ l)) (List.append_nil us)
    rw [hall, script, ← List.append_assoc, ← List.cons_append]
    exact hf.halt
  opened_last := ho
  opened h := absurd rfl h
  credentialed h := absurd rfl h

theorem credential_of_configures (reply : Reply) {init zs : List (Request × Reply)}
    {health : Health} {m : Option InitMaterial} {c : Except Failure Configured}
    (hm : freshMaterial init = m) (hc : plan.Configures health m zs c)
    (ht : plan.token m = .ok token) :
    plan.credential ((healthRequest, reply) :: (init ++ zs)) = some token := by
  rw [credential, freshMaterial_health_cons,
    freshMaterial_append_of_ne fun x hx => kind?_ne_init_of_configures hc hx, hm]
  cases m with
  | some m =>
    cases ht
    rfl
  | none =>
    rw [Plan.token] at ht
    cases ha : plan.authToken with
    | some t =>
      rw [ha] at ht
      cases ht
      rfl
    | none =>
      rw [ha] at ht
      cases ht

/-- Every run can be laid out in phases that keep to the law. -/
theorem exists_phases {r : Except RunFailure Outcome} (h : plan.run.Transcript xs r) :
    ∃ p token, xs = p.all ∧ plan.Lawful token p r.isOk := by
  rcases course_of_run h with ⟨f, hp, rfl⟩ | ⟨ys, zs, health, m, c, rfl, hp, hc, rfl⟩
  -- the preparation failed: every later phase is empty
  · obtain ⟨reply, init, rfl, hi⟩ := hp.prepared
    have hf : Follows (healthRequest :: (plan.initScript reply.status? ++ []))
        ((healthRequest, reply) :: (init ++ [])) false := by
      rw [List.append_nil, List.append_nil]
      exact hi.follows
    exact ⟨⟨reply, init, [], [], [], []⟩, "", by simp [Phases.all, Phases.administration],
      lawful_of_unadministered hi.init_sent List.nil_prefix hf List.Pairwise.nil⟩
  obtain ⟨reply, init, rfl, hi⟩ := hp.prepared
  have hm := hi.fresh health m rfl
  have hshares {us : List (Request × Reply)} {v : Except Failure Unit}
      (hu : plan.Unseals health m us v) : us.map Prod.fst <+:
        (plan.sharesAfter reply.status? (freshMaterial init)).map unsealRequest := by
    rw [hm, hi.shares health m rfl]
    exact hu.shares_sent
  -- a run that ends while or right after unsealing leaves the administration empty
  have hend {us : List (Request × Reply)} {v : Except Failure Unit}
      (hu : plan.Unseals health m us v) :
      plan.Lawful "" ⟨reply, init, us, [], [], []⟩ false :=
    lawful_of_unadministered hi.init_sent (hshares hu)
      (hi.follows.append hu.unsealed.1.follows) hu.unsealed.1.opened_last
  cases hc with
  | stuck hu | tokenless hu _ =>
    exact ⟨⟨reply, init, zs, [], [], []⟩, "", by simp [Phases.all, Phases.administration], hend hu⟩
  | @administered us xs token v hu ht ha =>
    obtain ⟨ps, ks, cs, rfl, hadm⟩ := ha.administered
    obtain ⟨hus, hopen⟩ := hu.unsealed
    -- from here on the result of the run is that of the administration
    have hcred := credential_of_configures reply hm (.administered hu ht ha) ht
    have hdone : (conclude health m (v.map fun done =>
        ⟨health.isSealed, done.1, done.2⟩)).isOk = v.isOk := by cases v <;> rfl
    refine ⟨⟨reply, init, us, ps, ks, cs⟩, token, rfl, ?_⟩
    exact
      { init_sent := hi.init_sent
        shares_sent := hshares hu
        policies_sent := hadm.policies_sent
        keyValue_sent := hadm.keyValue_sent
        consul_sent := hadm.consul_sent
        follows := by
          rw [hdone]
          exact hi.follows.append (hus.follows.append hadm.follows)
        opened_last := hus.opened_last
        opened := by
          intro _
          cases hs : health.isSealed with
          | false => exact .inl (hi.opened health m rfl hs)
          | true => exact .inr (hopen rfl hs)
        credentialed := fun _ => hcred }

/-- With unusable numbers of shares a store that is not initialized gets nothing but the health
check. -/
theorem Lawful.all_of_refused {p : Phases} {done : Bool} (h : plan.Lawful token p done)
    (hn : p.health.status? = some 501)
    (hv : ¬ (1 ≤ plan.secretThreshold ∧ plan.secretThreshold ≤ plan.secretShares)) :
    p.all = [(healthRequest, p.health)] := by
  have hinit : p.init = [] := by
    have hi := h.init_sent
    rw [initScript, if_neg fun hs => hv hs.2] at hi
    exact List.map_eq_nil_iff.1 hi
  have hshares : p.shares = [] := by
    have hs := h.shares_sent
    rw [hinit, sharesAfter, if_pos hn] at hs
    exact List.map_eq_nil_iff.1 (List.prefix_nil.1 hs)
  -- the status is not that of an open store, and without shares nothing opened it
  have hadm : p.administration = [] := by
    refine Classical.byContradiction fun hne => ?_
    rcases h.opened hne with ⟨n, hmem, hn'⟩ | ⟨x, hx, _⟩
    · rw [hn, Option.some.injEq] at hn'
      subst hn'
      revert hmem
      decide
    · rw [hshares] at hx
      cases hx
  rw [Phases.all, hinit, hshares, hadm]
  rfl

/-- **The order of a run.** The exchanges of a run fall into the phases of the script, each phase
sends a beginning of its part in order, and all of them together send a beginning of the script.
Nothing follows an exchange that failed, no share follows the one that opened the store, and nothing
is administered unless the store is open and there is a token. A run that succeeds sends the whole
script, and one with unusable numbers of shares stops after the health check. -/
theorem run_in_order (plan : Plan) (answer : Request → σ → Reply × σ) (s : σ) :
    let out := plan.run.run answer s
    ∃ p token, out.exchanges = p.all ∧ plan.Lawful token p out.result.isOk ∧
      (p.health.status? = some 501 →
        ¬ (1 ≤ plan.secretThreshold ∧ plan.secretThreshold ≤ plan.secretShares) →
        out.exchanges = [(healthRequest, p.health)]) := by
  intro out
  obtain ⟨p, token, hx, hp⟩ := exists_phases (transcript_run answer plan.run s)
  exact ⟨p, token, hx, hp, fun hn hv => hx.trans (hp.all_of_refused hn hv)⟩

end SecretStore.Plan
