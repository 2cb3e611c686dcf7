import SecretStore.Proofs.Resuming

/-!
# Calls on one client

A client keeps nothing between its calls, so any number of them can be made one after the other:
what a call asks depends on its own arguments and, for the unseal protocol, on the replies to
itself. Only the executor goes from state to state, and it answers the requests of all calls in
their order.

* `Call`, `Turn`, `turns`: calls on one client, and how each of them goes.
* `Call.single?`: the request of a call that sends one, and what is made of the reply.
* `Call.asks`: what a call asks, given its replies; `requests_of_transcript`.
* `result_of_error`: what a call makes of an error of the executor.
* `calls_do_not_interfere`: what holds of each call among others, and of all of them together.
-/

namespace SecretStore

open Interaction Client

/-- The answer to each question is the one in the state that the questions before it lead to. -/
theorem Interaction.getElem?_recite {Q A σ : Type} (answer : Q → σ → A × σ)
    (qs : List Q) (s : σ) (n : Nat) : (recite answer qs s)[n]? =
      qs[n]?.map fun q => (q, (answer q ((qs.take n).foldl (fun s q => (answer q s).2) s)).1) := by
  induction qs generalizing n s with
  | nil => rfl
  | cons q qs ih =>
    cases n with
    | zero => rfl
    | succ n => exact ih _ n

namespace Client

/-! ### Calls -/

/-- A call, and the type of what it gives. -/
inductive Call : Type → Type
  | healthCheck : Call UInt16
  | checkHealth : Call Health
  | init (shares threshold : UInt32) : Call InitMaterial
  | unsealWith (keys : List String) : Call SealStatus
  | installPolicy (token name document : String) : Call Unit
  | mount (token mountPoint : String) (m : MountSpec) (operation : String) : Call Unit
  | mountKeyValue (token mountPoint version : String) : Call Unit
  | mountConsul (token mountPoint leaseTtl : String) : Call Unit
  | mounts (token : String) : Call MountTable
  | isMounted (token mountPoint engineType : String) : Call Bool

namespace Call

variable {α : Type}

/-- The operation that a call is of. -/
def operation : Call α → Operation α
  | healthCheck => Client.healthCheck
  | checkHealth => Client.checkHealth
  | init shares threshold => Client.init shares threshold
  | unsealWith keys => Client.unsealWith keys
  | installPolicy token name document => Client.installPolicy token name document
  | mount token mountPoint m operation => Client.mount token mountPoint m operation
  | mountKeyValue token mountPoint version => Client.mountKeyValue token mountPoint version
  | mountConsul token mountPoint leaseTtl => Client.mountConsul token mountPoint leaseTtl
  | mounts token => Client.mounts token
  | isMounted token mountPoint engineType => Client.isMounted token mountPoint engineType

/-- The request of a call that sends one, and what the call makes of the reply. -/
def single? : Call α → Option (Request × (Reply → Except ClientError α))
  | healthCheck => some (healthRequest, statusOf)
  | checkHealth => some (healthRequest, fun reply => (statusOf reply).map Health.ofStatus)
  | init shares threshold =>
    if 1 ≤ threshold ∧ threshold ≤ shares then
      some (initRequest shares threshold, Reply.material)
    else none
  | unsealWith _ => none
  | installPolicy token name document =>
    some (policyRequest token name document, fun reply => reply.map fun _ => ())
  | mount token mountPoint m operation =>
    some (mountRequest token mountPoint m operation, fun reply => reply.map fun _ => ())
  | mountKeyValue token mountPoint version =>
    some (mountRequest token mountPoint (.keyValue version) "update mounts",
      fun reply => reply.map fun _ => ())
  | mountConsul token mountPoint leaseTtl =>
    some (mountRequest token mountPoint (.consul leaseTtl) "update mounts for Consul",
      fun reply => reply.map fun _ => ())
  | mounts token => some (listRequest token, Reply.mountTable)
  | isMounted token mountPoint engineType =>
    some (listRequest token, fun reply => reply.mountTable.map (·.hasEngine mountPoint engineType))

/-- The requests that submit shares, given the replies to them: one for each share, until a reply
cannot be read or reports that the store is open. -/
def shareRequests : List String → List Reply → List Request
  | [], _ => []
  | key :: _, [] => [unsealRequest key]
  | key :: keys, reply :: replies =>
    unsealRequest key ::
      match reply.sealStatus with
      | .ok report => if report.isSealed then shareRequests keys replies else []
      | .error _ => []

/-- The shares that a call submits. -/
def shares : Call α → List String
  | unsealWith keys => keys
  | _ => []

/-- What a call asks, given the replies to it. -/
def asks (c : Call α) (replies : List Reply) : List Request :=
  match c.single? with
  | some (q, _) => [q]
  | none => shareRequests c.shares replies

/-- Whether a call goes through the unseal protocol. -/
def isUnseal : Call α → Bool
  | unsealWith _ => true
  | _ => false

/-- Whether a call asks for the health of the store. -/
def isHealthCheck : Call α → Bool
  | healthCheck | checkHealth => true
  | _ => false

/-- How many requests a call sends at most. -/
def quota : Call α → Nat
  | init shares threshold => if 1 ≤ threshold ∧ threshold ≤ shares then 1 else 0
  | unsealWith keys => keys.length
  | _ => 1

/-! ### How a call goes -/

variable {c : Call α} {xs : List (Request × Reply)} {r : Except ClientError α}

theorem transcript_single {q : Request} {use : Reply → Except ClientError α}
    (hs : c.single? = some (q, use)) (h : c.operation.run.Transcript xs r) :
    ∃ reply : Reply, xs = [(q, reply)] ∧ r = use reply := by
  cases c with
  | healthCheck =>
    cases hs
    exact transcript_healthCheck.1 h
  | checkHealth =>
    cases hs
    exact transcript_checkHealth.1 h
  | init shares threshold =>
    rw [single?] at hs
    split at hs
    · next hv =>
      cases hs
      exact (transcript_init (validShares_iff.2 hv)).1 h
    · cases hs
  | unsealWith keys => cases hs
  | installPolicy token name document =>
    cases hs
    exact transcript_installPolicy.1 h
  | mount token mountPoint m operation =>
    cases hs
    exact transcript_mount.1 h
  | mountKeyValue token mountPoint version =>
    cases hs
    exact transcript_mount.1 h
  | mountConsul token mountPoint leaseTtl =>
    cases hs
    exact transcript_mount.1 h
  | mounts token =>
    cases hs
    exact transcript_mounts.1 h
  | isMounted token mountPoint engineType =>
    cases hs
    exact transcript_isMounted.1 h

/-- What the loop asks is told by the replies that it has got. -/
theorem map_fst_of_submitShares {total : Nat} {keys : List String} {p : UnsealProgress}
    {r : Except ClientError SealStatus} (h : (submitShares total keys p).run.Transcript xs r) :
    xs.map Prod.fst = shareRequests keys (xs.map Prod.snd) := by
  induction keys generalizing p xs with
  | nil =>
    obtain ⟨rfl, -⟩ := Operation.transcript_ofExcept.1 h
    rfl
  | cons key keys ih =>
    obtain ⟨reply, ys, rfl, hrest⟩ := transcript_submitShares_cons.1 h
    rw [List.map_cons, List.map_cons, shareRequests]
    cases hv : reply.sealStatus with
    | error e =>
      simp only [hv] at hrest
      simp only [hrest.1, List.map_nil]
    | ok report =>
      simp only [hv] at hrest
      split at hrest
      · next hs => simp only [hs, if_true, ih hrest]
      · next hs => simp only [hs, hrest.1, List.map_nil, Bool.false_eq_true, if_false]

theorem length_shareRequests_le (keys : List String) (replies : List Reply) :
    (shareRequests keys replies).length ≤ keys.length := by
  induction keys generalizing replies with
  | nil => exact Nat.le_refl _
  | cons key keys ih =>
    cases replies with
    | nil => simp [shareRequests]
    | cons reply replies =>
      rw [shareRequests, List.length_cons, List.length_cons]
      refine Nat.succ_le_succ ?_
      split
      · split
        · exact ih replies
        · exact Nat.zero_le _
      · exact Nat.zero_le _

theorem asks_init_refused {shares threshold : UInt32}
    (hs : (init shares threshold).single? = none) (replies : List Reply) :
    (init shares threshold).asks replies = [] := by
  rw [asks, hs]
  rfl

/-- What a call asks is told by its arguments and the replies that it has got. -/
theorem requests_of_transcript (h : c.operation.run.Transcript xs r) :
    xs.map Prod.fst = c.asks (xs.map Prod.snd) := by
  cases hs : c.single? with
  | some x =>
    obtain ⟨reply, rfl, -⟩ := transcript_single hs h
    rw [asks, hs, List.map_singleton]
  | none =>
    cases c with
    | init shares threshold =>
      have hv : validShares shares threshold = false := by
        rw [Bool.eq_false_iff, Ne, validShares_iff]
        exact fun hv => by simp [single?, hv] at hs
      obtain ⟨rfl, -⟩ := (transcript_init_refused hv).1 h
      exact (asks_init_refused hs _).symm
    | unsealWith keys => exact map_fst_of_submitShares (Operation.transcript_note_bind.1 h)
    | _ => cases hs

/-- But for the unseal protocol the replies do not matter. -/
theorem asks_of_not_isUnseal (hc : c.isUnseal = false) (replies : List Reply) :
    c.asks replies = c.asks [] := by
  cases c with
  | unsealWith keys => cases hc
  | init shares threshold =>
    cases hs : (init shares threshold).single? with
    | some x => simp only [asks, hs]
    | none => rw [asks_init_refused hs, asks_init_refused hs]
  | _ => rfl

theorem length_asks (c : Call α) (replies : List Reply) :
    (c.asks replies).length ≤ c.quota ∧
      (c.isUnseal = false → (c.asks replies).length = c.quota) := by
  cases c with
  | init shares threshold =>
    by_cases hv : 1 ≤ threshold ∧ threshold ≤ shares <;>
      simp [asks, single?, quota, hv, Call.shares, shareRequests]
  | unsealWith keys =>
    refine ⟨length_shareRequests_le keys replies, fun h => ?_⟩
    cases h
  | _ => exact ⟨Nat.le_refl _, fun _ => rfl⟩

/-- An error of the executor ends a call as it is, but for one that tells the health. -/
theorem result_of_error (hc : c.isHealthCheck = false) (h : c.operation.run.Transcript xs r)
    {q : Request} {e : ClientError} (he : (q, .error e) ∈ xs) : r = .error e := by
  cases hs : c.single? with
  | some x =>
    obtain ⟨reply, rfl, rfl⟩ := transcript_single hs h
    obtain ⟨-, rfl⟩ := Prod.mk.inj (List.mem_singleton.1 he)
    cases c with
    | healthCheck => cases hc
    | checkHealth => cases hc
    | init shares threshold =>
      rw [single?] at hs
      split at hs
      · cases hs
        rfl
      · cases hs
    | unsealWith keys => cases hs
    | _ =>
      cases hs
      rfl
  | none =>
    cases c with
    | init shares threshold =>
      have hx := requests_of_transcript h
      rw [asks_init_refused hs] at hx
      rw [List.map_eq_nil_iff.1 hx] at he
      cases he
    | unsealWith keys =>
      rcases transcript_submitShares (Operation.transcript_note_bind.1 h) with
        ⟨ys, x, rfl, -, hy, -, rfl⟩ | ⟨reports, -, hreports, -⟩
      · rcases List.mem_append.1 he with he | he
        · exact absurd (fun report hr => by cases hr) (hy _ he)
        · rw [← List.mem_singleton.1 he]
          rfl
      · have hmem : (Reply.sealStatus (.error e)) ∈ reports.map Except.ok :=
          hreports ▸ List.mem_map_of_mem he
        obtain ⟨report, -, hr⟩ := List.mem_map.1 hmem
        cases hr
    | _ => cases hs

/-- The health check answers with the status of an error that carries one. -/
theorem healthCheck_of_error {r : Except ClientError UInt16}
    (h : Client.healthCheck.run.Transcript xs r) {q : Request} {e : ClientError}
    (he : (q, .error e) ∈ xs) : r = statusOf (.error e) := by
  obtain ⟨reply, rfl, rfl⟩ := transcript_healthCheck.1 h
  rw [(Prod.mk.inj (List.mem_singleton.1 he)).2]

theorem checkHealth_of_error {r : Except ClientError Health}
    (h : Client.checkHealth.run.Transcript xs r) {q : Request} {e : ClientError}
    (he : (q, .error e) ∈ xs) : r = (statusOf (.error e)).map Health.ofStatus := by
  obtain ⟨reply, rfl, rfl⟩ := transcript_checkHealth.1 h
  rw [(Prod.mk.inj (List.mem_singleton.1 he)).2]

theorem init_of_not_valid {shares threshold : UInt32} {r : Except ClientError InitMaterial}
    (h : (Client.init shares threshold).run.Transcript xs r)
    (hv : shares = 0 ∨ threshold = 0 ∨ shares < threshold) :
    xs = [] ∧ ∃ m, r = .error (.invalidArgument m) := by
  have hv : validShares shares threshold = false := by
    rcases hv with rfl | rfl | hlt
    · simp [validShares]
    · simp [validShares]
    · simp [validShares, hlt]
  obtain ⟨rfl, rfl⟩ := (transcript_init_refused hv).1 h
  exact ⟨rfl, _, rfl⟩

/-- Whether an engine is mounted is told by a listing only. -/
theorem isMounted_eq_ok_iff {token mountPoint engineType : String} {r : Except ClientError Bool}
    (h : (Client.isMounted token mountPoint engineType).run.Transcript xs r) (b : Bool) :
    r = .ok b ↔ ∃ (x : Exchange) (table : MountTable), xs = [(listRequest token, .ok x)] ∧
      x.decode MountTable.shape.reader = .ok table ∧ b = table.hasEngine mountPoint engineType := by
  obtain ⟨reply, rfl, rfl⟩ := transcript_isMounted.1 h
  constructor
  · intro hr
    cases reply with
    | error e => cases hr
    | ok x =>
      cases ht : x.decode MountTable.shape.reader with
      | error e => simp [Reply.mountTable, Reply.decode, ht, Except.map] at hr
      | ok table =>
        simp only [Reply.mountTable, Reply.decode, ht, Except.map, Except.ok.injEq] at hr
        exact ⟨x, table, rfl, ht, hr.symm⟩
  · rintro ⟨x, table, hx, ht, rfl⟩
    obtain rfl : reply = .ok x := (Prod.mk.inj (List.singleton_inj.1 hx)).2
    simp only [Reply.mountTable, Reply.decode, ht, Except.map]

end Call

/-! ### Calls in a row -/

variable {σ : Type}

/-- How a call goes: its requests with their replies, and what it ends with. -/
structure Turn where
  {α : Type}
  call : Call α
  exchanges : List (Request × Reply)
  result : Except ClientError α

/-- How calls go that are made one after the other. -/
def turns (answer : Request → σ → Reply × σ) : List ((α : Type) × Call α) → σ → List Turn
  | [], _ => []
  | ⟨_, c⟩ :: cs, s =>
    let out := c.operation.run.run answer s
    ⟨c, out.exchanges, out.result⟩ :: turns answer cs out.state

theorem calls_turns (answer : Request → σ → Reply × σ) (cs : List ((α : Type) × Call α)) (s : σ) :
    (turns answer cs s).map (fun t => ⟨t.α, t.call⟩) = cs := by
  induction cs generalizing s with
  | nil => rfl
  | cons c cs ih => rw [turns, List.map_cons, ih]

theorem transcript_of_mem {answer : Request → σ → Reply × σ} {cs : List ((α : Type) × Call α)}
    {s : σ} {t : Turn} (ht : t ∈ turns answer cs s) :
    t.call.operation.run.Transcript t.exchanges t.result := by
  induction cs generalizing s with
  | nil => cases ht
  | cons c cs ih =>
    rcases List.mem_cons.1 ht with rfl | ht
    · exact transcript_run answer c.2.operation.run s
    · exact ih ht

/-- What answers is asked the requests of all calls in their order, and nothing else. -/
theorem exchanges_turns (answer : Request → σ → Reply × σ) (cs : List ((α : Type) × Call α))
    (s : σ) : (turns answer cs s).flatMap (·.exchanges) =
      recite answer (((turns answer cs s).flatMap (·.exchanges)).map Prod.fst) s := by
  induction cs generalizing s with
  | nil => rfl
  | cons c cs ih =>
    rw [turns, List.flatMap_cons, List.map_append, recite_append, ← exchanges_eq_recite,
      ← state_eq_foldl, ← ih]

/-- **Calls on one client do not interfere**, whatever answers their requests. The n-th request over
all calls gets the n-th answer. What a call asks is told by its arguments and, for the unseal
protocol, by the replies to it: a request each, none if the shares are refused, at most one for each
key. An error of the executor ends a call as it is, unless it tells the health. That an engine is
mounted, or that it is not, is said of a listing that was received and read, and of nothing else. -/
theorem calls_do_not_interfere (answer : Request → σ → Reply × σ)
    (calls : List ((α : Type) × Call α)) (s : σ) :
    let ts := turns answer calls s
    let all := ts.flatMap (·.exchanges)
    ts.map (fun t => ⟨t.α, t.call⟩) = calls ∧
    (∀ n q reply, all[n]? = some (q, reply) →
      reply = (answer q
        (((all.map Prod.fst).take n).foldl (fun s q => (answer q s).2) s)).1) ∧
    (∀ t ∈ ts, t.exchanges.map Prod.fst =
      t.call.asks (if t.call.isUnseal then t.exchanges.map Prod.snd else [])) ∧
    (∀ t ∈ ts, t.exchanges.length ≤ t.call.quota ∧
      (t.call.isUnseal = false → t.exchanges.length = t.call.quota)) ∧
    (∀ shares threshold xs r, (⟨.init shares threshold, xs, r⟩ : Turn) ∈ ts →
      shares = 0 ∨ threshold = 0 ∨ shares < threshold →
      xs = [] ∧ ∃ m, r = .error (.invalidArgument m)) ∧
    (∀ t ∈ ts, t.call.isHealthCheck = false → ∀ q e, (q, .error e) ∈ t.exchanges →
      t.result = .error e) ∧
    (∀ xs r q e, (⟨.healthCheck, xs, r⟩ : Turn) ∈ ts → (q, .error e) ∈ xs →
      r = match e.status? with
        | some status => .ok status
        | none => .error e) ∧
    (∀ xs r q e, (⟨.checkHealth, xs, r⟩ : Turn) ∈ ts → (q, .error e) ∈ xs →
      r = match e.status? with
        | some status => .ok (Health.ofStatus status)
        | none => .error e) ∧
    (∀ token mountPoint engineType xs r,
      (⟨.isMounted token mountPoint engineType, xs, r⟩ : Turn) ∈ ts →
      ∀ b, r = .ok b ↔ ∃ (x : Exchange) (table : MountTable), xs = [(listRequest token, .ok x)] ∧
        x.decode MountTable.shape.reader = .ok table ∧
          b = table.hasEngine mountPoint engineType) := by
  intro ts all
  refine ⟨calls_turns answer calls s, fun n q reply hn => ?_, fun t ht => ?_, fun t ht => ?_,
    fun shares threshold xs r ht => Call.init_of_not_valid (transcript_of_mem ht),
    fun t ht hc q e he => Call.result_of_error hc (transcript_of_mem ht) he,
    fun xs r q e ht he => Call.healthCheck_of_error (transcript_of_mem ht) he,
    fun xs r q e ht he => ?_,
    fun token mountPoint engineType xs r ht => Call.isMounted_eq_ok_iff (transcript_of_mem ht)⟩
  · have hall : all[n]? = (recite answer (all.map Prod.fst) s)[n]? :=
      congrArg (·[n]?) (exchanges_turns answer calls s)
    rw [hn, getElem?_recite, List.getElem?_map, hn] at hall
    exact (Prod.mk.inj (Option.some.inj hall)).2
  · have hx := Call.requests_of_transcript (transcript_of_mem ht)
    cases hc : t.call.isUnseal with
    | true => simpa using hx
    | false => simpa [Call.asks_of_not_isUnseal hc] using hx
  · have hx := Call.requests_of_transcript (transcript_of_mem ht)
    rw [← List.length_map Prod.fst, hx]
    exact Call.length_asks t.call _
  · have hr : r = (statusOf (.error e)).map Health.ofStatus :=
      Call.checkHealth_of_error (transcript_of_mem ht) he
    rw [hr, statusOf]
    cases e.status? <;> rfl

end Client

end SecretStore
