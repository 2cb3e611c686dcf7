import SecretStore.Client
import SecretStore.Proofs.Transcript

/-!
# Transcripts of the operations

What a request is for can be read off its method and path: `Request.kind?` tells the six kinds
apart. What a reply says to an operation is a status, or the value that its body decodes to.

Each operation of the client that sends one request has one lemma here, `transcript_…`, which gives
its transcripts and results in these words.
-/

namespace SecretStore

open Interaction

/-! ### Requests -/

/-- What a request is for. -/
inductive Request.Kind
  | health
  | init
  | unseal
  | policy
  | listing
  | mount
  deriving DecidableEq

/-- What a request with that method and path is for. -/
def Request.Kind.of? (method path : String) : Option Request.Kind :=
  if method = "POST" ∧ (Client.mountsPath ++ "/").toList <+: path.toList then some .mount
  else if method = "PUT" ∧ (Client.policiesPath ++ "/").toList <+: path.toList then some .policy
  else if method = "GET" ∧ path = Client.healthPath then some .health
  else if method = "POST" ∧ path = Client.initPath then some .init
  else if method = "POST" ∧ path = Client.unsealPath then some .unseal
  else if method = "GET" ∧ path = Client.mountsPath then some .listing
  else none

/-- What a request is for. -/
def Request.kind? (r : Request) : Option Request.Kind := Request.Kind.of? r.method r.path

namespace Client

theorem prefix_toList_append (a b : String) : a.toList <+: (a ++ b).toList := by
  rw [String.toList_append]
  exact List.prefix_append _ _

@[simp] theorem kind?_healthRequest : healthRequest.kind? = some .health := by
  decide

@[simp] theorem kind?_initRequest (shares threshold : UInt32) :
    (initRequest shares threshold).kind? = some .init := by
  show Request.Kind.of? "POST" initPath = _
  decide

@[simp] theorem kind?_unsealRequest (key : String) : (unsealRequest key).kind? = some .unseal := by
  show Request.Kind.of? "POST" unsealPath = _
  decide

@[simp] theorem kind?_policyRequest (token name document : String) :
    (policyRequest token name document).kind? = some .policy := by
  show Request.Kind.of? "PUT" (policiesPath ++ "/" ++ Percent.segment name) = _
  rw [Request.Kind.of?, if_neg (fun h => absurd h.1 (by decide)),
    if_pos ⟨rfl, prefix_toList_append _ _⟩]

@[simp] theorem kind?_listRequest (token : String) :
    (listRequest token).kind? = some .listing := by
  show Request.Kind.of? "GET" mountsPath = _
  decide

@[simp] theorem kind?_mountRequest (token mountPoint : String) (m : MountSpec)
    (operation : String) : (mountRequest token mountPoint m operation).kind? = some .mount := by
  show Request.Kind.of? "POST" (mountsPath ++ "/" ++ Mount.point mountPoint) = _
  rw [Request.Kind.of?, if_pos ⟨rfl, prefix_toList_append _ _⟩]

end Client

/-! ### Replies -/

namespace Reply

/-- The status that a reply carries, as an answer or in an error. -/
def status? : Reply → Option UInt16
  | .ok x => some x.status
  | .error e => e.status?

/-- What a reply says to an operation that takes its body with a reader. -/
def decode (reader : Json.Reader α) : Reply → Except ClientError α
  | .ok x => x.decode reader
  | .error e => .error e

/-- The init material of a reply. -/
def material (r : Reply) : Except ClientError InitMaterial := decode InitMaterial.shape.reader r

/-- The seal status of a reply. -/
def sealStatus (r : Reply) : Except ClientError SealStatus := decode SealStatus.shape.reader r

/-- The mounts of a reply. -/
def mountTable (r : Reply) : Except ClientError MountTable := decode MountTable.shape.reader r

end Reply

theorem Client.statusOf_eq_ok_iff {r : Reply} {n : UInt16} :
    statusOf r = .ok n ↔ r.status? = some n := by
  cases r with
  | ok x => simp [statusOf, Reply.status?]
  | error e => cases h : e.status? <;> simp [statusOf, Reply.status?, h]

/-- Only an error without a status is one for the health check. -/
theorem Client.statusOf_eq_error_iff {r : Reply} {e : ClientError} :
    statusOf r = .error e ↔ r = .error e ∧ r.status? = none := by
  cases r with
  | ok x => simp [statusOf]
  | error e' => cases h : e'.status? <;> simp [statusOf, Reply.status?, h]

namespace Operation

variable {α β : Type} {xs : List (Request × Reply)}

theorem transcript_note {e : Log.Event} {r : Except ClientError Unit} :
    (note e).run.Transcript xs r ↔ xs = [] ∧ r = .ok () := by
  simp only [note, transcript_except_lift, Interaction.tell, Interaction.transcript_note,
    transcript_done]
  constructor
  · rintro ⟨_, ⟨rfl, -⟩, rfl⟩
    exact ⟨rfl, rfl⟩
  · rintro ⟨rfl, rfl⟩
    exact ⟨(), ⟨rfl, trivial⟩, rfl⟩

theorem transcript_ofExcept {v r : Except ClientError α} :
    (ofExcept v).run.Transcript xs r ↔ xs = [] ∧ r = v :=
  transcript_done

theorem transcript_note_bind {e : Log.Event} {f : Unit → Operation α} {r : Except ClientError α} :
    (note e >>= f).run.Transcript xs r ↔ (f ()).run.Transcript xs r :=
  transcript_except_tell_bind

theorem transcript_ofExcept_bind {v : Except ClientError α} {f : α → Operation β}
    {r : Except ClientError β} :
    (ofExcept v >>= f).run.Transcript xs r ↔
      (∃ e, v = .error e ∧ xs = [] ∧ r = .error e) ∨
        ∃ a, v = .ok a ∧ (f a).run.Transcript xs r :=
  transcript_except_mk_bind

theorem transcript_send_bind {q : Request} {f : Exchange → Operation α}
    {r : Except ClientError α} :
    (send q >>= f).run.Transcript xs r ↔
      ∃ (reply : Reply) (ys : _), xs = (q, reply) :: ys ∧
        match reply with
        | .ok x => (f x).run.Transcript ys r
        | .error e => ys = [] ∧ r = .error e := by
  show (ask q _).Transcript xs r ↔ _
  rw [transcript_ask]
  refine exists_congr fun reply => exists_congr fun ys => and_congr_right fun _ => ?_
  cases reply with
  | ok x => rfl
  | error e => exact transcript_done

/-- An operation that sends one request and takes the body of the reply. -/
theorem transcript_send_decode {q : Request} {reader : Json.Reader α}
    {r : Except ClientError α} :
    (send q >>= fun x => ofExcept (x.decode reader)).run.Transcript xs r ↔
      ∃ reply : Reply, xs = [(q, reply)] ∧ r = reply.decode reader := by
  simp only [transcript_send_bind, transcript_ofExcept]
  constructor
  · rintro ⟨x | x, ys, rfl, rfl, rfl⟩
    · exact ⟨_, rfl, rfl⟩
    · exact ⟨_, rfl, rfl⟩
  · rintro ⟨x | x, rfl, rfl⟩
    · exact ⟨_, [], rfl, rfl, rfl⟩
    · exact ⟨_, [], rfl, rfl, rfl⟩

/-- An operation that sends one request and asks nothing of the body of the reply. -/
theorem transcript_send_note {q : Request} {e : Log.Event} {r : Except ClientError Unit} :
    (send q >>= fun _ => note e).run.Transcript xs r ↔
      ∃ reply : Reply, xs = [(q, reply)] ∧ r = reply.map fun _ => () := by
  simp only [transcript_send_bind, transcript_note]
  constructor
  · rintro ⟨x | x, ys, rfl, rfl, rfl⟩
    · exact ⟨_, rfl, rfl⟩
    · exact ⟨_, rfl, rfl⟩
  · rintro ⟨x | x, rfl, rfl⟩
    · exact ⟨_, [], rfl, rfl, rfl⟩
    · exact ⟨_, [], rfl, rfl, rfl⟩

end Operation

namespace Client

variable {xs : List (Request × Reply)}

/-! ### Health, initialization, policies and mounts -/

theorem transcript_healthCheck {r : Except ClientError UInt16} :
    healthCheck.run.Transcript xs r ↔
      ∃ reply, xs = [(healthRequest, reply)] ∧ r = statusOf reply := by
  rw [healthCheck, transcript_except_lift_bind]
  simp only [transcript_query, Operation.transcript_ofExcept_bind,
    Operation.transcript_note_bind, transcript_except_pure]
  constructor
  · rintro ⟨_, ys, reply, rfl, rfl, ⟨e, he, rfl, rfl⟩ | ⟨status, hs, rfl, rfl⟩⟩
    · exact ⟨reply, rfl, he.symm⟩
    · exact ⟨reply, rfl, hs.symm⟩
  · rintro ⟨reply, rfl, rfl⟩
    refine ⟨_, [], reply, rfl, rfl, ?_⟩
    cases statusOf reply with
    | error e => exact .inl ⟨e, rfl, rfl, rfl⟩
    | ok status => exact .inr ⟨status, rfl, rfl, rfl⟩

/-- A health check is one request, and its status is all that counts. -/
theorem transcript_checkHealth {r : Except ClientError Health} :
    checkHealth.run.Transcript xs r ↔
      ∃ reply, xs = [(healthRequest, reply)] ∧ r = (statusOf reply).map Health.ofStatus := by
  rw [checkHealth, Operation.transcript_note_bind, transcript_except_bind]
  simp only [Operation.transcript_note_bind, transcript_healthCheck, transcript_except_pure]
  constructor
  · rintro (⟨e, ⟨reply, rfl, h⟩, rfl⟩ | ⟨_, _, status, rfl, ⟨reply, rfl, h⟩, rfl, rfl⟩)
    · exact ⟨reply, rfl, by rw [← h]; rfl⟩
    · exact ⟨reply, rfl, by rw [← h]; rfl⟩
  · rintro ⟨reply, rfl, rfl⟩
    cases h : statusOf reply with
    | error e => exact .inl ⟨e, ⟨reply, rfl, h.symm⟩, rfl⟩
    | ok status => exact .inr ⟨_, [], status, rfl, ⟨reply, rfl, h.symm⟩, rfl, rfl⟩

theorem validShares_iff {shares threshold : UInt32} :
    validShares shares threshold = true ↔ 1 ≤ threshold ∧ threshold ≤ shares := by
  simp only [validShares, Bool.and_eq_true, decide_eq_true_eq, ne_eq, UInt32.le_iff_toNat_le,
    ← UInt32.toNat_inj]
  simp only [UInt32.toNat_zero, UInt32.toNat_one]
  omega

theorem transcript_init {shares threshold : UInt32} {r : Except ClientError InitMaterial}
    (h : validShares shares threshold = true) :
    (init shares threshold).run.Transcript xs r ↔
      ∃ reply : Reply, xs = [(initRequest shares threshold, reply)] ∧ r = reply.material := by
  simp only [init, h, if_true, Operation.transcript_note_bind]
  exact Operation.transcript_send_decode

theorem transcript_init_refused {shares threshold : UInt32} {r : Except ClientError InitMaterial}
    (h : validShares shares threshold = false) :
    (init shares threshold).run.Transcript xs r ↔
      xs = [] ∧ r = .error (sharesRefused shares threshold) := by
  simp only [init, h, Bool.false_eq_true, if_false]
  exact Operation.transcript_ofExcept

theorem transcript_installPolicy {token name document : String} {r : Except ClientError Unit} :
    (installPolicy token name document).run.Transcript xs r ↔
      ∃ reply : Reply, xs = [(policyRequest token name document, reply)] ∧
        r = reply.map fun _ => () :=
  Operation.transcript_send_note

theorem transcript_mount {token mountPoint : String} {m : MountSpec} {operation : String}
    {r : Except ClientError Unit} :
    (mount token mountPoint m operation).run.Transcript xs r ↔
      ∃ reply : Reply, xs = [(mountRequest token mountPoint m operation, reply)] ∧
        r = reply.map fun _ => () :=
  Operation.transcript_send_note

theorem transcript_mounts {token : String} {r : Except ClientError MountTable} :
    (mounts token).run.Transcript xs r ↔
      ∃ reply : Reply, xs = [(listRequest token, reply)] ∧ r = reply.mountTable :=
  Operation.transcript_send_decode

theorem transcript_isMounted {token mountPoint engineType : String}
    {r : Except ClientError Bool} :
    (isMounted token mountPoint engineType).run.Transcript xs r ↔
      ∃ reply : Reply, xs = [(listRequest token, reply)] ∧
        r = reply.mountTable.map fun t => t.hasEngine mountPoint engineType := by
  rw [isMounted, transcript_except_bind_pure]
  simp only [transcript_mounts]
  constructor
  · rintro ⟨v, ⟨reply, rfl, rfl⟩, rfl⟩
    exact ⟨reply, rfl, rfl⟩
  · rintro ⟨reply, rfl, rfl⟩
    exact ⟨_, ⟨reply, rfl, rfl⟩, rfl⟩

theorem transcript_submitShare {key : String} {r : Except ClientError SealStatus} :
    (submitShare key).run.Transcript xs r ↔
      ∃ reply : Reply, xs = [(unsealRequest key, reply)] ∧ r = reply.sealStatus :=
  Operation.transcript_send_decode

end Client

end SecretStore
