import SecretStore.Proofs.Output
import SecretStore.Proofs.Redirects
import SecretStore.Proofs.Unsealing

/-!
# The status gate

Over HTTP an operation goes by the final response to its request: the last answer of the server,
once redirects have been followed. `Disposal` names the four ways in which a call can go: there is
no final response, its status is not the declared one, its body is cut off or not what the operation
reads, or there is a value. `operations_gated` says for every operation but the health check how
its result and the final response determine each other.

* `Trail.final?_eq`: sending a message ends with the final response, or fails without one.
* `Asks`: the message of a request goes out first, if the client can form it.
* `execute_cases`, `disposal_of_execute`: how a call goes, whatever is done with its reply.
* `Disposal.gate`: each kind of result belongs to one kind of final response.
* `run_carryOut`: an operation over HTTP exchanges the messages of its calls, one call after the
  other.
-/

namespace SecretStore

open Interaction
open Command (replyOf)

namespace Net

variable {σ α : Type} {answer : Message → σ → Option Response × σ} {s : σ}
variable {names : Host.Names}

/-! ### Final responses -/

/-- The final response among some messages and their answers: the last answer, unless it refers
elsewhere. -/
def final? (names : Host.Names) (xs : List (Message × Option Response)) : Option Response :=
  match xs.getLast? with
  | some (m, some a) => if (a.redirect? names m).isNone then some a else none
  | _ => none

theorem final?_cons {x : Message × Option Response} {xs : List (Message × Option Response)}
    (h : xs ≠ []) : final? names (x :: xs) = final? names xs := by
  rw [final?, final?, List.getLast?_cons_of_ne_nil h]

theorem final?_answered {m : Message} {a : Response} (h : a.redirect? names m = none) :
    final? names [(m, some a)] = some a := by
  simp [final?, h]

theorem final?_referred {m next : Message} {a : Response} (h : a.redirect? names m = some next) :
    final? names [(m, some a)] = none := by
  simp [final?, h]

/-- Sending a message ends with the final response, or fails without one. -/
theorem Trail.final?_eq {left : Nat} {m : Message} {xs : List (Message × Option Response)}
    {r : Except SendError Response} (h : Trail names left m xs r) :
    final? names xs = r.toOption := by
  induction h with
  | unanswered => rfl
  | final h => exact final?_answered h
  | exhausted h => exact final?_referred h
  | barred h _ => exact final?_referred h
  | referred _ _ rest ih =>
    obtain ⟨a, ys, rfl⟩ := rest.head
    rw [final?_cons (List.cons_ne_nil _ _), ih]

/-! ### How a call goes -/

/-- How a call goes that declares a status and reads the body of its response, given the final
response. -/
inductive Disposal (operation method : String) (expected : UInt16) (read : Bytes → Option α) :
    Option Response → Except ClientError α → Prop
  | silent (source : String) :
      Disposal operation method expected read none (.error (.noResponse operation source))
  | unexpected (a : Response) (errors : List String) (h : a.status ≠ expected) :
      Disposal operation method expected read (some a)
        (.error (.unexpectedStatus operation expected a.status errors))
  | unreadable (a : Response) (message : String) (h : a.status = expected)
      (hread : (a.content? method).bind read = none) :
      Disposal operation method expected read (some a) (.error (.decode operation a.status message))
  | taken (a : Response) (v : α) (h : a.status = expected)
      (hread : (a.content? method).bind read = some v) :
      Disposal operation method expected read (some a) (.ok v)

/-- How the result of a call that declares a status and reads the body of its response and the
final response determine each other. -/
structure Gate (operation method : String) (expected : UInt16) (read : Bytes → Option α)
    (final : Option Response) (r : Except ClientError α) : Prop where
  /-- A value is what a body spells that arrived to its end, with the declared status. -/
  ok_iff : ∀ v, r = .ok v ↔
    ∃ a, final = some a ∧ a.status = expected ∧ (a.content? method).bind read = some v
  noResponse_iff : (∃ source, r = .error (.noResponse operation source)) ↔ final = none
  unexpectedStatus_iff : ∀ n,
    (∃ errors, r = .error (.unexpectedStatus operation expected n errors)) ↔
      ∃ a, final = some a ∧ a.status = n ∧ n ≠ expected
  decode_iff : ∀ n, (∃ message, r = .error (.decode operation n message)) ↔
    ∃ a, final = some a ∧ a.status = n ∧ n = expected ∧ (a.content? method).bind read = none
  /-- An error is one of these three, and names the operation. -/
  named : ∀ e, r = .error e →
    (∃ source, e = .noResponse operation source) ∨
      (∃ n errors, e = .unexpectedStatus operation expected n errors) ∨
      ∃ n message, e = .decode operation n message
  /-- An error knows the status of the final response. -/
  status_iff : ∀ e, r = .error e → ∀ n, e.status? = some n ↔ ∃ a, final = some a ∧ a.status = n

variable {operation method : String} {expected : UInt16} {read : Bytes → Option α}
variable {final : Option Response} {r : Except ClientError α}

/-- Each kind of result belongs to one kind of final response. -/
theorem Disposal.gate (h : Disposal operation method expected read final r) :
    Gate operation method expected read final r := by
  cases h with
  | silent source => constructor <;> simp [ClientError.status?]
  | unexpected a errors h => constructor <;> simp [ClientError.status?, h]
  | unreadable a message h hread =>
    constructor <;> simp [ClientError.status?, h, hread, -Option.bind_eq_none_iff]
  | taken a v h hread => constructor <;> simp [h, hread, -Option.bind_eq_none_iff]

/-- What is done with a reply depends on its body: some bodies are read as a value, and the others
are reported as not decoded. -/
def Reads (use : Exchange → Except ClientError α) (read : Bytes → Option α) : Prop :=
  ∀ x : Exchange, (∃ v, read x.body = some v ∧ use x = .ok v) ∨
    read x.body = none ∧ ∃ message, use x = .error (.decode x.operation x.status message)

/-- The value that a body spells for a reader. -/
def spelled (reader : Json.Reader α) (body : Bytes) : Option α := (Json.whole reader body).toOption

theorem reads_decode (reader : Json.Reader α) :
    Reads (fun x => x.decode reader) (spelled reader) := by
  intro x
  cases h : Json.whole reader x.body with
  | error e =>
    refine .inr ⟨by rw [spelled, h]; rfl, e.message, ?_⟩
    simp only [Exchange.decode, h]
  | ok v =>
    refine .inl ⟨v, by rw [spelled, h]; rfl, ?_⟩
    simp only [Exchange.decode, h]

/-- Any body will do. -/
theorem reads_any (f : Bytes → α) : Reads (fun x => .ok (f x.body)) (fun body => some (f body)) :=
  fun x => .inl ⟨f x.body, rfl, rfl⟩

theorem Reads.map {use : Exchange → Except ClientError α} (h : Reads use read) {β : Type}
    (f : α → β) : Reads (fun x => (use x).map f) (fun body => (read body).map f) := by
  intro x
  rcases h x with ⟨v, hv, hu⟩ | ⟨hn, message, hu⟩
  · exact .inl ⟨f v, by simp only [hv, Option.map_some], by simp only [hu, Except.map]⟩
  · exact .inr ⟨by simp only [hn, Option.map_none], message, by simp only [hu, Except.map]⟩

namespace HttpClient

/-- How a call goes whose final response is judged. -/
theorem disposal_of_judge {use : Exchange → Except ClientError α} (h : Reads use read)
    (q : Request) (a : Response) :
    Disposal q.operation q.method q.expectedStatus read (some a) ((judge q a).bind use) := by
  by_cases hs : a.status = q.expectedStatus
  · cases hc : a.content? q.method with
    | none =>
      have hj : judge q a = .error (.decode q.operation a.status
          "cannot read response body: error decoding response body") := by
        simp [judge, hs, hc]
      rw [hj]
      exact .unreadable a _ hs (by rw [hc]; rfl)
    | some body =>
      have hj : judge q a = .ok ⟨q.operation, a.status, body⟩ := by simp [judge, hs, hc]
      rw [hj]
      rcases h ⟨q.operation, a.status, body⟩ with ⟨v, hv, hu⟩ | ⟨hn, message, hu⟩
      · show Disposal _ _ _ _ _ (use _)
        rw [hu]
        exact .taken a v hs (by rw [hc]; exact hv)
      · show Disposal _ _ _ _ _ (use _)
        rw [hu]
        exact .unreadable a message hs (by rw [hc]; exact hn)
  · have hj : judge q a = .error (.unexpectedStatus q.operation q.expectedStatus a.status
        (reportedErrors (a.content? q.method))) := by
      simp [judge, hs]
    rw [hj]
    exact .unexpected a _ hs

variable (client : HttpClient)

/-- If the client can form a message of a request, that message goes out first, and the server
answers it. -/
def Asks (answer : Message → σ → Option Response × σ) (s : σ) (q : Request)
    (xs : List (Message × Option Response)) : Prop :=
  ∀ m, client.message q = .ok m → xs.head? = some (m, (answer m s).1)

/-- Whether a client can form a message can be computed. -/
theorem exists_message (q : Request) (h : (client.message q).isOk = true) :
    ∃ m, client.message q = .ok m := by
  cases hm : client.message q with
  | error e =>
    rw [hm] at h
    cases h
  | ok m => exact ⟨m, rfl⟩

theorem asks_execute (q : Request) (answer : Message → σ → Option Response × σ) (s : σ) :
    client.Asks answer s q ((client.execute q).run answer s).exchanges :=
  fun _ hm => head?_execute hm s

/-- A call is judged by the final response, if there is one. -/
theorem execute_cases (q : Request) (answer : Message → σ → Option Response × σ) (s : σ) :
    let out := (client.execute q).run answer s
    (final? client.names out.exchanges = none ∧
      ∃ source, out.result = .error (.noResponse q.operation source)) ∨
      ∃ a, final? client.names out.exchanges = some a ∧ out.result = judge q a := by
  intro out
  cases hm : client.message q with
  | error e =>
    obtain ⟨hx, hr⟩ : out.exchanges = [] ∧ out.result = unanswered q e :=
      execute_of_message_error hm s
    exact .inl ⟨by rw [hx]; rfl, e.message, hr⟩
  | ok m =>
    have hfinal : final? client.names out.exchanges = _ := (trail_execute hm s).final?_eq
    have hresult : out.result = _ := (execute_of_message_ok hm s).2
    cases hr : ((send client.names m).run answer s).result with
    | error e =>
      rw [hr] at hfinal hresult
      exact .inl ⟨hfinal, e.message, hresult⟩
    | ok a =>
      rw [hr] at hfinal hresult
      exact .inr ⟨a, hfinal, hresult⟩

/-- How a call goes, whatever is done with its reply. -/
theorem disposal_of_execute {use : Exchange → Except ClientError α} (h : Reads use read)
    (q : Request) (answer : Message → σ → Option Response × σ) (s : σ) :
    let out := (client.execute q).run answer s
    Disposal q.operation q.method q.expectedStatus read (final? client.names out.exchanges)
      (out.result.bind use) := by
  intro out
  rcases client.execute_cases q answer s with ⟨hf, source, hr⟩ | ⟨a, hf, hr⟩
  · rw [hf, hr]
    exact .silent source
  · rw [hf, hr]
    exact disposal_of_judge h q a

/-! ### Operations over HTTP -/

/-- A run of an operation over HTTP. -/
def perform (client : HttpClient) (answer : Message → σ → Option Response × σ) (op : Operation α)
    (s : σ) : Run Message (Option Response) Log.Event σ (Except ClientError α) :=
  (client.carryOut op.run).run answer s

/-- The messages of some calls and their answers, one call after the other. -/
def wire (client : HttpClient) (answer : Message → σ → Option Response × σ) :
    List Request → σ → List (Message × Option Response)
  | [], _ => []
  | q :: qs, s =>
    ((client.execute q).run answer s).exchanges ++
      wire client answer qs (replyOf client answer q s).2

/-- A procedure over HTTP ends as it does with the replies of the client, and exchanges the messages
of its calls. -/
theorem run_carryOut (answer : Message → σ → Option Response × σ)
    (t : Interaction Request Reply Log.Event α) (s : σ) :
    let out := t.run (replyOf client answer) s
    ((client.carryOut t).run answer s).result = out.result ∧
      ((client.carryOut t).run answer s).exchanges =
        client.wire answer (out.exchanges.map Prod.fst) s := by
  refine ⟨(run_expand answer client.execute t s).1, ?_⟩
  induction t generalizing s with
  | done a => rfl
  | ask q next ih =>
    simp only [carryOut, expand, run_bind, run, List.map_cons, wire]
    exact congrArg _ (ih _ _)
  | note e rest ih => exact ih s

theorem wire_append {s between : σ} {xs : List (Request × Reply)}
    (h : Answered (replyOf client answer) s xs between) (qs : List Request) :
    client.wire answer (xs.map Prod.fst ++ qs) s =
      client.wire answer (xs.map Prod.fst) s ++ client.wire answer qs between := by
  induction h with
  | nil s => rfl
  | cons h ih => simp only [List.map_cons, List.cons_append, wire, ih, List.append_assoc]

theorem answered_wire {s s' : σ} {xs : List (Request × Reply)}
    (h : Answered (replyOf client answer) s xs s') :
    Answered answer s (client.wire answer (xs.map Prod.fst) s) s' := by
  induction h with
  | nil s => exact .nil s
  | cons h ih => exact answered_append.2 ⟨_, answered_run answer _ _, ih⟩

/-- The message of the first call goes out first. -/
theorem asks_perform {op : Operation α} {q : Request}
    (h : ((op.run.run (replyOf client answer) s).exchanges.map Prod.fst).head? = some q) :
    client.Asks answer s q (client.perform answer op s).exchanges := by
  intro m hm
  obtain ⟨rest, hcalls⟩ := List.head?_eq_some_iff.1 h
  rw [perform, (client.run_carryOut answer op.run s).2, hcalls, wire, List.head?_append,
    client.asks_execute q answer s m hm, Option.some_or]

/-- Over HTTP an operation that sends one request exchanges the messages of that call. -/
theorem exchanges_of_transcript {op : Operation α} {q : Request}
    (h : ∀ {xs r}, op.run.Transcript xs r → ∃ reply : Reply, xs = [(q, reply)]) :
    (client.perform answer op s).exchanges = ((client.execute q).run answer s).exchanges := by
  obtain ⟨reply, hcalls⟩ := h (transcript_run (replyOf client answer) op.run s)
  rw [perform, (client.run_carryOut answer op.run s).2, hcalls]
  simp only [List.map_cons, List.map_nil, wire, List.append_nil]

/-- It makes of the reply what it makes of any other. -/
theorem perform_of_transcript {op : Operation α} {q : Request} {use : Reply → Except ClientError α}
    (h : ∀ {xs r}, op.run.Transcript xs r → ∃ reply : Reply, xs = [(q, reply)] ∧ r = use reply) :
    let out := client.perform answer op s
    let call := (client.execute q).run answer s
    out.exchanges = call.exchanges ∧ out.result = use call.result := by
  intro out call
  obtain ⟨reply, hcalls, hresult⟩ := h (transcript_run (replyOf client answer) op.run s)
  have hreply : reply = call.result := by
    have hrun := answered_run (replyOf client answer) op.run s
    rw [hcalls] at hrun
    exact (answered_cons.1 hrun).1
  refine ⟨client.exchanges_of_transcript fun hx => (h hx).imp fun _ => And.left, ?_⟩
  rw [← hreply, ← hresult]
  exact (client.run_carryOut answer op.run s).1

/-- An operation that sends one request and goes by its reply asks it, and goes through the gate. -/
theorem gate_of_transcript {op : Operation α} {q : Request}
    {use : Exchange → Except ClientError α} (huse : Reads use read)
    (h : ∀ {xs r}, op.run.Transcript xs r →
      ∃ reply : Reply, xs = [(q, reply)] ∧ r = reply.bind use) :
    let out := client.perform answer op s
    client.Asks answer s q out.exchanges ∧
      Gate q.operation q.method q.expectedStatus read (final? client.names out.exchanges)
        out.result := by
  intro out
  let call := (client.execute q).run answer s
  obtain ⟨hx, hr⟩ : out.exchanges = call.exchanges ∧ out.result = call.result.bind use :=
    client.perform_of_transcript h
  rw [hx, hr]
  exact ⟨client.asks_execute q answer s, (client.disposal_of_execute huse q answer s).gate⟩

end HttpClient

/-! ### The operations -/

open Client

variable (client : HttpClient)

theorem Reply.decode_eq_bind (reader : Json.Reader α) (reply : Reply) :
    reply.decode reader = reply.bind fun x => x.decode reader := by
  cases reply <;> rfl

theorem gate_of_decode {op : Operation α} {q : Request} {reader : Json.Reader α}
    (h : ∀ {xs r}, op.run.Transcript xs r ↔
      ∃ reply : Reply, xs = [(q, reply)] ∧ r = reply.decode reader) :
    let out := client.perform answer op s
    client.Asks answer s q out.exchanges ∧
      Gate q.operation q.method q.expectedStatus (spelled reader)
        (final? client.names out.exchanges) out.result := by
  refine client.gate_of_transcript (reads_decode reader) fun ht => ?_
  obtain ⟨reply, hx, hr⟩ := h.1 ht
  exact ⟨reply, hx, hr.trans (Reply.decode_eq_bind reader reply)⟩

theorem gate_of_map {op : Operation Unit} {q : Request}
    (h : ∀ {xs r}, op.run.Transcript xs r ↔
      ∃ reply : Reply, xs = [(q, reply)] ∧ r = reply.map fun _ => ()) :
    let out := client.perform answer op s
    client.Asks answer s q out.exchanges ∧
      Gate q.operation q.method q.expectedStatus (fun _ => some ())
        (final? client.names out.exchanges) out.result := by
  refine client.gate_of_transcript (reads_any fun _ => ()) fun ht => ?_
  obtain ⟨reply, hx, hr⟩ := h.1 ht
  exact ⟨reply, hx, by rw [hr]; cases reply <;> rfl⟩

theorem gate_isMounted (token mountPoint engineType : String) :
    let out := client.perform answer (isMounted token mountPoint engineType) s
    client.Asks answer s (listRequest token) out.exchanges ∧
      Gate "query mounts" "GET" 200
        (fun body => (spelled MountTable.shape.reader body).map (·.hasEngine mountPoint engineType))
        (final? client.names out.exchanges) out.result := by
  refine client.gate_of_transcript (q := listRequest token)
    ((reads_decode MountTable.shape.reader).map _) fun ht => ?_
  obtain ⟨reply, hx, hr⟩ := transcript_isMounted.1 ht
  exact ⟨reply, hx, by rw [hr]; cases reply <;> rfl⟩

/-- A refused initialization sends nothing. -/
theorem perform_init_refused {shares threshold : UInt32}
    (h : validShares shares threshold = false) :
    let out := client.perform answer (init shares threshold) s
    out.exchanges = [] ∧ out.result = .error (sharesRefused shares threshold) := by
  intro out
  obtain ⟨hr, hx⟩ := client.run_carryOut answer (init shares threshold).run s
  obtain ⟨hcalls, hresult⟩ := (transcript_init_refused h).1
    (transcript_run (replyOf client answer) (init shares threshold).run s)
  rw [hcalls] at hx
  exact ⟨hx, hr.trans hresult⟩

/-- Unsealing submits the first share first. -/
theorem asks_unsealWith {key : String} {keys : List String} :
    client.Asks answer s (unsealRequest key)
      (client.perform answer (unsealWith (key :: keys)) s).exchanges := by
  refine client.asks_perform ?_
  rcases run_unsealWith (replyOf client answer) (key :: keys) s with
    ⟨k, x, -, hcalls, -⟩ | ⟨reports, -, -, hcalls, -⟩
  · rw [hcalls]
    rfl
  · rw [hcalls]
    rfl

/-- The gate of unsealing is that of its last submission, unless the shares run out. -/
theorem gate_unsealWith (keys : List String) :
    let out := client.perform answer (unsealWith keys) s
    (∃ progress threshold,
      out.result = .error (.thresholdNotReached keys.length progress threshold)) ∨
    ∃ key ∈ keys, ∃ before between, Answered answer s before between ∧
      let last := (client.execute (unsealRequest key)).run answer between
      client.Asks answer between (unsealRequest key) last.exchanges ∧
      out.exchanges = before ++ last.exchanges ∧
      Gate "unseal secret store" "POST" 200 (spelled SealStatus.shape.reader)
        (final? client.names last.exchanges) out.result := by
  intro out
  obtain ⟨hr, hx⟩ := client.run_carryOut answer (unsealWith keys).run s
  rcases run_unsealWith (replyOf client answer) keys s with
    ⟨k, x, hk, hcalls, hresult⟩ | ⟨reports, hrep, hall, -⟩
  · right
    have hsplit : ((unsealWith keys).run.run (replyOf client answer) s).exchanges =
        (submissions (replyOf client answer) keys s).take k ++ [x] := by
      rw [hcalls, List.take_add_one, hk.at_position]
      rfl
    -- the state in which the last share is submitted
    have hrun := answered_run (replyOf client answer) (unsealWith keys).run s
    rw [hsplit] at hrun
    obtain ⟨between, hbefore, hlast⟩ := answered_append.1 hrun
    have hreply : x.2 = ((client.execute x.1).run answer between).result :=
      (answered_cons.1 hlast).1
    have hmem : x.1 ∈ keys.map unsealRequest :=
      map_fst_recite (replyOf client answer) (keys.map unsealRequest) s ▸
        List.mem_map_of_mem hk.mem
    obtain ⟨key, hkey, hq⟩ := List.mem_map.1 hmem
    rw [← hq] at hreply
    rw [hsplit, List.map_append, client.wire_append hbefore] at hx
    rw [hresult, Reply.sealStatus, Reply.decode_eq_bind, hreply] at hr
    refine ⟨key, hkey, _, between, client.answered_wire hbefore,
      client.asks_execute (unsealRequest key) answer between, ?_, ?_⟩
    · rw [show out.exchanges = _ from hx]
      simp only [List.map_cons, List.map_nil, HttpClient.wire, List.append_nil, hq]
    · rw [show out.result = _ from hr]
      exact (client.disposal_of_execute (reads_decode _) (unsealRequest key) answer between).gate
  · left
    obtain ⟨-, reports, -, hresult⟩ := run_unsealWith_of_not_settles (replyOf client answer) keys s
      (not_settles_of_reports hrep hall)
    exact ⟨_, _, hr.trans hresult⟩

/-- **The status gate.** Whatever a server answers, each operation but the health check, and the
executor under them, goes by the final response to its request as `Gate` says: with the status that
it declares, and for an operation that reads the body, with what the body has to spell. Its message
goes out whenever the client can form it. Unsealing begins with the first share and goes by the last
one that it submits, unless it runs out of shares, and an initialization with unusable numbers is
refused before anything is sent. -/
theorem operations_gated (client : HttpClient) (answer : Message → σ → Option Response × σ)
    (s : σ) :
    (∀ q : Request, let out := (client.execute q).run answer s
      client.Asks answer s q out.exchanges ∧
      Gate q.operation q.method q.expectedStatus some (final? client.names out.exchanges)
        (out.result.map (·.body))) ∧
    (∀ shares threshold : UInt32, let out := client.perform answer (init shares threshold) s
      if 1 ≤ threshold ∧ threshold ≤ shares then
        client.Asks answer s (initRequest shares threshold) out.exchanges ∧
        Gate "initialize secret store" "POST" 200 (spelled InitMaterial.shape.reader)
          (final? client.names out.exchanges) out.result
      else out.exchanges = [] ∧ out.result = .error (.invalidArgument
        ("secret threshold must be between 1 and the number of shares " ++
          s!"(shares={shares}, threshold={threshold})"))) ∧
    (∀ token name document : String,
      let out := client.perform answer (installPolicy token name document) s
      client.Asks answer s (policyRequest token name document) out.exchanges ∧
      Gate "install policy" "PUT" 204 (fun _ => some ()) (final? client.names out.exchanges)
        out.result) ∧
    (∀ (token mountPoint : String) (m : MountSpec) (operation : String),
      let out := client.perform answer (mount token mountPoint m operation) s
      client.Asks answer s (mountRequest token mountPoint m operation) out.exchanges ∧
      Gate operation "POST" 204 (fun _ => some ()) (final? client.names out.exchanges) out.result) ∧
    (∀ token mountPoint version : String,
      let out := client.perform answer (mountKeyValue token mountPoint version) s
      client.Asks answer s
        (mountRequest token mountPoint (.keyValue version) "update mounts") out.exchanges ∧
      Gate "update mounts" "POST" 204 (fun _ => some ()) (final? client.names out.exchanges)
        out.result) ∧
    (∀ token mountPoint leaseTtl : String,
      let out := client.perform answer (mountConsul token mountPoint leaseTtl) s
      client.Asks answer s
        (mountRequest token mountPoint (.consul leaseTtl) "update mounts for Consul")
        out.exchanges ∧
      Gate "update mounts for Consul" "POST" 204 (fun _ => some ())
        (final? client.names out.exchanges) out.result) ∧
    (∀ token : String, let out := client.perform answer (mounts token) s
      client.Asks answer s (listRequest token) out.exchanges ∧
      Gate "query mounts" "GET" 200 (spelled MountTable.shape.reader)
        (final? client.names out.exchanges) out.result) ∧
    (∀ token mountPoint engineType : String,
      let out := client.perform answer (isMounted token mountPoint engineType) s
      client.Asks answer s (listRequest token) out.exchanges ∧
      Gate "query mounts" "GET" 200
        (fun body =>
          (spelled MountTable.shape.reader body).map (·.hasEngine mountPoint engineType))
        (final? client.names out.exchanges) out.result) ∧
    (∀ keys : List String, let out := client.perform answer (unsealWith keys) s
      (∀ key ∈ keys.head?, client.Asks answer s (unsealRequest key) out.exchanges) ∧
      ((∃ progress threshold,
        out.result = .error (.thresholdNotReached keys.length progress threshold)) ∨
      ∃ key ∈ keys, ∃ before between, Answered answer s before between ∧
        let last := (client.execute (unsealRequest key)).run answer between
        client.Asks answer between (unsealRequest key) last.exchanges ∧
        out.exchanges = before ++ last.exchanges ∧
        Gate "unseal secret store" "POST" 200 (spelled SealStatus.shape.reader)
          (final? client.names last.exchanges) out.result)) := by
  refine ⟨?executor, ?init, ?policy, ?mount, ?keyValue, ?consul, ?listing, ?mounted, ?shares⟩
  case executor =>
    intro q out
    exact ⟨client.asks_execute q answer s,
      (client.disposal_of_execute (reads_any id) q answer s).gate⟩
  case init =>
    intro shares threshold out
    cases hv : validShares shares threshold with
    | true =>
      rw [if_pos (validShares_iff.1 hv)]
      exact gate_of_decode client (transcript_init hv)
    | false =>
      rw [if_neg fun h => by simp [validShares_iff.2 h] at hv]
      exact perform_init_refused client hv
  case policy =>
    intro token name document
    exact gate_of_map client transcript_installPolicy
  case mount =>
    intro token mountPoint m operation
    exact gate_of_map client transcript_mount
  case keyValue =>
    intro token mountPoint version
    exact gate_of_map client transcript_mount
  case consul =>
    intro token mountPoint leaseTtl
    exact gate_of_map client transcript_mount
  case listing =>
    intro token
    exact gate_of_decode client transcript_mounts
  case mounted =>
    intro token mountPoint engineType
    exact gate_isMounted client token mountPoint engineType
  case shares =>
    intro keys
    refine ⟨fun key hkey => ?_, gate_unsealWith client keys⟩
    obtain ⟨rest, rfl⟩ := List.head?_eq_some_iff.1 hkey
    exact asks_unsealWith client

/-- A store that answers 204 to everything installs a policy, and an initialization gets a status
that it does not declare. -/
theorem gated_of_accepting :
    let client : HttpClient := ⟨fun _ => none, "http://127.0.0.1:8200", none⟩
    let accepted : Response := ⟨204, [], [], true⟩
    let answer := fun (_ : Message) (n : Nat) => (some accepted, n + 1)
    let policy := client.perform answer (installPolicy "s.x" "admin" "path") 0
    let fresh := client.perform answer (init 5 3) 0
    ((∃ m, client.message (policyRequest "s.x" "admin" "path") = .ok m ∧
        policy.exchanges.head? = some (m, some accepted)) ∧
      final? client.names policy.exchanges = some accepted ∧ policy.result = .ok ()) ∧
    (∃ m, client.message (initRequest 5 3) = .ok m ∧
        fresh.exchanges.head? = some (m, some accepted)) ∧
      final? client.names fresh.exchanges = some accepted ∧
      ∃ errors, fresh.result =
        .error (.unexpectedStatus "initialize secret store" 200 204 errors) := by
  intro client accepted answer policy fresh
  obtain ⟨-, hinit, hpolicy, -⟩ := operations_gated client answer 0
  constructor
  · obtain ⟨hasks, hgate⟩ := hpolicy "s.x" "admin" "path"
    obtain ⟨m, hm⟩ := client.exists_message (policyRequest "s.x" "admin" "path")
      (by decide +kernel)
    have hfinal : final? client.names policy.exchanges = some accepted := by decide +kernel
    exact ⟨⟨m, hm, hasks m hm⟩, hfinal, (hgate.ok_iff ()).2 ⟨accepted, hfinal, rfl, rfl⟩⟩
  · obtain ⟨hasks, hgate⟩ := hinit 5 3
    obtain ⟨m, hm⟩ := client.exists_message (initRequest 5 3) (by decide +kernel)
    have hfinal : final? client.names fresh.exchanges = some accepted := by decide +kernel
    exact ⟨⟨m, hm, hasks m hm⟩, hfinal,
      (hgate.unexpectedStatus_iff 204).2 ⟨accepted, hfinal, rfl, by decide⟩⟩

end Net

end SecretStore
