import SecretStore.Proofs.Redirects
import SecretStore.Proofs.StatusGate

/-!
# Health checks

A store tells its state by the status of its answer, and that is all a health check looks at. The
status of the final response comes to it in one of three ways: with an exchange, with the error of
an unexpected status, or with the error of a body that cannot be read. All three say the same.

* `result_checkHealth`: over HTTP the final response decides, or that there is none.
* `exchange_healthCheck`: what a reply of any executor says to a health check.
* `health_goes_by_status`: both as one statement, and that two servers with the same final status
  cannot be told apart.
-/

namespace SecretStore

open Interaction Client

/-- A health check is one request, and ends with the status of its reply or with its error. -/
theorem Client.exchange_healthCheck {τ : Type} (execute : Request → τ → Reply × τ) (t : τ) :
    let out := healthCheck.run.run execute t
    let reply := (execute healthRequest t).1
    out.exchanges = [(healthRequest, reply)] ∧ out.result = statusOf reply := by
  intro out reply
  obtain ⟨reply', hx, hr⟩ := transcript_healthCheck.1 (transcript_run execute healthCheck.run t)
  have hrun := answered_run execute healthCheck.run t
  rw [hx] at hrun
  obtain rfl : reply' = reply := (answered_cons.1 hrun).1
  exact ⟨hx, hr⟩

namespace Net

variable {σ : Type}

namespace HttpClient

/-- Over HTTP a health check asks for the status. -/
theorem asks_checkHealth (client : HttpClient) (answer : Message → σ → Option Response × σ)
    (s : σ) :
    client.Asks answer s healthRequest (client.perform answer checkHealth s).exchanges := by
  rw [(client.perform_of_transcript transcript_checkHealth.1).1]
  exact client.asks_execute healthRequest answer s

/-- Over HTTP a health check says what the status of the final response means, or that there was no
response. -/
theorem result_checkHealth (client : HttpClient) (answer : Message → σ → Option Response × σ)
    (s : σ) :
    let out := client.perform answer checkHealth s
    (final? client.names out.exchanges = none ∧
      ∃ source, out.result = .error (.noResponse "health check" source)) ∨
    ∃ a, final? client.names out.exchanges = some a ∧
      out.result = .ok (Health.ofStatus a.status) := by
  intro out
  let call := (client.execute healthRequest).run answer s
  obtain ⟨hx, hr⟩ : out.exchanges = call.exchanges ∧
      out.result = (statusOf call.result).map Health.ofStatus :=
    client.perform_of_transcript transcript_checkHealth.1
  rw [hx, hr]
  rcases client.execute_cases healthRequest answer s with ⟨hf, source, hreply⟩ | ⟨a, hf, hreply⟩
  · rw [hreply]
    exact .inl ⟨hf, source, rfl⟩
  · rw [hreply, statusOf_judge.2 rfl]
    exact .inr ⟨a, hf, rfl⟩

end HttpClient

/-- **The health check sees the status alone.** Over HTTP, whatever a server answers, it says what
the status of the final response means, whatever the body and however little of it arrived. It fails
exactly if there is no final response, and then for that reason. Two servers with the same final
status are the same to it. Its message goes out whenever the client can form it. With any executor
the status is that of the exchange, or the one that an error carries; any other error is its own. -/
theorem health_goes_by_status {τ : Type} (client : HttpClient)
    (answer : Message → σ → Option Response × σ) (s : σ)
    (execute : Request → τ → Reply × τ) (t : τ) :
    let out := client.perform answer checkHealth s
    let reply := (execute healthRequest t).1
    let told := healthCheck.run.run execute t
    client.Asks answer s healthRequest out.exchanges ∧
    (∀ a, final? client.names out.exchanges = some a →
      out.result = .ok (Health.ofStatus a.status)) ∧
    ((∃ e, out.result = .error e) ↔ final? client.names out.exchanges = none) ∧
    (∀ e, out.result = .error e → ∃ source, e = .noResponse "health check" source) ∧
    (∀ (σ' : Type) (client' : HttpClient) (answer' : Message → σ' → Option Response × σ') (s' : σ'),
      let out' := client'.perform answer' checkHealth s'
      ∀ a a', final? client.names out.exchanges = some a →
        final? client'.names out'.exchanges = some a' → a.status = a'.status →
        out.result = out'.result) ∧
    told.exchanges = [(healthRequest, reply)] ∧
    (∀ n, told.result = .ok n ↔
      (∃ x, reply = .ok x ∧ x.status = n) ∨ ∃ e, reply = .error e ∧ e.status? = some n) ∧
    ∀ e, told.result = .error e ↔ reply = .error e ∧ e.status? = none := by
  intro out reply told
  -- a final response decides, whoever gave it
  have hfinal {σ' : Type} {client' : HttpClient} {answer' : Message → σ' → Option Response × σ'}
      {s' : σ'} {a : Response}
      (ha : final? client'.names (client'.perform answer' checkHealth s').exchanges = some a) :
      (client'.perform answer' checkHealth s').result = .ok (Health.ofStatus a.status) := by
    rcases client'.result_checkHealth answer' s' with ⟨hn, -⟩ | ⟨a', ha', hr⟩
    · cases hn.symm.trans ha
    · obtain rfl : a' = a := Option.some.inj (ha'.symm.trans ha)
      exact hr
  obtain ⟨hx, hr⟩ := exchange_healthCheck execute t
  refine ⟨client.asks_checkHealth answer s, fun a ha => hfinal ha, ⟨?fails, ?silent⟩, ?named,
    ?servers, hx, ?status, ?error⟩
  case fails =>
    rintro ⟨e, he⟩
    rcases client.result_checkHealth answer s with ⟨hn, -⟩ | ⟨a, -, hok⟩
    · exact hn
    · cases he.symm.trans hok
  case silent =>
    intro hn
    rcases client.result_checkHealth answer s with ⟨-, source, herror⟩ | ⟨a, ha, -⟩
    · exact ⟨_, herror⟩
    · cases hn.symm.trans ha
  case named =>
    intro e he
    rcases client.result_checkHealth answer s with ⟨-, source, herror⟩ | ⟨a, -, hok⟩
    · exact ⟨source, Except.error.inj (he.symm.trans herror)⟩
    · cases he.symm.trans hok
  case servers =>
    intro σ' client' answer' s' out' a a' ha ha' hs
    rw [show out.result = _ from hfinal ha, show out'.result = _ from hfinal ha', hs]
  case status =>
    intro n
    rw [show told.result = statusOf reply from hr, statusOf_eq_ok_iff]
    cases reply <;> simp [Reply.status?]
  case error =>
    intro e
    rw [show told.result = statusOf reply from hr, statusOf_eq_error_iff]
    refine and_congr_right fun he => ?_
    rw [he]
    rfl

/-- A store whose answer is cut off is open all the same. -/
theorem active_of_cut_answer :
    let client : HttpClient := ⟨fun _ => none, "http://127.0.0.1:8200", none⟩
    let cut : Response := ⟨200, [], Bytes.ofString "\x7b\"initial", false⟩
    let out := client.perform (fun _ (n : Nat) => (some cut, n + 1)) checkHealth 0
    (∃ m, client.message healthRequest = .ok m ∧ out.exchanges.head? = some (m, some cut)) ∧
      final? client.names out.exchanges = some cut ∧ out.result = .ok .active := by
  intro client cut out
  obtain ⟨hasks, hok, -⟩ := health_goes_by_status client (fun _ (n : Nat) => (some cut, n + 1)) 0
    (fun _ (_ : Unit) => (.error (.setup ""), ())) ()
  obtain ⟨m, hm⟩ := client.exists_message healthRequest (by decide +kernel)
  have hfinal : final? client.names out.exchanges = some cut := by decide +kernel
  exact ⟨⟨m, hm, hasks m hm⟩, hfinal, hok cut hfinal⟩

end Net

end SecretStore
