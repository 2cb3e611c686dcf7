import SecretStore.Proofs.Json.Grammar
import SecretStore.Proofs.StatusGate

/-!
# Bodies of unexpected responses

A final response with another status than the declared one is an error, whatever its body is. The
body adds texts to the message of the error and nothing else: it changes neither the status that is
reported nor the kind of the failure. `ErrorsArray` says what has to stand in a body for this, and
`Reports` which texts are added.

* `errorsArray_iff`: the array is the one that is found in the document of the body.
* `mismatch_reported`: the error of a response with an unexpected status, and its failure.
-/

namespace SecretStore

open Json Interaction

namespace Json.Value

/-- A name is looked up from the end. -/
theorem lookup_eq_some_iff {α : Type} {ms : List (String × α)} {name : String} {v : α} :
    lookup ms name = some v ↔
      ∃ before after, ms = before ++ (name, v) :: after ∧ ∀ m ∈ after, m.1 ≠ name := by
  unfold lookup
  simp only [Option.map_eq_some_iff, List.find?_eq_some_iff_append, beq_iff_eq]
  constructor
  · rintro ⟨m, ⟨rfl, after, before, hms, hafter⟩, rfl⟩
    refine ⟨before.reverse, after.reverse, ?_, by simpa using hafter⟩
    rw [← List.reverse_reverse ms, hms]
    simp
  · rintro ⟨before, after, rfl, hafter⟩
    exact ⟨(name, v), ⟨rfl, after.reverse, before.reverse, by simp, by simpa using hafter⟩, rfl⟩

end Json.Value

namespace ClientError

theorem message_unexpectedStatus (operation : String) (expected actual : UInt16)
    (errors : List String) :
    (unexpectedStatus operation expected actual errors).message =
      operation ++ " failed: expected HTTP status " ++ toString expected ++ ", got " ++
        toString actual ++ reported errors := by
  show operation ++ (" failed: expected HTTP status " ++ toString expected ++ ", got " ++
    toString actual) ++ reported errors = _
  simp only [String.append_assoc]

theorem reported_of_ne_nil {errors : List String} (h : errors ≠ []) :
    reported errors = " (" ++ String.intercalate ", " errors ++ ")" := by
  cases errors with
  | nil => exact absurd rfl h
  | cons text rest => rfl

end ClientError

namespace Net

/-- A body is the text of an object with this array under `errors`, the last member of that name if
there are several. As in every document, brackets nest less than 128 deep. -/
def ErrorsArray (vs : List Value) (body : Bytes) : Prop :=
  ∃ before after, IsText (.object (before ++ ("errors", .array vs) :: after)) body ∧
    (Value.object (before ++ ("errors", .array vs) :: after)).height < 128 ∧
    ∀ m ∈ after, m.1 ≠ "errors"

/-- The texts that a response reports, given its content if it arrived to its end. -/
structure Reports (content : Option Bytes) (errors : List String) : Prop where
  /-- Of the items of the array the texts are taken, in their order. -/
  listed : ∀ body vs, content = some body → ErrorsArray vs body →
    errors = vs.filterMap Value.text?
  /-- Anything else in the place of the body reports nothing. -/
  unlisted : (∀ body vs, content = some body → ¬ErrorsArray vs body) → errors = []

theorem errorsArray_iff {vs : List Value} {body : Bytes} :
    ErrorsArray vs body ↔
      ∃ v, Value.parse body = .ok v ∧ v.member? "errors" = some (.array vs) := by
  constructor
  · rintro ⟨before, after, htext, hheight, hafter⟩
    exact ⟨_, parse_eq_ok_iff.2 ⟨htext, hheight⟩,
      Value.lookup_eq_some_iff.2 ⟨before, after, rfl, hafter⟩⟩
  · rintro ⟨v, hv, hmember⟩
    cases v with
    | object ms =>
      obtain ⟨before, after, rfl, hafter⟩ := Value.lookup_eq_some_iff.1 hmember
      obtain ⟨htext, hheight⟩ := parse_eq_ok_iff.1 hv
      exact ⟨before, after, htext, hheight, hafter⟩
    | null | bool | number | string | array => cases hmember

namespace HttpClient

theorem texts_eq_filterMap (vs : List Value) : texts vs = vs.filterMap Value.text? := by
  induction vs with
  | nil => rfl
  | cons v vs ih =>
    cases v with
    | string s => exact congrArg (s :: ·) ih
    | null | bool | number | array | object => exact ih

/-- What is reported of a content, be it a document or not. -/
theorem reports_reportedErrors (content : Option Bytes) :
    Reports content (reportedErrors content) where
  listed body vs hc harray := by
    obtain ⟨v, hv, hmember⟩ := errorsArray_iff.1 harray
    simp only [reportedErrors, hc, hv, hmember, texts_eq_filterMap]
  unlisted hnone := by
    cases content with
    | none => rfl
    | some body =>
      rw [reportedErrors]
      split
      · rfl
      · next v hv =>
        split
        · next vs hmember => exact absurd (errorsArray_iff.2 ⟨v, hv, hmember⟩) (hnone body vs rfl)
        · rfl

/-- A final response with another status than the declared one is an error with both of them and
the texts that its body reports. The kind of the failure goes by the status alone, and the message
ends with the texts in parentheses if there are any. -/
theorem mismatch_reported {σ : Type} (client : HttpClient) (q : Request)
    (answer : Message → σ → Option Response × σ) (s : σ) (a : Response)
    (ha : final? client.names ((client.execute q).run answer s).exchanges = some a)
    (hs : a.status ≠ q.expectedStatus) :
    ∃ errors, Reports (a.content? q.method) errors ∧
      let e : ClientError := .unexpectedStatus q.operation q.expectedStatus a.status errors
      let statuses := q.operation ++ " failed: expected HTTP status " ++
        toString q.expectedStatus ++ ", got " ++ toString a.status
      ((client.execute q).run answer s).result = .error e ∧
      e.toFailure.kind =
        (if a.status = 401 ∨ a.status = 403 then .forbidden
        else if a.status = 404 then .notFound
        else .externalService) ∧
      (errors = [] → e.toFailure.message = statuses) ∧
      (errors ≠ [] →
        e.toFailure.message = statuses ++ " (" ++ String.intercalate ", " errors ++ ")") := by
  refine ⟨reportedErrors (a.content? q.method), reports_reportedErrors _, ?result, ?kind,
    ?none, ?some⟩
  case result =>
    rcases client.execute_cases q answer s with ⟨hnone, -⟩ | ⟨a', ha', hr⟩
    · cases ha.symm.trans hnone
    · cases ha.symm.trans ha'
      rw [hr, judge]
      exact if_pos hs
  case kind =>
    show ClientError.kindOfStatus a.status = _
    rw [ClientError.kindOfStatus]
  case none =>
    intro herrors
    rw [ClientError.toFailure, ClientError.message_unexpectedStatus, herrors]
    exact String.append_empty
  case some =>
    intro herrors
    rw [ClientError.toFailure, ClientError.message_unexpectedStatus,
      ClientError.reported_of_ne_nil herrors]
    simp only [String.append_assoc]

/-- The errors of a server, of which one is a text. -/
def reasons : List Value := [.string "permission denied", .number (.unsigned 5)]

/-- A body with these errors and an earlier member of that name. -/
def refusal : Bytes :=
  Bytes.ofString (Value.object [("errors", .null), ("errors", .array reasons)]).compact

theorem errorsArray_refusal : ErrorsArray reasons refusal := by
  have hreasons : Printable 1 (.array reasons) := by
    refine .array ?_
    simp only [reasons, List.forall_mem_cons, List.not_mem_nil, false_implies, implies_true,
      and_true]
    exact ⟨.string _, .number (by decide)⟩
  have hprintable : Printable 2 (.object [("errors", .null), ("errors", .array reasons)]) := by
    refine .object ?_
    simp only [List.forall_mem_cons, List.not_mem_nil, false_implies, implies_true, and_true]
    exact ⟨.null, hreasons⟩
  exact errorsArray_iff.2 ⟨_, parse_compact hprintable (by decide),
    Value.lookup_eq_some_iff.2 ⟨[("errors", .null)], [], rfl, nofun⟩⟩

/-- A server that refuses everything. -/
def refusing (_ : Message) (_ : Unit) : Option Response × Unit :=
  (some ⟨403, [], refusal, true⟩, ())

theorem mismatch_reported_of_refused :
    let client : HttpClient := ⟨fun _ => none, "http://127.0.0.1:8200", none⟩
    let out := (client.execute (Client.unsealRequest "c2hhcmU=")).run refusing ()
    ∃ e, out.result = .error e ∧ e.toFailure.kind = .forbidden ∧
      e.toFailure.message =
        "unseal secret store failed: expected HTTP status 200, got 403 (permission denied)" := by
  intro client out
  have hfinal : final? client.names out.exchanges = some ⟨403, [], refusal, true⟩ := by
    decide +kernel
  obtain ⟨errors, hreports, hresult, hkind, -, hmessage⟩ :=
    mismatch_reported client (Client.unsealRequest "c2hhcmU=") refusing () _ hfinal (by decide)
  obtain rfl := hreports.listed refusal _ rfl errorsArray_refusal
  exact ⟨_, hresult, hkind, (hmessage (by decide)).trans (by decide)⟩

end HttpClient

end Net

end SecretStore
