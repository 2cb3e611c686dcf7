import SecretStore.Proofs.Operations

/-!
# The unseal protocol

Key shares are submitted one by one. A submission settles the sequence when it fails or when the
store reports that it is open; whether the progress has reached the threshold plays no part.

* `transcript_submitShares`: the loop stops with the first submission that settles it, or else runs
  out of shares.
* `foldl_advance_of_sealed`: what `UnsealProgress` holds after reports of a sealed store.
* `unsealWith_stops_at_first_settled`: the exchanges and the result of `Client.unsealWith`, in terms
  of what each share would be answered if all of them were submitted.
-/

namespace SecretStore

open Interaction

/-- The submission of a share that got this reply is the last one: it failed, or it opened the
store. -/
def Reply.Settles (r : Reply) : Prop :=
  ∀ report, r.sealStatus = .ok report → report.isSealed = false

theorem Reply.not_settles_iff {r : Reply} :
    ¬ r.Settles ↔ ∃ report, r.sealStatus = .ok report ∧ report.isSealed = true := by
  simp [Reply.Settles]

namespace UnsealProgress

theorem advance_sealed (p : UnsealProgress) {report : SealStatus} (h : report.isSealed = true) :
    p.advance report = sealed (p.applied + 1) report.progress report.threshold := by
  rw [advance, if_pos h]

theorem advance_unsealed (p : UnsealProgress) {report : SealStatus} (h : report.isSealed = false) :
    p.advance report = unsealed (p.applied + 1) report := by
  simp [advance, h]

/-- Reports of a sealed store are counted, and of what they say the last one holds. -/
theorem foldl_advance_of_sealed {reports : List SealStatus}
    (h : ∀ report ∈ reports, report.isSealed = true) (n : Nat) (progress threshold : UInt32) :
    reports.foldl advance (sealed n progress threshold) =
      sealed (n + reports.length) ((reports.getLast?.map (·.progress)).getD progress)
        ((reports.getLast?.map (·.threshold)).getD threshold) := by
  induction reports generalizing n progress threshold with
  | nil => rfl
  | cons report reports ih =>
    have hs : report.isSealed = true := h report List.mem_cons_self
    have hr : ∀ report ∈ reports, report.isSealed = true :=
      fun report hm => h report (List.mem_cons_of_mem _ hm)
    rw [List.foldl_cons, advance_sealed _ hs, ih hr, List.getLast?_cons, List.length_cons]
    cases reports.getLast? <;> simp [applied, Nat.add_comm, Nat.add_left_comm]

end UnsealProgress

namespace Client

variable {xs : List (Request × Reply)}

theorem transcript_submitShare_bind {key : String}
    {f : Except ClientError SealStatus → Operation SealStatus} {r : Except ClientError SealStatus} :
    (ExceptT.lift (submitShare key).run >>= f).run.Transcript xs r ↔
      ∃ (reply : Reply) (ys : _), xs = (unsealRequest key, reply) :: ys ∧
        (f reply.sealStatus).run.Transcript ys r := by
  simp only [transcript_except_lift_bind, transcript_submitShare]
  constructor
  · rintro ⟨_, ys, v, rfl, ⟨reply, rfl, rfl⟩, h⟩
    exact ⟨reply, ys, rfl, h⟩
  · rintro ⟨reply, ys, rfl, h⟩
    exact ⟨_, ys, _, rfl, ⟨reply, rfl, rfl⟩, h⟩

/-- One turn of the loop. -/
theorem transcript_submitShares_cons {total : Nat} {key : String} {keys : List String}
    {p : UnsealProgress} {r : Except ClientError SealStatus} :
    (submitShares total (key :: keys) p).run.Transcript xs r ↔
      ∃ (reply : Reply) (ys : _), xs = (unsealRequest key, reply) :: ys ∧
        match reply.sealStatus with
        | .error e => ys = [] ∧ r = .error e
        | .ok report =>
          if report.isSealed then (submitShares total keys (p.advance report)).run.Transcript ys r
          else ys = [] ∧ r = .ok report := by
  rw [submitShares, transcript_submitShare_bind]
  refine exists_congr fun reply => exists_congr fun ys => and_congr_right fun _ => ?_
  cases reply.sealStatus with
  | error e => rw [Operation.transcript_note_bind, Operation.transcript_ofExcept]
  | ok report =>
    rw [Operation.transcript_note_bind]
    cases hs : report.isSealed
    · rw [p.advance_unsealed hs, Operation.transcript_note_bind, transcript_except_pure]
      simp [hs]
    · simp [hs, p.advance_sealed hs]

/-- The loop stops with the first submission that settles it, or else runs out of shares. -/
theorem transcript_submitShares {total : Nat} {keys : List String} {p : UnsealProgress}
    {r : Except ClientError SealStatus} (h : (submitShares total keys p).run.Transcript xs r) :
    (∃ ys x, xs = ys ++ [x] ∧ xs.map Prod.fst <+: keys.map unsealRequest ∧
      (∀ y ∈ ys, ¬ y.2.Settles) ∧ x.2.Settles ∧ r = x.2.sealStatus) ∨
    ∃ reports : List SealStatus, xs.map Prod.fst = keys.map unsealRequest ∧
      xs.map (fun x => x.2.sealStatus) = reports.map .ok ∧
      (∀ report ∈ reports, report.isSealed = true) ∧
      r = .error (reports.foldl UnsealProgress.advance p).exhausted := by
  induction keys generalizing p xs with
  | nil =>
    obtain ⟨rfl, rfl⟩ := Operation.transcript_ofExcept.1 h
    exact .inr ⟨[], rfl, rfl, by simp, rfl⟩
  | cons key keys ih =>
    obtain ⟨reply, ys, rfl, hrest⟩ := transcript_submitShares_cons.1 h
    -- three ways on: the submission fails, it opens the store, or the loop takes another turn
    cases hv : reply.sealStatus with
    | error e =>
      simp only [hv] at hrest
      obtain ⟨rfl, rfl⟩ := hrest
      exact .inl ⟨[], (unsealRequest key, reply), rfl, by simp, by simp,
        by simp [Reply.Settles, hv], hv.symm⟩
    | ok report =>
      simp only [hv] at hrest
      cases hs : report.isSealed with
      | false =>
        simp only [hs, Bool.false_eq_true, if_false] at hrest
        obtain ⟨rfl, rfl⟩ := hrest
        exact .inl ⟨[], (unsealRequest key, reply), rfl, by simp, by simp,
          by simp [Reply.Settles, hv, hs], hv.symm⟩
      | true =>
        simp only [hs, if_true] at hrest
        have hns : ¬ reply.Settles := Reply.not_settles_iff.2 ⟨report, hv, hs⟩
        rcases ih hrest with ⟨zs, x, rfl, hp, hz, hx, rfl⟩ | ⟨reports, hk, hr, hall, rfl⟩
        · refine .inl ⟨(unsealRequest key, reply) :: zs, x, rfl, ?_, ?_, hx, rfl⟩
          · simpa using hp
          · simpa using ⟨hns, fun a b hm => hz (a, b) hm⟩
        · refine .inr ⟨report :: reports, by simpa using hk, by simp [hv, hr], ?_, rfl⟩
          simpa [hs] using hall

/-! ### Runs -/

variable {σ : Type}

/-- What each share would be answered if all of them were submitted in order. -/
def submissions (answer : Request → σ → Reply × σ) (keys : List String) (s : σ) :
    List (Request × Reply) :=
  recite answer (keys.map unsealRequest) s

theorem length_submissions (answer : Request → σ → Reply × σ) (keys : List String) (s : σ) :
    (submissions answer keys s).length = keys.length := by
  have h := congrArg List.length (map_fst_recite answer (keys.map unsealRequest) s)
  rwa [List.length_map, List.length_map] at h

/-- The submission at position `k` is the first that settles the sequence. -/
structure FirstSettled (sent : List (Request × Reply)) (k : Nat) (x : Request × Reply) : Prop where
  at_position : sent[k]? = some x
  settles : x.2.Settles
  first : ∀ j < k, ∀ y, sent[j]? = some y → ¬ y.2.Settles

theorem FirstSettled.unique {sent : List (Request × Reply)} {k k' : Nat} {x x' : Request × Reply}
    (h : FirstSettled sent k x) (h' : FirstSettled sent k' x') : k = k' ∧ x = x' := by
  have hk : k = k' := by
    rcases Nat.lt_trichotomy k k' with hlt | heq | hlt
    · exact absurd h.settles (h'.first k hlt x h.at_position)
    · exact heq
    · exact absurd h'.settles (h.first k' hlt x' h'.at_position)
  subst hk
  exact ⟨rfl, Option.some.inj (h.at_position.symm.trans h'.at_position)⟩

theorem FirstSettled.mem {sent : List (Request × Reply)} {k : Nat} {x : Request × Reply}
    (h : FirstSettled sent k x) : x ∈ sent :=
  List.mem_of_getElem? h.at_position

theorem firstSettled_of_take_eq {sent ys : List (Request × Reply)} {x : Request × Reply}
    (h : sent.take (ys.length + 1) = ys ++ [x]) (hx : x.2.Settles)
    (hy : ∀ y ∈ ys, ¬ y.2.Settles) : FirstSettled sent ys.length x where
  at_position := by
    rw [← List.getElem?_take_of_lt (Nat.lt_succ_self _), h]
    simp
  settles := hx
  first j hj y hjy := by
    have hlt : j < ys.length + 1 := Nat.lt_succ_of_lt hj
    rw [← List.getElem?_take_of_lt hlt, h, List.getElem?_append_left hj] at hjy
    exact hy y (List.mem_of_getElem? hjy)

/-- A run ends with the first submission that settles it, or else after all of them. -/
theorem run_unsealWith (answer : Request → σ → Reply × σ) (keys : List String) (s : σ) :
    let sent := submissions answer keys s
    let out := (unsealWith keys).run.run answer s
    (∃ k x, FirstSettled sent k x ∧ out.exchanges = sent.take (k + 1) ∧
      out.result = x.2.sealStatus) ∨
    ∃ reports : List SealStatus, sent.map (fun x => x.2.sealStatus) = reports.map .ok ∧
      (∀ report ∈ reports, report.isSealed = true) ∧ out.exchanges = sent ∧
      out.result = .error (reports.foldl UnsealProgress.advance .start).exhausted := by
  intro sent out
  have ht : (submitShares keys.length keys .start).run.Transcript out.exchanges out.result :=
    Operation.transcript_note_bind.1 (transcript_run answer (unsealWith keys).run s)
  have hout : out.exchanges = recite answer (out.exchanges.map Prod.fst) s :=
    exchanges_eq_recite answer _ s
  rcases transcript_submitShares ht with ⟨ys, x, hys, hp, hy, hx, hr⟩ |
    ⟨reports, hk, hrep, hall, hr⟩
  -- what was sent is a beginning of the submissions, and as long as the transcript
  · have htake : out.exchanges = sent.take (ys.length + 1) := by
      rw [List.prefix_iff_eq_take.1 hp, recite_take] at hout
      simpa [sent, submissions, hys] using hout
    exact .inl ⟨ys.length, x, firstSettled_of_take_eq (htake.symm.trans hys) hx hy, htake, hr⟩
  · have hsent : out.exchanges = sent := by rw [hout, hk]; rfl
    exact .inr ⟨reports, by rw [← hsent, hrep], hall, hsent, hr⟩

theorem not_settles_of_reports {sent : List (Request × Reply)} {reports : List SealStatus}
    (h : sent.map (fun x => x.2.sealStatus) = reports.map .ok)
    (hall : ∀ report ∈ reports, report.isSealed = true) : ∀ x ∈ sent, ¬ x.2.Settles := by
  intro x hx
  obtain ⟨report, hm, hr⟩ := List.mem_map.1 (h ▸ List.mem_map.2 ⟨x, hx, rfl⟩ :
    x.2.sealStatus ∈ reports.map Except.ok)
  exact Reply.not_settles_iff.2 ⟨report, hr.symm, hall report hm⟩

theorem run_unsealWith_of_firstSettled (answer : Request → σ → Reply × σ) (keys : List String)
    (s : σ) {k : Nat} {x : Request × Reply} (hk : FirstSettled (submissions answer keys s) k x) :
    let out := (unsealWith keys).run.run answer s
    out.exchanges = (submissions answer keys s).take (k + 1) ∧ out.result = x.2.sealStatus := by
  intro out
  rcases run_unsealWith answer keys s with ⟨k', x', hk', hx, hr⟩ | ⟨reports, hrep, hall, _⟩
  · obtain ⟨rfl, rfl⟩ := hk.unique hk'
    exact ⟨hx, hr⟩
  · exact absurd hk.settles (not_settles_of_reports hrep hall x hk.mem)

theorem run_unsealWith_of_not_settles (answer : Request → σ → Reply × σ) (keys : List String)
    (s : σ) (hns : ∀ x ∈ submissions answer keys s, ¬ x.2.Settles) :
    let out := (unsealWith keys).run.run answer s
    out.exchanges = submissions answer keys s ∧
      ∃ reports : List SealStatus,
        (submissions answer keys s).map (fun x => x.2.sealStatus) = reports.map .ok ∧
        out.result = .error (.thresholdNotReached keys.length
          ((reports.getLast?.map (·.progress)).getD 0)
          ((reports.getLast?.map (·.threshold)).getD 0)) := by
  intro out
  rcases run_unsealWith answer keys s with ⟨k, x, hk, _⟩ | ⟨reports, hrep, hall, hx, hr⟩
  · exact absurd hk.settles (hns x hk.mem)
  -- there is one report for each share
  have hlen : reports.length = keys.length := by
    have h := congrArg List.length hrep
    rw [List.length_map, List.length_map] at h
    rw [← h, length_submissions]
  rw [UnsealProgress.start, UnsealProgress.foldl_advance_of_sealed hall, hlen] at hr
  exact ⟨hx, reports, hrep, by simpa [UnsealProgress.exhausted] using hr⟩

/-- Only a report of an open store is a success. -/
theorem run_unsealWith_ok_iff (answer : Request → σ → Reply × σ) (keys : List String) (s : σ)
    (report : SealStatus) :
    ((unsealWith keys).run.run answer s).result = .ok report ↔
      ∃ k x, FirstSettled (submissions answer keys s) k x ∧ x.2.sealStatus = .ok report ∧
        report.isSealed = false := by
  rcases run_unsealWith answer keys s with ⟨k, x, hk, _, hr⟩ | ⟨reports, hrep, hall, _, hr⟩
  · rw [hr]
    constructor
    · intro h
      exact ⟨k, x, hk, h, hk.settles report h⟩
    · rintro ⟨k', x', hk', h, _⟩
      obtain ⟨rfl, rfl⟩ := hk.unique hk'
      exact h
  · rw [hr]
    constructor
    · intro h
      cases h
    · rintro ⟨k, x, hk, _⟩
      exact absurd hk.settles (not_settles_of_reports hrep hall x hk.mem)

/-- **The unseal protocol.** Let every share be submitted to the executor in order. Up to and
including the first submission that fails or opens the store, these are the exchanges of the
operation, and its result is what that submission gave. If there is none, they all are, and the
error counts the shares and tells the progress and threshold of the last report. -/
theorem unsealWith_stops_at_first_settled (answer : Request → σ → Reply × σ)
    (keys : List String) (s : σ) :
    let sent := submissions answer keys s
    let out := (unsealWith keys).run.run answer s
    sent.map Prod.fst = keys.map (fun key =>
      { token := none
        method := "POST"
        path := "/v1/sys/unseal"
        body := .json (.object [("key", .string key)])
        operation := "unseal secret store"
        expectedStatus := 200 }) ∧
    (∀ k x, FirstSettled sent k x →
      out.exchanges = sent.take (k + 1) ∧ out.result = x.2.sealStatus) ∧
    ((∀ x ∈ sent, ¬ x.2.Settles) →
      out.exchanges = sent ∧
      ∃ reports : List SealStatus, sent.map (fun x => x.2.sealStatus) = reports.map .ok ∧
        out.result = .error (.thresholdNotReached keys.length
          ((reports.getLast?.map (·.progress)).getD 0)
          ((reports.getLast?.map (·.threshold)).getD 0))) ∧
    (∀ report, out.result = .ok report ↔
      ∃ k x, FirstSettled sent k x ∧ x.2.sealStatus = .ok report ∧ report.isSealed = false) := by
  intro sent out
  refine ⟨map_fst_recite answer _ s, ?_, ?_, ?_⟩
  · intro k x hk
    exact run_unsealWith_of_firstSettled answer keys s hk
  · intro hns
    exact run_unsealWith_of_not_settles answer keys s hns
  · intro report
    exact run_unsealWith_ok_iff answer keys s report

end Client

end SecretStore
