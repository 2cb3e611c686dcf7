import Mathlib.Data.List.Basic
import SecretStore.Proofs.Unsealing

/-!
# Unsealing with further shares

A list of key shares can be submitted in parts. If the first part settles the sequence, shares that
are appended to it have no effect; if it leaves the store sealed, the longer list does what the
first part and then the rest do, from the state that the first part leaves behind.

* `recite_append`: questions in a row are answered part by part.
* `FirstSettled.append_left`, `FirstSettled.append_right`: where the first submission that settles
  stands in a longer list.
* `unsealWith_append`: the requests, the result and the state of the longer list.
-/

namespace SecretStore

open Interaction

/-! ### Questions in a row -/

theorem Interaction.recite_append {Q A σ : Type} (answer : Q → σ → A × σ) (qs rs : List Q) (s : σ) :
    recite answer (qs ++ rs) s =
      recite answer qs s ++ recite answer rs (qs.foldl (fun s q => (answer q s).2) s) := by
  induction qs generalizing s with
  | nil => rfl
  | cons q qs ih => simp [recite, ih]

/-! ### An executor that leaves counting to the operation -/

/-- A result that says that the shares ran out. -/
def RanOut (r : Except ClientError α) : Prop :=
  ∃ applied progress threshold, r = .error (.thresholdNotReached applied progress threshold)

/-- From a state on, an executor never answers that shares ran out, whatever it is asked. -/
def NeverRunsOut (answer : Request → σ → Reply × σ) (s : σ) : Prop :=
  ∀ qs, ∀ x ∈ recite answer qs s, ¬ RanOut x.2

/-- Reading a reply adds no such result. -/
theorem Reply.not_ranOut_sealStatus {r : Reply} (h : ¬ RanOut r) : ¬ RanOut r.sealStatus := by
  rintro ⟨n, progress, threshold, hr⟩
  cases r with
  | error e =>
    obtain rfl : e = _ := Except.error.inj hr
    exact h ⟨n, progress, threshold, rfl⟩
  | ok x =>
    simp only [Reply.sealStatus, Reply.decode, Exchange.decode] at hr
    split at hr <;> simp at hr

/-- What never runs out does not run out after some questions either. -/
theorem NeverRunsOut.foldl {σ : Type} {answer : Request → σ → Reply × σ} {s : σ}
    (h : NeverRunsOut answer s) (qs : List Request) :
    NeverRunsOut answer (qs.foldl (fun s q => (answer q s).2) s) := by
  intro rs x hx
  refine h (qs ++ rs) x ?_
  rw [recite_append]
  exact List.mem_append_right _ hx

namespace Client

variable {σ : Type} {answer : Request → σ → Reply × σ} {s : σ} {keys : List String}

/-! ### Where a longer list is settled -/

section Positions

variable {sent more : List (Request × Reply)} {k : Nat} {x : Request × Reply}

theorem FirstSettled.lt_length (h : FirstSettled sent k x) : k < sent.length :=
  (List.getElem?_eq_some_iff.1 h.at_position).1

/-- Submissions behind the one that settles change nothing. -/
theorem FirstSettled.append_left (h : FirstSettled sent k x) (more : List (Request × Reply)) :
    FirstSettled (sent ++ more) k x where
  at_position := by rw [List.getElem?_append_left h.lt_length, h.at_position]
  settles := h.settles
  first j hj y hy := by
    rw [List.getElem?_append_left (by have := h.lt_length; omega)] at hy
    exact h.first j hj y hy

/-- Submissions that settle nothing only move the one that does. -/
theorem FirstSettled.append_right (h : FirstSettled more k x) (hn : ∀ y ∈ sent, ¬ y.2.Settles) :
    FirstSettled (sent ++ more) (sent.length + k) x where
  at_position := by
    rw [List.getElem?_append_right (by omega), Nat.add_sub_cancel_left, h.at_position]
  settles := h.settles
  first j hj y hy := by
    by_cases hlt : j < sent.length
    · rw [List.getElem?_append_left hlt] at hy
      exact hn y (List.mem_of_getElem? hy)
    · rw [List.getElem?_append_right (by omega)] at hy
      exact h.first (j - sent.length) (by omega) y hy

end Positions

/-! ### Runs -/

/-- The state behind the submission of all shares. -/
def stateAfter (answer : Request → σ → Reply × σ) (keys : List String) (s : σ) : σ :=
  (keys.map unsealRequest).foldl (fun s q => (answer q s).2) s

theorem submissions_append (answer : Request → σ → Reply × σ) (ks ls : List String) (s : σ) :
    submissions answer (ks ++ ls) s =
      submissions answer ks s ++ submissions answer ls (stateAfter answer ks s) := by
  rw [submissions, List.map_append, recite_append]
  rfl

/-- A run that is settled by a submission has not run out of shares. -/
theorem not_ranOut_of_firstSettled (h : NeverRunsOut answer s) {k : Nat} {x : Request × Reply}
    (hk : FirstSettled (submissions answer keys s) k x) :
    ¬ RanOut ((unsealWith keys).run.run answer s).result := by
  rw [(run_unsealWith_of_firstSettled answer keys s hk).2]
  exact Reply.not_ranOut_sealStatus (h _ x hk.mem)

/-- A run ends in one of two ways: a submission settles it, or the shares run out. -/
theorem firstSettled_or_ranOut (answer : Request → σ → Reply × σ) (keys : List String) (s : σ) :
    (∃ k x, FirstSettled (submissions answer keys s) k x) ∨
      ∀ x ∈ submissions answer keys s, ¬ x.2.Settles := by
  rcases run_unsealWith answer keys s with ⟨k, x, hk, -⟩ | ⟨reports, hrep, hall, -⟩
  · exact .inl ⟨k, x, hk⟩
  · exact .inr (not_settles_of_reports hrep hall)

/-- A run that runs out of shares has submitted all of them. -/
theorem not_settles_of_ranOut (h : NeverRunsOut answer s)
    (hr : RanOut ((unsealWith keys).run.run answer s).result) :
    ∀ x ∈ submissions answer keys s, ¬ x.2.Settles := by
  rcases firstSettled_or_ranOut answer keys s with ⟨k, x, hk⟩ | hn
  · exact absurd hr (not_ranOut_of_firstSettled h hk)
  · exact hn

theorem state_of_not_settles (hn : ∀ x ∈ submissions answer keys s, ¬ x.2.Settles) :
    ((unsealWith keys).run.run answer s).state = stateAfter answer keys s := by
  rw [state_eq_foldl, (run_unsealWith_of_not_settles answer keys s hn).1, submissions,
    map_fst_recite, stateAfter]

/-- Shares behind those that settle a run have no effect. -/
theorem run_append_of_firstSettled (ls : List String) {k : Nat} {x : Request × Reply}
    (hk : FirstSettled (submissions answer keys s) k x) :
    let first := (unsealWith keys).run.run answer s
    let both := (unsealWith (keys ++ ls)).run.run answer s
    both.exchanges = first.exchanges ∧ both.result = first.result ∧ both.state = first.state := by
  intro first both
  obtain ⟨hx, hr⟩ := run_unsealWith_of_firstSettled answer keys s hk
  have hk' : FirstSettled (submissions answer (keys ++ ls) s) k x := by
    rw [submissions_append]
    exact hk.append_left _
  obtain ⟨hx', hr'⟩ := run_unsealWith_of_firstSettled answer (keys ++ ls) s hk'
  have hexchanges : both.exchanges = first.exchanges := by
    have hlt := hk.lt_length
    rw [hx, hx', submissions_append, List.take_append_of_le_length (by omega)]
  refine ⟨hexchanges, hr'.trans hr.symm, ?_⟩
  rw [state_eq_foldl, state_eq_foldl, hexchanges]

/-- Behind shares that settle nothing, a run goes on as one of the other shares alone, until it
settles. -/
theorem run_append_of_settled_later {ks ls : List String}
    (hn : ∀ x ∈ submissions answer ks s, ¬ x.2.Settles) {k : Nat} {x : Request × Reply}
    (hk : FirstSettled (submissions answer ls (stateAfter answer ks s)) k x) :
    let second := (unsealWith ls).run.run answer (stateAfter answer ks s)
    let both := (unsealWith (ks ++ ls)).run.run answer s
    both.exchanges = submissions answer ks s ++ second.exchanges ∧
      both.result = second.result := by
  intro second both
  obtain ⟨hx, hr⟩ := run_unsealWith_of_firstSettled answer ls _ hk
  have hk' : FirstSettled (submissions answer (ks ++ ls) s)
      ((submissions answer ks s).length + k) x := by
    rw [submissions_append]
    exact hk.append_right hn
  obtain ⟨hx', hr'⟩ := run_unsealWith_of_firstSettled answer (ks ++ ls) s hk'
  refine ⟨?_, hr'.trans hr.symm⟩
  rw [hx, hx', submissions_append, Nat.add_assoc, List.take_length_add_append]

/-- The progress that a list of shares ends with is that of its last part, unless that is empty. -/
theorem getD_getLast?_append {β γ : Type} (f : β → γ) (xs ys : List β) (d : γ) :
    (((xs ++ ys).getLast?.map f).getD d) =
      if ys = [] then (xs.getLast?.map f).getD d else (ys.getLast?.map f).getD d := by
  cases ys with
  | nil => simp
  | cons y ys => simp [List.getLast?_append, List.getLast?_cons]

/-- When none of the shares settles anything, all of them are submitted and counted. -/
theorem run_append_of_never_settled {ks ls : List String}
    (hn : ∀ x ∈ submissions answer ks s, ¬ x.2.Settles)
    (hn' : ∀ x ∈ submissions answer ls (stateAfter answer ks s), ¬ x.2.Settles)
    {n n' : Nat} {p t p' t' : UInt32}
    (hfirst : ((unsealWith ks).run.run answer s).result = .error (.thresholdNotReached n p t))
    (hsecond : ((unsealWith ls).run.run answer (stateAfter answer ks s)).result =
      .error (.thresholdNotReached n' p' t')) :
    let both := (unsealWith (ks ++ ls)).run.run answer s
    both.exchanges = submissions answer ks s ++
        submissions answer ls (stateAfter answer ks s) ∧
      both.result = .error (.thresholdNotReached (ks.length + ls.length)
        (if ls = [] then p else p') (if ls = [] then t else t')) := by
  intro both
  have hall : ∀ x ∈ submissions answer (ks ++ ls) s, ¬ x.2.Settles := by
    rw [submissions_append]
    exact List.forall_mem_append.2 ⟨hn, hn'⟩
  obtain ⟨-, reports, hrep, hr⟩ := run_unsealWith_of_not_settles answer ks s hn
  obtain ⟨-, reports', hrep', hr'⟩ := run_unsealWith_of_not_settles answer ls _ hn'
  obtain ⟨hx, all, hrepAll, hrAll⟩ := run_unsealWith_of_not_settles answer (ks ++ ls) s hall
  -- the reports of the longer list are those of its parts
  have happend : all = reports ++ reports' := by
    rw [submissions_append, List.map_append, hrep, hrep', ← List.map_append] at hrepAll
    exact ((List.map_inj_right fun _ _ => Except.ok.inj).1 hrepAll).symm
  have hempty : reports' = [] ↔ ls = [] := by
    have hlen := congrArg List.length hrep'
    simp only [List.length_map, length_submissions] at hlen
    rw [← List.length_eq_zero_iff, ← List.length_eq_zero_iff, hlen]
  refine ⟨hx.trans (submissions_append ..), ?_⟩
  rw [hfirst] at hr
  rw [hsecond] at hr'
  simp only [Except.error.injEq, ClientError.thresholdNotReached.injEq] at hr hr'
  obtain ⟨-, rfl, rfl⟩ := hr
  obtain ⟨-, rfl, rfl⟩ := hr'
  show both.result = _
  rw [hrAll, happend, getD_getLast?_append, getD_getLast?_append, List.length_append]
  simp only [hempty]

/-- **Unsealing composes.** Let an executor never answer of its own accord that shares ran out. If
some shares end a run in another way than by running out, appended shares have no effect. If they do
run out, the longer list sends the requests of both parts, the second from the state that the first
leaves behind, and it ends as the second part does; only that, when the second part runs out too,
all shares are counted, and an empty second part has nothing to say about the progress. -/
theorem unsealWith_append (answer : Request → σ → Reply × σ) (ks ls : List String) (s : σ)
    (h : NeverRunsOut answer s) :
    let first := (unsealWith ks).run.run answer s
    let second := (unsealWith ls).run.run answer first.state
    let both := (unsealWith (ks ++ ls)).run.run answer s
    (¬ RanOut first.result →
      both.exchanges = first.exchanges ∧ both.result = first.result ∧
        both.state = first.state) ∧
    ∀ n p t, first.result = .error (.thresholdNotReached n p t) →
      both.exchanges = first.exchanges ++ second.exchanges ∧ both.state = second.state ∧
      (¬ RanOut second.result → both.result = second.result) ∧
      ∀ n' p' t', second.result = .error (.thresholdNotReached n' p' t') →
        both.result = .error (.thresholdNotReached (ks.length + ls.length)
          (if ls = [] then p else p') (if ls = [] then t else t')) := by
  intro first second both
  constructor
  · intro hr
    rcases firstSettled_or_ranOut answer ks s with ⟨k, x, hk⟩ | hn
    · exact run_append_of_firstSettled ls hk
    · obtain ⟨-, reports, -, hout⟩ := run_unsealWith_of_not_settles answer ks s hn
      exact absurd ⟨_, _, _, hout⟩ hr
  · intro n p t hfirst
    have hn := not_settles_of_ranOut h ⟨n, p, t, hfirst⟩
    have hstate : first.state = stateAfter answer ks s := state_of_not_settles hn
    have hsent : first.exchanges = submissions answer ks s :=
      (run_unsealWith_of_not_settles answer ks s hn).1
    have hlater : NeverRunsOut answer first.state := by
      rw [hstate]
      exact h.foldl _
    -- the longer list takes the state of the first part through the requests of the second
    have hthrough (hx : both.exchanges = first.exchanges ++ second.exchanges) :
        both.state = second.state := by
      rw [state_eq_foldl, hx, List.map_append, List.foldl_append, ← state_eq_foldl,
        ← state_eq_foldl]
    rcases firstSettled_or_ranOut answer ls first.state with ⟨k, x, hk⟩ | hn'
    · have hnot := not_ranOut_of_firstSettled hlater hk
      rw [hstate] at hk
      obtain ⟨hx, hr⟩ := run_append_of_settled_later hn hk
      rw [← hsent, ← hstate] at hx
      rw [← hstate] at hr
      refine ⟨hx, hthrough hx, fun _ => hr, fun n' p' t' hsecond => ?_⟩
      exact absurd ⟨n', p', t', hsecond⟩ hnot
    · obtain ⟨hx', reports, -, hout⟩ := run_unsealWith_of_not_settles answer ls first.state hn'
      rw [hstate] at hn'
      have hboth (n' p' t') (hsecond : second.result = .error (.thresholdNotReached n' p' t')) :=
        run_append_of_never_settled hn hn' hfirst (by rw [← hstate]; exact hsecond)
      have hx : both.exchanges = first.exchanges ++ second.exchanges := by
        rw [(hboth _ _ _ hout).1, ← hsent, ← hstate, ← hx']
      refine ⟨hx, hthrough hx, fun hnot => absurd ⟨_, _, _, hout⟩ hnot, fun n' p' t' hsecond => ?_⟩
      exact (hboth n' p' t' hsecond).2

/-- A store that counts the shares and opens with the third one. -/
def countingStore (r : Request) (n : Nat) : Reply × Nat :=
  (.ok ⟨r.operation, 200, .ofString (match n with
    | 0 => "\x7b\"sealed\":true,\"t\":3,\"progress\":1\x7d"
    | 1 => "\x7b\"sealed\":true,\"t\":3,\"progress\":2\x7d"
    | _ => "\x7b\"sealed\":false,\"t\":3\x7d")⟩, n + 1)

theorem neverRunsOut_countingStore (n : Nat) : NeverRunsOut countingStore n := by
  intro qs
  induction qs generalizing n with
  | nil => simp [recite]
  | cons q qs ih =>
    simp only [recite, List.forall_mem_cons]
    exact ⟨by simp [RanOut, countingStore], ih (n + 1)⟩

theorem unsealWith_append_of_counting :
    let first := (unsealWith ["a", "b"]).run.run countingStore 0
    let both := (unsealWith ["a", "b", "c", "d"]).run.run countingStore 0
    first.result = .error (.thresholdNotReached 2 2 3) ∧ both.result = .ok ⟨false, 3, 0, 0⟩ ∧
      both.exchanges = first.exchanges ++
        ((unsealWith ["c", "d"]).run.run countingStore first.state).exchanges := by
  intro first both
  have hfirst : first.result = .error (.thresholdNotReached 2 2 3) := by decide +kernel
  have hstate : first.state = 2 := by decide +kernel
  have hsecond : ((unsealWith ["c", "d"]).run.run countingStore 2).result =
      .ok ⟨false, 3, 0, 0⟩ := by decide +kernel
  obtain ⟨hx, -, hr, -⟩ := (unsealWith_append countingStore ["a", "b"] ["c", "d"] 0
    (neverRunsOut_countingStore 0)).2 2 2 3 hfirst
  rw [show (unsealWith ["a", "b"]).run.run countingStore 0 = first from rfl, hstate, hsecond] at hr
  exact ⟨hfirst, hr (by simp [RanOut]), hx⟩

end Client

end SecretStore
