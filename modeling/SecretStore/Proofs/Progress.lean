import Mathlib.Data.List.Induction
import Mathlib.Data.List.Infix
import SecretStore.Proofs.Resuming

/-!
# Progress of unsealing

`UnsealProgress` is a state machine that takes one report after another and may leave its open state
again; the loop over the key shares is a procedure that sends requests and stops early. The loop
follows the machine: it goes on as long as the machine is sealed, and ends with what the machine
holds.

* `after_concat`, `applied_after`: the machine holds the last report, and how many there were.
* `isSealed_prefixes_iff`: it is sealed all the way exactly if every report says so.
* `submitSharesOr_congr`: what is said of an open machine that runs out of shares makes no
  difference, as the loop never gets there.
* `shares_submitShares`: the log numbers the shares that are sent.
* `unsealWith_follows_progress`: the loop and the machine.
-/

namespace SecretStore

open Interaction

namespace UnsealProgress

/-- The store was still sealed at the last report, or there was none. -/
def IsSealed (p : UnsealProgress) : Prop :=
  ∃ applied progress threshold, p = sealed applied progress threshold

/-- Where a sequence of key shares stands after these reports. -/
def after (reports : List SealStatus) : UnsealProgress := reports.foldl advance start

variable {reports : List SealStatus} {report : SealStatus}

theorem applied_advance (p : UnsealProgress) (report : SealStatus) :
    (p.advance report).applied = p.applied + 1 := by
  unfold advance
  split <;> rfl

theorem after_append_singleton (reports : List SealStatus) (report : SealStatus) :
    after (reports ++ [report]) = (after reports).advance report := by
  simp [after, List.foldl_append]

/-- As many shares have been applied as there are reports. -/
theorem applied_after (reports : List SealStatus) : (after reports).applied = reports.length := by
  induction reports using List.reverseRecOn with
  | nil => rfl
  | append_singleton reports report ih =>
    rw [after_append_singleton, applied_advance, ih, List.length_append, List.length_singleton]

/-- Of the reports the last one alone counts, whether the store had been open before or not. -/
theorem after_concat (reports : List SealStatus) (report : SealStatus) :
    after (reports ++ [report]) =
      if report.isSealed then sealed (reports.length + 1) report.progress report.threshold
      else unsealed (reports.length + 1) report := by
  rw [after_append_singleton, advance, applied_after]

theorem isSealed_start : start.IsSealed := ⟨0, 0, 0, rfl⟩

theorem isSealed_concat_iff :
    (after (reports ++ [report])).IsSealed ↔ report.isSealed = true := by
  rw [after_concat]
  by_cases h : report.isSealed = true
  · simp [h, IsSealed]
  · simp [h, IsSealed]

/-- All the way means after every first part of the reports, the empty one and all of them
included. -/
theorem isSealed_prefixes_iff :
    (∀ ps, ps <+: reports → (after ps).IsSealed) ↔ ∀ report ∈ reports, report.isSealed = true := by
  induction reports using List.reverseRecOn with
  | nil =>
    constructor
    · exact fun _ => nofun
    · intro _ ps hps
      rw [List.prefix_nil.1 hps]
      exact isSealed_start
  | append_singleton reports report ih =>
    -- a first part is a shorter one or all of them
    have hlast : (∀ ps, ps <+: reports ++ [report] → (after ps).IsSealed) ↔
        (after (reports ++ [report])).IsSealed ∧ ∀ ps, ps <+: reports → (after ps).IsSealed := by
      constructor
      · intro h
        exact ⟨h _ List.prefix_rfl, fun ps hps => h ps (hps.trans (List.prefix_append _ _))⟩
      · rintro ⟨hall, h⟩ ps hps
        rcases List.prefix_concat_iff.1 hps with rfl | hps
        · exact hall
        · exact h ps hps
    rw [hlast, ih, isSealed_concat_iff]
    simp [or_imp, forall_and, and_comm]

/-- The same before the last report. -/
theorem isSealed_shorter_iff :
    (∀ ps, ps <+: reports ++ [report] → ps ≠ reports ++ [report] → (after ps).IsSealed) ↔
      ∀ report ∈ reports, report.isSealed = true := by
  rw [← isSealed_prefixes_iff]
  constructor
  · intro h ps hps
    apply h ps (hps.trans (List.prefix_append _ _))
    intro heq
    have hlen := hps.length_le
    rw [heq, List.length_append, List.length_singleton] at hlen
    omega
  · intro h ps hps hne
    exact h ps ((List.prefix_concat_iff.1 hps).resolve_left hne)

end UnsealProgress

/-- The number of a share that the log tells of, and how many there are. -/
def Log.Event.share? : Log.Event → Option (Nat × Nat)
  | shareApplied share total => some (share, total)
  | shareFailed share total _ => some (share, total)
  | _ => none

namespace Client

open UnsealProgress

variable {σ : Type}

/-! ### One turn of the loop -/

/-- One turn of the loop over the shares, which goes on as `next` from where it gets. -/
def turn (total : Nat) (key : String) (p : UnsealProgress)
    (next : UnsealProgress → Operation SealStatus) : Operation SealStatus := do
  let share := p.applied + 1
  let reply ← ExceptT.lift (submitShare key).run
  match reply with
  | .error e =>
    Operation.note (.shareFailed share total e)
    Operation.ofExcept (.error e)
  | .ok report =>
    Operation.note (.shareApplied share total)
    match p.advance report with
    | .unsealed _ report =>
      Operation.note .unsealFinished
      pure report
    | further => next further

theorem submitShares_cons (total : Nat) (key : String) (keys : List String) (p : UnsealProgress) :
    submitShares total (key :: keys) p = turn total key p (submitShares total keys) := rfl

theorem run_submitShare (key : String) :
    (submitShare key).run = ask (unsealRequest key) fun reply => done (Reply.sealStatus reply) := by
  show ask (unsealRequest key) _ = _
  congr 1
  funext reply
  cases reply <;> rfl

theorem run_lift_bind {α β : Type} (t : Dialogue α) (f : α → Operation β) :
    (ExceptT.lift t >>= f).run = t.bind fun a => (f a).run := by
  show (t.bind fun a => done (Except.ok a)).bind _ = _
  rw [Interaction.bind_assoc]
  rfl

/-- A turn asks once, notes what came of it, and ends or goes on with a sealed machine. -/
theorem run_turn (total : Nat) (key : String) (p : UnsealProgress)
    (next : UnsealProgress → Operation SealStatus) :
    (turn total key p next).run = ask (unsealRequest key) fun reply =>
      match Reply.sealStatus reply with
      | .error e => note (.shareFailed (p.applied + 1) total e) (done (.error e))
      | .ok report =>
        note (.shareApplied (p.applied + 1) total) <|
          if report.isSealed then (next (p.advance report)).run
          else note .unsealFinished (done (.ok report)) := by
  rw [turn, run_lift_bind, run_submitShare, bind_ask]
  congr 1
  funext reply
  rw [bind_done]
  cases reply.sealStatus with
  | error e => rfl
  | ok report =>
    dsimp only
    by_cases hs : report.isSealed = true
    · rw [if_pos hs, p.advance_sealed hs]
      rfl
    · rw [if_neg hs, p.advance_unsealed (Bool.eq_false_iff.2 hs)]
      rfl

/-! ### The end of the shares -/

/-- The loop over the shares with another error for a sequence that runs out of them. -/
def submitSharesOr (ranOut : UnsealProgress → ClientError) (total : Nat) :
    List String → UnsealProgress → Operation SealStatus
  | [], progress => Operation.ofExcept (.error (ranOut progress))
  | key :: keys, progress => turn total key progress (submitSharesOr ranOut total keys)

theorem submitSharesOr_exhausted (total : Nat) (keys : List String) :
    submitSharesOr exhausted total keys = submitShares total keys := by
  induction keys with
  | nil => rfl
  | cons key keys ih =>
    funext p
    rw [submitSharesOr, submitShares_cons, ih]

/-- From a sealed machine the loop gets to sealed ones only, so the error for an open one that runs
out of shares is never looked at. -/
theorem submitSharesOr_congr {ranOut ranOut' : UnsealProgress → ClientError}
    (h : ∀ p, p.IsSealed → ranOut p = ranOut' p) (total : Nat) (keys : List String)
    {p : UnsealProgress} (hp : p.IsSealed) :
    submitSharesOr ranOut total keys p = submitSharesOr ranOut' total keys p := by
  induction keys generalizing p with
  | nil => rw [submitSharesOr, submitSharesOr, h p hp]
  | cons key keys ih =>
    apply ExceptT.ext
    rw [submitSharesOr, submitSharesOr, run_turn, run_turn]
    congr 1
    funext reply
    cases reply.sealStatus with
    | error e => rfl
    | ok report =>
      dsimp only
      by_cases hs : report.isSealed = true
      · rw [if_pos hs, if_pos hs, ih ⟨_, _, _, p.advance_sealed hs⟩]
      · rw [if_neg hs, if_neg hs]

/-! ### The log -/

/-- The shares that are sent are numbered on from those that have been applied. -/
theorem shares_submitShares (answer : Request → σ → Reply × σ) (total : Nat) (keys : List String)
    (p : UnsealProgress) (s : σ) :
    let out := (submitShares total keys p).run.run answer s
    out.exchanges.length ≤ keys.length ∧
      out.events.filterMap Log.Event.share? =
        (List.range' (p.applied + 1) out.exchanges.length).map fun share => (share, total) := by
  induction keys generalizing p s with
  | nil => exact ⟨Nat.le_refl _, rfl⟩
  | cons key keys ih =>
    rw [submitShares_cons, run_turn, run]
    cases hv : (answer (unsealRequest key) s).1.sealStatus with
    | error e => simp [run, Log.Event.share?]
    | ok report =>
      by_cases hs : report.isSealed = true
      · obtain ⟨hlen, hshares⟩ := ih (p.advance report) (answer (unsealRequest key) s).2
        rw [applied_advance] at hshares
        simp [hs, run, Log.Event.share?, hlen, hshares, List.range'_succ]
      · simp [hs, run, Log.Event.share?]

/-! ### The loop and the machine -/

variable {reports : List SealStatus} {report : SealStatus}

/-- When every reply was decoded, the loop ended with the first report of an open store, or it ran
out of shares. -/
theorem result_of_decoded (answer : Request → σ → Reply × σ) (keys : List String) (s : σ)
    (h : ((unsealWith keys).run.run answer s).exchanges.map (fun x => x.2.sealStatus) =
      reports.map .ok) :
    let out := (unsealWith keys).run.run answer s
    (∃ before report, reports = before ++ [report] ∧ report.isSealed = false ∧
      (∀ report ∈ before, report.isSealed = true) ∧ out.result = .ok report) ∨
    (∀ report ∈ reports, report.isSealed = true) ∧
      out.result = .error (after reports).exhausted := by
  intro out
  have ht : (submitShares keys.length keys .start).run.Transcript out.exchanges out.result :=
    Operation.transcript_note_bind.1 (transcript_run answer (unsealWith keys).run s)
  rcases transcript_submitShares ht with
    ⟨ys, x, hx, -, hys, hsettles, hr⟩ | ⟨all, -, hall, hsealed, hr⟩
  · -- the last reply is the one that settles, and those before it are reports of a sealed store
    have hmap : reports.map Except.ok =
        ys.map (fun x => x.2.sealStatus) ++ [x.2.sealStatus] := by
      rw [← h, show ((unsealWith keys).run.run answer s).exchanges = _ from hx]
      simp
    obtain ⟨before, last, rfl, hbefore, hlast⟩ := List.map_eq_append_iff.1 hmap
    obtain ⟨report, rfl, hreport⟩ := List.map_eq_singleton_iff.1 hlast
    refine .inl ⟨before, report, rfl, hsettles report hreport.symm, ?_, hr.trans hreport.symm⟩
    intro report' hm
    have hmem : Except.ok report' ∈ ys.map fun x => x.2.sealStatus :=
      hbefore ▸ List.mem_map_of_mem hm
    obtain ⟨y, hy, hvalue⟩ := List.mem_map.1 hmem
    obtain ⟨report'', hok, hs⟩ := Reply.not_settles_iff.1 (hys y hy)
    cases hvalue.symm.trans hok
    exact hs
  · obtain rfl : all = reports :=
      (List.map_inj_right fun _ _ => Except.ok.inj).1 (hall.symm.trans h)
    exact .inr ⟨hsealed, hr⟩

/-- So it ended with a report exactly if the machine opened with the last reply. -/
theorem result_eq_ok_iff_of_decoded (answer : Request → σ → Reply × σ) (keys : List String) (s : σ)
    (h : ((unsealWith keys).run.run answer s).exchanges.map (fun x => x.2.sealStatus) =
      reports.map .ok) (report : SealStatus) :
    ((unsealWith keys).run.run answer s).result = .ok report ↔
      (∃ n, after reports = .unsealed n report) ∧
        ∀ ps, ps <+: reports → ps ≠ reports → (after ps).IsSealed := by
  rcases result_of_decoded answer keys s h with ⟨before, last, rfl, hs, hbefore, hr⟩ | ⟨hall, hr⟩
  · rw [hr, isSealed_shorter_iff, after_concat, if_neg (by simp [hs])]
    constructor
    · rintro ⟨⟩
      exact ⟨⟨_, rfl⟩, hbefore⟩
    · rintro ⟨⟨n, heq⟩, -⟩
      cases heq
      rfl
  · rw [hr]
    refine iff_of_false nofun ?_
    rintro ⟨⟨n, heq⟩, -⟩
    obtain ⟨_, _, _, hsealed⟩ := isSealed_prefixes_iff.2 hall reports List.prefix_rfl
    cases heq.symm.trans hsealed

/-- And it ran out of shares exactly if the machine was sealed all the way. -/
theorem result_eq_error_iff_of_decoded (answer : Request → σ → Reply × σ) (keys : List String)
    (s : σ) (h : ((unsealWith keys).run.run answer s).exchanges.map (fun x => x.2.sealStatus) =
      reports.map .ok) (n : Nat) (progress threshold : UInt32) :
    ((unsealWith keys).run.run answer s).result =
        .error (.thresholdNotReached n progress threshold) ↔
      after reports = .sealed n progress threshold ∧
        ∀ ps, ps <+: reports → (after ps).IsSealed := by
  rw [isSealed_prefixes_iff]
  rcases result_of_decoded answer keys s h with ⟨before, last, rfl, hs, hbefore, hr⟩ | ⟨hall, hr⟩
  · rw [hr]
    refine iff_of_false nofun ?_
    rintro ⟨-, hall⟩
    cases hs.symm.trans (hall last (by simp))
  · obtain ⟨n', progress', threshold', hsealed⟩ :=
      isSealed_prefixes_iff.2 hall reports List.prefix_rfl
    rw [hr, hsealed, exhausted, and_iff_left hall]
    simp

/-- **The loop follows the machine.** After any reports the machine counts them and holds the last
one. Let all replies of a run be decoded. The run ends with a report exactly if the machine is open
with it after the reports that were received and was sealed before the last of them, and it runs out
of shares exactly if the machine was sealed all the way, with what the machine then holds. The error
for an open machine that runs out of shares could be any other. The log numbers the shares that are
sent from one on, so no number exceeds that of the keys. -/
theorem unsealWith_follows_progress (answer : Request → σ → Reply × σ) (keys : List String)
    (s : σ) :
    let out := (unsealWith keys).run.run answer s
    (after [] = .sealed 0 0 0 ∧
      ∀ reports report, after (reports ++ [report]) =
        if report.isSealed then .sealed (reports.length + 1) report.progress report.threshold
        else .unsealed (reports.length + 1) report) ∧
    (∀ reports : List SealStatus, out.exchanges.map (fun x => x.2.sealStatus) = reports.map .ok →
      (∀ report, out.result = .ok report ↔
        (∃ n, after reports = .unsealed n report) ∧
          ∀ ps, ps <+: reports → ps ≠ reports → (after ps).IsSealed) ∧
      ∀ n progress threshold, out.result = .error (.thresholdNotReached n progress threshold) ↔
        after reports = .sealed n progress threshold ∧
          ∀ ps, ps <+: reports → (after ps).IsSealed) ∧
    (∀ ranOut : UnsealProgress → ClientError,
      (∀ n progress threshold, ranOut (.sealed n progress threshold) =
        .thresholdNotReached n progress threshold) →
      submitSharesOr ranOut keys.length keys .start = submitShares keys.length keys .start) ∧
    out.events.filterMap Log.Event.share? =
      (List.range' 1 out.exchanges.length).map (fun share => (share, keys.length)) ∧
    ∀ event ∈ out.events, ∀ share total, event.share? = some (share, total) →
      1 ≤ share ∧ share ≤ total ∧ total = keys.length := by
  intro out
  have hshares : out.exchanges.length ≤ keys.length ∧ out.events.filterMap Log.Event.share? =
      (List.range' 1 out.exchanges.length).map (fun share => (share, keys.length)) :=
    shares_submitShares answer keys.length keys .start s
  refine ⟨⟨rfl, after_concat⟩, ?_, ?_, hshares.2, ?_⟩
  · intro reports h
    exact ⟨result_eq_ok_iff_of_decoded answer keys s h,
      result_eq_error_iff_of_decoded answer keys s h⟩
  · intro ranOut h
    rw [← submitSharesOr_exhausted]
    apply submitSharesOr_congr _ _ _ isSealed_start
    rintro p ⟨n, progress, threshold, rfl⟩
    exact h n progress threshold
  · intro event hevent share total hshare
    have hmem : (share, total) ∈ out.events.filterMap Log.Event.share? :=
      List.mem_filterMap.2 ⟨event, hevent, hshare⟩
    rw [hshares.2] at hmem
    simp only [List.mem_map, List.mem_range'_1, Prod.mk.injEq] at hmem
    obtain ⟨share, hrange, rfl, rfl⟩ := hmem
    omega

theorem unsealWith_follows_progress_of_counting :
    let reports : List SealStatus := [⟨true, 3, 0, 1⟩, ⟨true, 3, 0, 2⟩, ⟨false, 3, 0, 0⟩]
    let out := (unsealWith ["a", "b", "c", "d"]).run.run countingStore 0
    out.exchanges.map (fun x => x.2.sealStatus) = reports.map .ok ∧
      after reports = .unsealed 3 ⟨false, 3, 0, 0⟩ ∧ out.result = .ok ⟨false, 3, 0, 0⟩ ∧
      out.events.filterMap Log.Event.share? = [(1, 4), (2, 4), (3, 4)] := by
  intro reports out
  have hreports : out.exchanges.map (fun x => x.2.sealStatus) = reports.map .ok := by
    decide +kernel
  have hshorter : ∀ ps, ps <+: reports → ps ≠ reports → (after ps).IsSealed := by
    show ∀ ps, ps <+: [_, _] ++ [_] → ps ≠ [_, _] ++ [_] → (after ps).IsSealed
    rw [isSealed_shorter_iff]
    simp
  obtain ⟨-, hresult, -, hshares, -⟩ :=
    unsealWith_follows_progress countingStore ["a", "b", "c", "d"] 0
  have hok := ((hresult reports hreports).1 ⟨false, 3, 0, 0⟩).2 ⟨⟨3, rfl⟩, hshorter⟩
  have hlen : out.exchanges.length = 3 := by
    rw [← List.length_map, hreports]
    rfl
  exact ⟨hreports, rfl, hok, by rw [hshares, hlen]; rfl⟩

end Client

end SecretStore
