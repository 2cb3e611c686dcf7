import SecretStore.Interaction

/-!
# Transcripts

`t.Transcript xs a` says that the procedure `t` can ask the questions of `xs`, be given the answers
that stand beside them, and end with `a`. It forgets where the answers come from, so a fact about
all transcripts of a procedure holds against everything that answers.

* `transcript_run`: every run leaves a transcript behind.
* `transcript_bind`, `transcript_except_bind`: a transcript of one procedure after another is one
  of each, the second of which is missing when the first fails.
* `exchanges_eq_recite`: the answers of a run are those that its questions get in that order.
* `answered_run`: what answers goes from state to state along the exchanges of a run.
-/

namespace SecretStore.Interaction

variable {Q A E σ ε α β : Type}

/-- A possible course of a procedure: what it asks, with the answers, and how it ends. -/
inductive Transcript : Interaction Q A E α → List (Q × A) → α → Prop
  | done (a : α) : Transcript (done a) [] a
  | ask {q : Q} {next : A → Interaction Q A E α} {a : A} {xs : List (Q × A)} {r : α} :
      Transcript (next a) xs r → Transcript (ask q next) ((q, a) :: xs) r
  | note {e : E} {rest : Interaction Q A E α} {xs : List (Q × A)} {r : α} :
      Transcript rest xs r → Transcript (note e rest) xs r

/-- A run leaves a transcript behind, whatever answers. -/
theorem transcript_run (answer : Q → σ → A × σ) (t : Interaction Q A E α) (s : σ) :
    t.Transcript (t.run answer s).exchanges (t.run answer s).result := by
  induction t generalizing s with
  | done a => exact .done a
  | ask q next ih => exact .ask (ih _ _)
  | note e rest ih => exact .note (ih _)

/-! ### Inversion -/

theorem transcript_done {a r : α} {xs : List (Q × A)} :
    (done a : Interaction Q A E α).Transcript xs r ↔ xs = [] ∧ r = a := by
  constructor
  · rintro ⟨⟩
    exact ⟨rfl, rfl⟩
  · rintro ⟨rfl, rfl⟩
    exact .done r

theorem transcript_ask {q : Q} {next : A → Interaction Q A E α} {xs : List (Q × A)} {r : α} :
    (ask q next).Transcript xs r ↔ ∃ a ys, xs = (q, a) :: ys ∧ (next a).Transcript ys r := by
  constructor
  · rintro ⟨⟩
    exact ⟨_, _, rfl, by assumption⟩
  · rintro ⟨a, ys, rfl, h⟩
    exact .ask h

theorem transcript_note {e : E} {rest : Interaction Q A E α} {xs : List (Q × A)} {r : α} :
    (note e rest).Transcript xs r ↔ rest.Transcript xs r := by
  constructor
  · rintro ⟨⟩
    assumption
  · exact .note

theorem transcript_query {q : Q} {a : A} {xs : List (Q × A)} :
    (query q : Interaction Q A E A).Transcript xs a ↔ xs = [(q, a)] := by
  simp only [query, transcript_ask, transcript_done]
  constructor
  · rintro ⟨b, ys, rfl, rfl, rfl⟩
    rfl
  · rintro rfl
    exact ⟨a, [], rfl, rfl, rfl⟩

/-- A transcript of one procedure after another is a transcript of each. -/
theorem transcript_bind {t : Interaction Q A E α} {f : α → Interaction Q A E β}
    {xs : List (Q × A)} {r : β} :
    (t.bind f).Transcript xs r ↔
      ∃ ys zs a, xs = ys ++ zs ∧ t.Transcript ys a ∧ (f a).Transcript zs r := by
  induction t generalizing xs with
  | done a =>
    simp only [bind_done, transcript_done]
    constructor
    · intro h
      exact ⟨[], xs, a, rfl, ⟨rfl, rfl⟩, h⟩
    · rintro ⟨ys, zs, b, rfl, ⟨rfl, rfl⟩, h⟩
      exact h
  | ask q next ih =>
    simp only [bind_ask, transcript_ask, ih]
    constructor
    · rintro ⟨a, ws, rfl, ys, zs, b, rfl, h, h'⟩
      exact ⟨(q, a) :: ys, zs, b, rfl, ⟨a, ys, rfl, h⟩, h'⟩
    · rintro ⟨ys, zs, b, rfl, ⟨a, ws, rfl, h⟩, h'⟩
      exact ⟨a, ws ++ zs, rfl, ws, zs, b, rfl, h, h'⟩
  | note e rest ih => simp only [bind_note, transcript_note, ih]

/-! ### Procedures that may fail -/

theorem transcript_except_pure {a : α} {xs : List (Q × A)} {r : Except ε α} :
    (pure a : ExceptT ε (Interaction Q A E) α).run.Transcript xs r ↔ xs = [] ∧ r = .ok a :=
  transcript_done

theorem transcript_except_lift {t : Interaction Q A E α} {xs : List (Q × A)} {r : Except ε α} :
    (ExceptT.lift t : ExceptT ε (Interaction Q A E) α).run.Transcript xs r ↔
      ∃ a, t.Transcript xs a ∧ r = .ok a := by
  show (t.bind fun a => done (Except.ok a)).Transcript xs r ↔ _
  simp only [transcript_bind, transcript_done]
  constructor
  · rintro ⟨ys, zs, a, rfl, h, rfl, rfl⟩
    exact ⟨a, by simpa using h, rfl⟩
  · rintro ⟨a, h, rfl⟩
    exact ⟨xs, [], a, by simp, h, rfl, rfl⟩

/-- A failure ends the whole. -/
theorem transcript_except_bind {x : ExceptT ε (Interaction Q A E) α}
    {f : α → ExceptT ε (Interaction Q A E) β} {xs : List (Q × A)} {r : Except ε β} :
    (x >>= f).run.Transcript xs r ↔
      (∃ e, x.run.Transcript xs (.error e) ∧ r = .error e) ∨
        ∃ ys zs a, xs = ys ++ zs ∧ x.run.Transcript ys (.ok a) ∧ (f a).run.Transcript zs r := by
  rw [ExceptT.run_bind, bind_eq, transcript_bind]
  constructor
  · rintro ⟨ys, zs, e | a, rfl, h, h'⟩
    · obtain ⟨rfl, rfl⟩ := transcript_done.1 h'
      exact .inl ⟨e, by simpa using h, rfl⟩
    · exact .inr ⟨ys, zs, a, rfl, h, h'⟩
  · rintro (⟨e, h, rfl⟩ | ⟨ys, zs, a, rfl, h, h'⟩)
    · exact ⟨xs, [], .error e, by simp, h, .done _⟩
    · exact ⟨ys, zs, .ok a, rfl, h, h'⟩

/-- A value that is passed on changed. -/
theorem transcript_except_bind_pure {x : ExceptT ε (Interaction Q A E) α} {f : α → β}
    {xs : List (Q × A)} {r : Except ε β} :
    (x >>= fun a => pure (f a)).run.Transcript xs r ↔
      ∃ v, x.run.Transcript xs v ∧ r = v.map f := by
  simp only [transcript_except_bind, transcript_except_pure]
  constructor
  · rintro (⟨e, h, rfl⟩ | ⟨ys, zs, a, rfl, h, rfl, rfl⟩)
    · exact ⟨_, h, rfl⟩
    · exact ⟨_, by simpa using h, rfl⟩
  · rintro ⟨e | a, h, rfl⟩
    · exact .inl ⟨e, h, rfl⟩
    · exact .inr ⟨xs, [], a, by simp, h, rfl, rfl⟩

/-- What cannot fail is followed by the rest. -/
theorem transcript_except_lift_bind {t : Interaction Q A E α}
    {f : α → ExceptT ε (Interaction Q A E) β} {xs : List (Q × A)} {r : Except ε β} :
    (ExceptT.lift t >>= f).run.Transcript xs r ↔
      ∃ ys zs a, xs = ys ++ zs ∧ t.Transcript ys a ∧ (f a).run.Transcript zs r := by
  simp only [transcript_except_bind, transcript_except_lift]
  constructor
  · rintro (⟨_, ⟨_, _, h⟩, _⟩ | ⟨ys, zs, a, rfl, ⟨b, h, hab⟩, h'⟩)
    · cases h
    · cases hab
      exact ⟨ys, zs, a, rfl, h, h'⟩
  · rintro ⟨ys, zs, a, rfl, h, h'⟩
    exact .inr ⟨ys, zs, a, rfl, ⟨a, h, rfl⟩, h'⟩

/-- A note leaves no trace. -/
theorem transcript_except_tell_bind {e : E} {f : Unit → ExceptT ε (Interaction Q A E) β}
    {xs : List (Q × A)} {r : Except ε β} :
    (ExceptT.lift (tell e) >>= f).run.Transcript xs r ↔ (f ()).run.Transcript xs r := by
  show (note e _).Transcript xs r ↔ _
  rw [transcript_note]
  rfl

/-- What follows a failure is never done. -/
theorem transcript_except_mk_bind {v : Except ε α} {f : α → ExceptT ε (Interaction Q A E) β}
    {xs : List (Q × A)} {r : Except ε β} :
    (ExceptT.mk (done v) >>= f).run.Transcript xs r ↔
      (∃ e, v = .error e ∧ xs = [] ∧ r = .error e) ∨
        ∃ a, v = .ok a ∧ (f a).run.Transcript xs r := by
  constructor
  · intro h
    cases v with
    | error e => exact .inl ⟨e, rfl, transcript_done.1 h⟩
    | ok a => exact .inr ⟨a, rfl, h⟩
  · rintro (⟨e, rfl, h⟩ | ⟨a, rfl, h⟩)
    · exact transcript_done.2 h
    · exact h

/-! ### What answers -/

/-- All questions of a list, answered one after the other. -/
def recite (answer : Q → σ → A × σ) : List Q → σ → List (Q × A)
  | [], _ => []
  | q :: qs, s => (q, (answer q s).1) :: recite answer qs (answer q s).2

theorem map_fst_recite (answer : Q → σ → A × σ) (qs : List Q) (s : σ) :
    (recite answer qs s).map Prod.fst = qs := by
  induction qs generalizing s with
  | nil => rfl
  | cons q qs ih => simp [recite, ih]

theorem recite_take (answer : Q → σ → A × σ) (n : Nat) (qs : List Q) (s : σ) :
    recite answer (qs.take n) s = (recite answer qs s).take n := by
  induction qs generalizing n s with
  | nil => simp [recite]
  | cons q qs ih => cases n <;> simp [recite, ih]

/-- The answers of a run are those that its questions get in their order. -/
theorem exchanges_eq_recite (answer : Q → σ → A × σ) (t : Interaction Q A E α) (s : σ) :
    (t.run answer s).exchanges = recite answer ((t.run answer s).exchanges.map Prod.fst) s := by
  induction t generalizing s with
  | done a => rfl
  | ask q next ih => simpa [run, recite] using ih _ _
  | note e rest ih => simpa [run] using ih s

/-- Every answer of a run was given in some state. -/
theorem exists_answer_of_mem {answer : Q → σ → A × σ} {t : Interaction Q A E α} {s : σ}
    {x : Q × A} (hx : x ∈ (t.run answer s).exchanges) : ∃ s', x.2 = (answer x.1 s').1 := by
  induction t generalizing s with
  | done a => cases hx
  | ask q next ih =>
    rcases List.mem_cons.1 hx with rfl | hx
    · exact ⟨s, rfl⟩
    · exact ih _ hx
  | note e rest ih => exact ih hx

/-- So are the answers of the first part of a run. -/
theorem eq_recite_of_append {answer : Q → σ → A × σ} {ys zs : List (Q × A)} {s : σ}
    (h : ys ++ zs = recite answer ((ys ++ zs).map Prod.fst) s) :
    ys = recite answer (ys.map Prod.fst) s := by
  have hy : ((ys ++ zs).map Prod.fst).take ys.length = ys.map Prod.fst := by simp
  rw [← hy, recite_take, ← h, List.take_left']
  rfl

/-- The state of what answered depends on the questions alone. -/
theorem state_eq_foldl (answer : Q → σ → A × σ) (t : Interaction Q A E α) (s : σ) :
    (t.run answer s).state =
      ((t.run answer s).exchanges.map Prod.fst).foldl (fun s q => (answer q s).2) s := by
  induction t generalizing s with
  | done a => rfl
  | ask q next ih => exact ih _ _
  | note e rest ih => exact ih s

/-- The answers of some exchanges, given one after the other, lead from one state to another. -/
inductive Answered (answer : Q → σ → A × σ) : σ → List (Q × A) → σ → Prop
  | nil (s : σ) : Answered answer s [] s
  | cons {q : Q} {s s' : σ} {xs : List (Q × A)} (h : Answered answer (answer q s).2 xs s') :
      Answered answer s ((q, (answer q s).1) :: xs) s'

/-- The exchanges of a run lead to its last state. -/
theorem answered_run (answer : Q → σ → A × σ) (t : Interaction Q A E α) (s : σ) :
    Answered answer s (t.run answer s).exchanges (t.run answer s).state := by
  induction t generalizing s with
  | done a => exact .nil s
  | ask q next ih => exact .cons (ih _ _)
  | note e rest ih => exact ih s

theorem answered_nil {answer : Q → σ → A × σ} {s s' : σ} : Answered answer s [] s' ↔ s' = s := by
  constructor
  · rintro ⟨⟩
    rfl
  · rintro rfl
    exact .nil s'

theorem answered_cons {answer : Q → σ → A × σ} {s s' : σ} {x : Q × A} {xs : List (Q × A)} :
    Answered answer s (x :: xs) s' ↔
      x.2 = (answer x.1 s).1 ∧ Answered answer (answer x.1 s).2 xs s' := by
  constructor
  · rintro ⟨⟩
    exact ⟨rfl, by assumption⟩
  · obtain ⟨q, a⟩ := x
    rintro ⟨ha, h⟩
    obtain rfl : a = (answer q s).1 := ha
    exact .cons h

theorem answered_append {answer : Q → σ → A × σ} {s s' : σ} {xs ys : List (Q × A)} :
    Answered answer s (xs ++ ys) s' ↔
      ∃ between, Answered answer s xs between ∧ Answered answer between ys s' := by
  induction xs generalizing s with
  | nil =>
    constructor
    · intro h
      exact ⟨s, .nil s, h⟩
    · rintro ⟨between, h, h'⟩
      obtain rfl := answered_nil.1 h
      exact h'
  | cons x xs ih =>
    rw [List.cons_append, answered_cons, ih]
    simp only [answered_cons]
    constructor
    · rintro ⟨hx, between, h, h'⟩
      exact ⟨between, ⟨hx, h⟩, h'⟩
    · rintro ⟨between, ⟨hx, h⟩, h'⟩
      exact ⟨hx, between, h, h'⟩

end SecretStore.Interaction
