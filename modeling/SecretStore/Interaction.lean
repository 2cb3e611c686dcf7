/-!
# Interactions

An `Interaction Q A E α` is a procedure that asks questions of type `Q`, goes on with answers of
type `A`, notes events of type `E` and ends with a result. What it asks next depends on nothing but
the answers so far.

* `Interaction.run` answers the questions with a function that keeps a state, and records every
  exchange and every event.
* `Interaction.expand` answers each question by an interaction over other questions.

`run_bind` says how a run of one procedure after another splits, and `run_expand` that expanding
commutes with running.
-/

namespace SecretStore

/-- A procedure that asks, notes and ends. -/
inductive Interaction (Q A E : Type) (α : Type) where
  | done (a : α)
  | ask (q : Q) (next : A → Interaction Q A E α)
  | note (e : E) (rest : Interaction Q A E α)

/-- What a run leaves behind. -/
structure Run (Q A E σ α : Type) where
  result : α
  /-- The questions with their answers. -/
  exchanges : List (Q × A)
  /-- The events. -/
  events : List E
  /-- The state of what answered. -/
  state : σ

namespace Interaction

variable {Q A E Q' A' σ α β γ : Type}

/-- One procedure, then another. -/
protected def bind : Interaction Q A E α → (α → Interaction Q A E β) → Interaction Q A E β
  | done a, f => f a
  | ask q next, f => ask q fun a => (next a).bind f
  | note e rest, f => note e (rest.bind f)

instance : Monad (Interaction Q A E) where
  pure := done
  bind := Interaction.bind

/-- Asks one question. -/
def query (q : Q) : Interaction Q A E A := ask q done

/-- Notes one event. -/
def tell (e : E) : Interaction Q A E Unit := note e (done ())

/-- Answers each question by an interaction over other questions. -/
def expand (f : Q → Interaction Q' A' E A) : Interaction Q A E α → Interaction Q' A' E α
  | done a => done a
  | ask q next => (f q).bind fun a => (next a).expand f
  | note e rest => note e (rest.expand f)

/-- Runs the procedure against what answers, from a state. -/
def run (answer : Q → σ → A × σ) : Interaction Q A E α → σ → Run Q A E σ α
  | done a, s => ⟨a, [], [], s⟩
  | ask q next, s =>
    let r := (next (answer q s).1).run answer (answer q s).2
    { r with exchanges := (q, (answer q s).1) :: r.exchanges }
  | note e rest, s =>
    let r := rest.run answer s
    { r with events := e :: r.events }

/-! ### Laws -/

@[simp] theorem pure_eq (a : α) : (pure a : Interaction Q A E α) = done a := rfl

@[simp] theorem bind_eq (t : Interaction Q A E α) (f : α → Interaction Q A E β) :
    t >>= f = t.bind f := rfl

@[simp] theorem bind_done (a : α) (f : α → Interaction Q A E β) :
    (done a).bind f = f a := rfl

@[simp] theorem bind_ask (q : Q) (next : A → Interaction Q A E α)
    (f : α → Interaction Q A E β) :
    (ask q next).bind f = ask q fun a => (next a).bind f := rfl

@[simp] theorem bind_note (e : E) (t : Interaction Q A E α) (f : α → Interaction Q A E β) :
    (note e t).bind f = note e (t.bind f) := rfl

theorem bind_done_right (t : Interaction Q A E α) : t.bind done = t := by
  induction t with
  | done a => rfl
  | ask q next ih => simp [ih]
  | note e rest ih => simp [ih]

theorem bind_assoc (t : Interaction Q A E α) (f : α → Interaction Q A E β)
    (g : β → Interaction Q A E γ) : (t.bind f).bind g = t.bind fun a => (f a).bind g := by
  induction t with
  | done a => rfl
  | ask q next ih => simp [ih]
  | note e rest ih => simp [ih]

instance : LawfulMonad (Interaction Q A E) :=
  LawfulMonad.mk' _ (fun t => bind_done_right t) (fun _ _ => rfl) (fun t f g => bind_assoc t f g)
    (fun _ _ => rfl)

/-- A run of one procedure after another is a run of each. -/
theorem run_bind (answer : Q → σ → A × σ) (t : Interaction Q A E α)
    (f : α → Interaction Q A E β) (s : σ) :
    (t.bind f).run answer s =
      let r := t.run answer s
      let r' := (f r.result).run answer r.state
      ⟨r'.result, r.exchanges ++ r'.exchanges, r.events ++ r'.events, r'.state⟩ := by
  induction t generalizing s with
  | done a => simp [run]
  | ask q next ih => simp [run, ih]
  | note e rest ih => simp [run, ih]

/-- To run an expanded procedure is to run it against the expansion of each question. -/
theorem run_expand (answer : Q' → σ → A' × σ) (f : Q → Interaction Q' A' E A)
    (t : Interaction Q A E α) (s : σ) :
    let r := (t.expand f).run answer s
    let r' := t.run (fun q s => (((f q).run answer s).result, ((f q).run answer s).state)) s
    r.result = r'.result ∧ r.state = r'.state := by
  induction t generalizing s with
  | done a => simp [expand, run]
  | ask q next ih =>
    simp only [expand, run_bind, run]
    exact ih _ _
  | note e rest ih =>
    simp only [expand, run]
    exact ih _

end Interaction

end SecretStore
