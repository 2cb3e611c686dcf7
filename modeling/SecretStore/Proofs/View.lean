import SecretStore.Interaction

/-!
# What shows of a procedure

An onlooker who is told `view q` in place of each question `q`, and every answer, event and result
as it is, sees of a procedure `t` the procedure `t.viewed view`.

* `run_viewed`: running what shows of a procedure gives what shows of its run.
* `viewed_bind`: what shows of one procedure after another is what shows of each.
* `Alike`: procedures of which the same shows. It is kept by `bind`, so procedures of one shape are
  alike if the questions at each place of it are.
-/

namespace SecretStore

variable {Q Q' A E σ ε ε' α β : Type} {view : Q → Q'}

/-- What shows of a run. -/
def Run.viewed (view : Q → Q') (r : Run Q A E σ α) : Run Q' A E σ α :=
  { r with exchanges := r.exchanges.map fun x => (view x.1, x.2) }

theorem Run.viewed_eq_iff {r r' : Run Q A E σ α} :
    r.viewed view = r'.viewed view ↔ r.result = r'.result ∧
      r.exchanges.map (fun x => (view x.1, x.2)) = r'.exchanges.map (fun x => (view x.1, x.2)) ∧
      r.events = r'.events ∧ r.state = r'.state := by
  simp only [Run.viewed, Run.mk.injEq]

namespace Interaction

/-- What shows of a procedure. -/
def viewed (view : Q → Q') : Interaction Q A E α → Interaction Q' A E α
  | done a => done a
  | ask q next => ask (view q) fun a => (next a).viewed view
  | note e rest => note e (rest.viewed view)

theorem viewed_bind (t : Interaction Q A E α) (f : α → Interaction Q A E β) :
    (t.bind f).viewed view = (t.viewed view).bind fun a => (f a).viewed view := by
  induction t with
  | done a => rfl
  | ask q next ih => simp [viewed, ih]
  | note e rest ih => simp [viewed, ih]

/-- What answers by looking at no more than what shows. -/
def blind (view : Q → Q') (answer : Q' → σ → A × σ) (q : Q) : σ → A × σ := answer (view q)

/-- What shows of a procedure runs as what shows of its run. -/
theorem run_viewed (answer : Q' → σ → A × σ) (t : Interaction Q A E α) (s : σ) :
    (t.viewed view).run answer s = (t.run (blind view answer) s).viewed view := by
  induction t generalizing s with
  | done a => rfl
  | ask q next ih => simp [viewed, run, Run.viewed, blind, ih]
  | note e rest ih => simp [viewed, run, Run.viewed, ih]

/-- Procedures of which the same shows have runs of which the same shows. -/
theorem viewed_run_congr {t t' : Interaction Q A E α} (h : t.viewed view = t'.viewed view)
    (answer : Q' → σ → A × σ) (s : σ) :
    (t.run (blind view answer) s).viewed view = (t'.run (blind view answer) s).viewed view := by
  rw [← run_viewed, ← run_viewed, h]

/-! ### Procedures that may fail -/

/-- The same shows of both procedures. -/
def Alike (view : Q → Q') (x y : ExceptT ε (Interaction Q A E) α) : Prop :=
  x.run.viewed view = y.run.viewed view

namespace Alike

variable {x y z : ExceptT ε (Interaction Q A E) α}

theorem refl (x : ExceptT ε (Interaction Q A E) α) : Alike view x x := rfl

theorem trans (h : Alike view x y) (h' : Alike view y z) : Alike view x z := Eq.trans h h'

theorem symm (h : Alike view x y) : Alike view y x := Eq.symm h

/-- A question, of which the same shows. -/
theorem query {q q' : Q} (h : view q = view q') :
    Alike view (ExceptT.mk (query q) : ExceptT ε (Interaction Q (Except ε α) E) α)
      (ExceptT.mk (query q')) := by
  show ask (view q) _ = ask (view q') _
  rw [h]

/-- Procedures that are alike, with continuations that are alike whatever they are given. -/
theorem bind {f g : α → ExceptT ε (Interaction Q A E) β} (h : Alike view x y)
    (hf : ∀ a, Alike view (f a) (g a)) : Alike view (x >>= f) (y >>= g) := by
  rw [Alike, ExceptT.run_bind, ExceptT.run_bind, bind_eq, bind_eq, viewed_bind, viewed_bind]
  rw [show x.run.viewed view = y.run.viewed view from h]
  refine congrArg (y.run.viewed view).bind (funext fun v => ?_)
  cases v with
  | error e => rfl
  | ok a => exact hf a

/-- Procedures whose failures are looked at. -/
theorem lift_run (h : Alike view x y) :
    Alike view (ExceptT.lift x.run : ExceptT ε' (Interaction Q A E) (Except ε α))
      (ExceptT.lift y.run) := by
  show (x.run.bind fun v => done (Except.ok v)).viewed view =
    (y.run.bind fun v => done (Except.ok v)).viewed view
  rw [viewed_bind, viewed_bind, show x.run.viewed view = y.run.viewed view from h]

end Alike

end Interaction

end SecretStore
