import SecretStore.Proofs.Redirects
import SecretStore.Proofs.Targets

/-!
# From steps to the wire

A connection and a request are built in steps, any number of them and in any order. The last step of
its kind decides.

* `Connection.get_foldl_step`, `Request.steps_eq_ok_iff`: what the steps come to.
* `message_of_http`: when there is a message for a request over plain HTTP, and what keeps it back.
* `call_on_wire`: what is sent for the steps, or why nothing is.
-/

namespace SecretStore

/-- A text that is not empty. -/
def nonEmpty? (o : Option String) : Option String := o.filter (· ≠ "")

/-- What the last step sets among those that set something, or else the value before them. -/
def lastSet {α β : Type} (set : α → Option β) (xs : List α) (before : β) : β :=
  (xs.filterMap set).getLast?.getD before

theorem lastSet_cons {α β : Type} (set : α → Option β) (x : α) (xs : List α) (before : β) :
    lastSet set (x :: xs) before = lastSet set xs ((set x).getD before) := by
  rw [lastSet, lastSet]
  cases hx : set x with
  | none => rw [List.filterMap_cons_none hx, Option.getD_none]
  | some b =>
    rw [List.filterMap_cons_some hx, List.getLast?_cons, Option.getD_some, Option.getD_some]

/-! ### Connections -/

namespace Connection

/-- The namespace after a step that sets one. -/
def Step.nameSpace? : Step → Option (Option String)
  | .nameSpace n => some (nonEmpty? n)
  | _ => none

/-- The connection to a base after some steps. -/
def built (baseUrl : String) (ss : List Step) : Connection := ss.foldl step { baseUrl := baseUrl }

/-- A field that each step leaves alone or sets is what the last step sets it to. -/
theorem get_foldl_step {β : Type} {get : Connection → β} {set : Step → Option β}
    (h : ∀ c x, get (step c x) = (set x).getD (get c)) (c : Connection) (ss : List Step) :
    get (ss.foldl step c) = lastSet set ss (get c) := by
  induction ss generalizing c with
  | nil => rfl
  | cons x ss ih => rw [List.foldl_cons, ih, h, lastSet_cons]

theorem nameSpace_built (baseUrl : String) (ss : List Step) :
    (built baseUrl ss).nameSpace = lastSet Step.nameSpace? ss none :=
  get_foldl_step (fun c x => by cases x <;> rfl) _ ss

theorem baseUrl_built (baseUrl : String) (ss : List Step) :
    (built baseUrl ss).baseUrl = baseUrl := by
  have hnone (c : Connection) (x : Step) :
      (step c x).baseUrl = (none : Option String).getD c.baseUrl := by cases x <;> rfl
  rw [built, get_foldl_step hnone, lastSet, List.filterMap_none]
  rfl

end Connection

/-! ### Requests -/

namespace Request

/-- The token after a step that sets it. -/
def Step.token? : Step → Option (Option String)
  | .token t => some (nonEmpty? (some t))
  | _ => none

/-- The body after a step that sets it. -/
def Step.body? : Step → Option Body
  | .payload p => p.encode.toOption.map .json
  | .raw bytes => some (.raw bytes)
  | _ => none

/-- The request that some steps make of another one. -/
def after (r : Request) (ss : List Step) : Request :=
  { r with token := lastSet Step.token? ss r.token, body := lastSet Step.body? ss r.body }

/-- Each payload can be encoded. -/
def Encodable (ss : List Step) : Prop := ∀ p, .payload p ∈ ss → ∃ v, p.encode = .ok v

variable {r q : Request} {ss : List Step} {x : Step} {e : ClientError}

theorem withToken_eq (t : String) (r : Request) :
    r.withToken t = { r with token := nonEmpty? (some t) } := by
  rw [withToken, nonEmpty?, Option.filter_some]
  by_cases h : t = "" <;> simp [h]

/-- The request after a step that does not fail. -/
def next (r : Request) (x : Step) : Request :=
  { r with token := x.token?.getD r.token, body := x.body?.getD r.body }

theorem step_eq_ok_iff : r.step x = .ok q ↔
    (∀ p, x = .payload p → ∃ v, p.encode = .ok v) ∧ q = r.next x := by
  cases x with
  | token t =>
    rw [step, withToken_eq]
    simp [next, Step.token?, Step.body?, eq_comm]
  | payload p =>
    rw [step, withPayload]
    cases hp : p.encode with
    | error reason => simp [hp]
    | ok v => simp [hp, next, Step.token?, Step.body?, withJson, Except.toOption, eq_comm]
  | raw bytes => simp [step, withRaw, next, Step.token?, Step.body?, eq_comm]
  | keep =>
    show Except.ok r = .ok q ↔ _ ∧ q = r
    simp [eq_comm]

theorem step_eq_error_iff : r.step x = .error e ↔
    ∃ p reason, x = .payload p ∧ p.encode = .error reason ∧ e = .encode r.operation reason := by
  cases x with
  | token t => simp [step]
  | payload p =>
    rw [step, withPayload]
    cases hp : p.encode <;> simp [hp, eq_comm]
  | raw bytes => simp [step]
  | keep => simp [step]

/-- The last steps decide about token and body, nothing else changes, and each payload has to be
encoded. -/
theorem steps_eq_ok_iff : r.steps ss = .ok q ↔ Encodable ss ∧ q = r.after ss := by
  induction ss generalizing r with
  | nil => simp [steps, Encodable, after, lastSet, eq_comm]
  | cons x ss ih =>
    have hcons : Encodable (x :: ss) ↔
        (∀ p, x = .payload p → ∃ v, p.encode = .ok v) ∧ Encodable ss := by
      simp only [Encodable, List.mem_cons, or_imp, forall_and, eq_comm]
    have hafter : r.after (x :: ss) = (r.next x).after ss := by
      simp only [after, next, lastSet_cons]
    rw [steps, hcons, hafter]
    cases hx : r.step x with
    | error e =>
      obtain ⟨p, reason, rfl, hp, -⟩ := step_eq_error_iff.1 hx
      simp [hp]
    | ok q' =>
      obtain ⟨hp, rfl⟩ := step_eq_ok_iff.1 hx
      simp only [ih]
      tauto

/-- The first payload that cannot be encoded is the error. -/
theorem steps_eq_error_iff : r.steps ss = .error e ↔ ∃ before p rest reason,
    ss = before ++ .payload p :: rest ∧ Encodable before ∧ p.encode = .error reason ∧
      e = .encode r.operation reason := by
  induction ss generalizing r with
  | nil => simp [steps]
  | cons x ss ih =>
    rw [steps]
    cases hx : r.step x with
    | error e' =>
      obtain ⟨p, reason, rfl, hp, rfl⟩ := step_eq_error_iff.1 hx
      constructor
      · intro h
        exact ⟨[], p, ss, reason, rfl, fun _ hm => absurd hm List.not_mem_nil, hp,
          (Except.error.inj h).symm⟩
      · rintro ⟨_ | ⟨y, before⟩, p', rest, reason', hss, hbefore, hp', rfl⟩
        · obtain ⟨⟨⟩, rfl⟩ := List.cons.inj hss
          rw [Except.error.inj (hp.symm.trans hp')]
        · obtain ⟨rfl, rfl⟩ := List.cons.inj hss
          obtain ⟨v, hv⟩ := hbefore p List.mem_cons_self
          cases hp.symm.trans hv
    | ok q' =>
      obtain ⟨hencode, rfl⟩ := step_eq_ok_iff.1 hx
      refine ih.trans ⟨?_, ?_⟩
      · rintro ⟨before, p, rest, reason, rfl, hbefore, hp, rfl⟩
        refine ⟨x :: before, p, rest, reason, rfl, fun p' hp' => ?_, hp, rfl⟩
        rcases List.mem_cons.1 hp' with heq | hp'
        · exact hencode p' heq.symm
        · exact hbefore p' hp'
      · rintro ⟨_ | ⟨y, before⟩, p, rest, reason, hss, hbefore, hp, rfl⟩
        · obtain ⟨rfl, rfl⟩ := List.cons.inj hss
          obtain ⟨v, hv⟩ := hencode p rfl
          cases hp.symm.trans hv
        · obtain ⟨rfl, rfl⟩ := List.cons.inj hss
          exact ⟨before, p, rest, reason, rfl,
            fun p' hp' => hbefore p' (List.mem_cons_of_mem _ hp'), hp, rfl⟩

end Request

namespace Net

/-! ### Plain addresses -/

variable {names : Host.Names}

theorem Host.ne_nil_of_parse? {cs host : List Char} (h : parse? names cs = some host) :
    host ≠ [] := by
  unfold parse? at h
  split at h
  · split_ifs at h
    obtain ⟨ns, -, rfl⟩ := Option.map_eq_some_iff.1 h
    simp [bracketed]
  · simp only [Option.bind_eq_bind, Option.bind_eq_some_iff] at h
    obtain ⟨-, -, name, -, h⟩ := h
    split_ifs at h with hname hnumber
    · simp only [parseDotted?, Option.bind_eq_bind, Option.bind_eq_some_iff] at h
      obtain ⟨parts, -, n, -, h⟩ := h
      cases h
      simp [dotted]
    · cases h
      exact fun hnil => hname (.inl (List.isEmpty_iff.2 hnil))

/-- A plain address that can be read has a host. -/
theorem Url.host_of_parse?_http {cs : List Char} {url : Url}
    (h : parse? names (String.ofList ("http://".toList ++ cs)) = some url) :
    url.scheme = "http".toList ∧ ∃ host, url.host = some host ∧ host ≠ [] := by
  have hclean : clean ("http://".toList ++ cs) = "http:".toList ++ '/' :: cleanEnd ('/' :: cs) := by
    have hc := clean_append_slash (c := 'h') (by decide) "ttp:".toList ('/' :: cs)
    simpa [isBreak] using hc
  have hspecial : isSpecial "http".toList = true := by decide
  rw [parse?, String.toList_ofList, hclean, Option.bind_eq_bind, scheme?_http, Option.bind_some]
    at h
  simp only [ofScheme?_http, afterSlashes?, Option.bind_eq_bind, Option.bind_eq_some_iff] at h
  obtain ⟨⟨host, port⟩, hauthority, h⟩ := h
  cases h
  refine ⟨rfl, host, rfl, ?_⟩
  unfold authority? at hauthority
  simp only [hspecial, if_true, true_or, Option.bind_eq_bind] at hauthority
  split_ifs at hauthority
  obtain ⟨name, hname, hauthority⟩ := Option.bind_eq_some_iff.1 hauthority
  obtain ⟨n, -, hauthority⟩ := Option.bind_eq_some_iff.1 hauthority
  cases hauthority
  exact Host.ne_nil_of_parse? hname

namespace HttpClient

/-- Whether a byte may not stand in the value of a header. -/
def Control (b : UInt8) : Prop := b < 0x20 ∧ b ≠ 9 ∨ b = 0x7F

/-- An optional value can be sent in a header. -/
def Fits (o : Option String) : Prop := ∀ t, o = some t → ∀ b ∈ Bytes.ofString t, ¬Control b

theorem inHeader_iff {b : UInt8} : inHeader b = true ↔ ¬Control b := by
  simp only [inHeader, Control, Bool.or_eq_true, Bool.and_eq_true, decide_eq_true_eq, bne_iff_ne]
  constructor
  · rintro (⟨hle, hne⟩ | rfl)
    · rintro (⟨hlt, -⟩ | heq)
      · exact absurd hlt (UInt8.not_lt.2 hle)
      · exact hne heq
    · decide
  · intro h
    rw [not_or, not_and_or] at h
    obtain ⟨hlt | h9, h7f⟩ := h
    · exact .inl ⟨UInt8.not_lt.1 hlt, h7f⟩
    · exact .inr (not_not.1 h9)

theorem fits_iff {o : Option String} :
    Fits o ↔ (o.all fun t => (Bytes.ofString t).all inHeader) = true := by
  cases o with
  | none => simp [Fits]
  | some t => simp [Fits, List.all_eq_true, inHeader_iff]

instance (o : Option String) : Decidable (Fits o) := decidable_of_iff' _ fits_iff

/-- The header of an optional value is the value itself, if it fits. -/
theorem header?_eq_some_iff {name : String} {o : Option String} {hs : List (String × Bytes)} :
    header? name o = some hs ↔
      Fits o ∧ hs = (o.map fun t => (name, Bytes.ofString t)).toList := by
  rw [fits_iff]
  cases o with
  | none => simp [header?, eq_comm]
  | some t =>
    rw [header?, Option.all_some]
    by_cases hfits : (Bytes.ofString t).all inHeader = true
    · simp only [hfits, if_true, Option.some.injEq, true_and, Option.map_some, Option.toList_some]
      exact eq_comm
    · simp only [hfits, Bool.false_eq_true, if_false, reduceCtorEq, false_and]

variable {client : HttpClient} {q : Request} {m : Message}

/-- What a client over plain HTTP sends for a request: nothing unless the address can be read and
requested, and token and namespace fit. -/
theorem message_of_http {cs : List Char}
    (hbase : (client.address q.path).toList = "http://".toList ++ cs) :
    client.message q = .ok m ↔
      ∃ url, Url.parse? client.names (client.address q.path) = some url ∧ url.isUri = true ∧
      Fits q.token ∧ Fits client.nameSpace ∧
      m = ⟨q.method, url, authorization (Url.userInfo? (client.address q.path)) ++
        (q.token.map fun t => ("x-vault-token", Bytes.ofString t)).toList ++
        (client.nameSpace.map fun n => ("x-vault-namespace", Bytes.ofString n)).toList ++
        commonHeaders ++ headersOf q.body, bytesOf q.body⟩ := by
  rw [message_eq_ok_iff]
  constructor
  · rintro ⟨hurl, -, husable, hmethod, ⟨token, nameSpace, htoken, hspace, hheaders⟩, hbody⟩
    obtain ⟨hfits, rfl⟩ := header?_eq_some_iff.1 htoken
    obtain ⟨hfits', rfl⟩ := header?_eq_some_iff.1 hspace
    refine ⟨m.url, hurl, ?_, hfits, hfits', ?_⟩
    · exact (Bool.and_eq_true_iff.1 husable).2
    · rw [← hmethod, ← hheaders, ← hbody]
  · rintro ⟨url, hurl, huri, htoken, hspace, rfl⟩
    have hurl' := hurl
    rw [← String.ofList_toList (s := client.address q.path), hbase] at hurl'
    obtain ⟨hscheme, host, hhost, hne⟩ := Url.host_of_parse?_http hurl'
    refine ⟨hurl, ⟨by simp [hhost], by simp [hhost, hne]⟩, ?_, rfl,
      ⟨_, _, header?_eq_some_iff.2 ⟨htoken, rfl⟩, header?_eq_some_iff.2 ⟨hspace, rfl⟩, rfl⟩, rfl⟩
    simp [isUsable, hscheme, huri, Url.isWeb]

/-- A message carries a token, a namespace and a body, each in its own header if it has one. -/
structure Carries (token nameSpace : Option String) (body : Body) (m : Message) : Prop where
  token : ∀ v, ("x-vault-token", v) ∈ m.headers ↔ ∃ t, token = some t ∧ Bytes.ofString t = v
  nameSpace : ∀ v, ("x-vault-namespace", v) ∈ m.headers ↔
    ∃ n, nameSpace = some n ∧ Bytes.ofString n = v
  contentType : ∀ v, ("content-type", v) ∈ m.headers ↔
    v = Bytes.ofString "application/json" ∧ ∃ d, body = .json d
  once : (m.headers.map Prod.fst).Nodup
  body : m.body = bytesOf body

theorem mem_headersOf {body : Body} {x : String × Bytes} : x ∈ headersOf body ↔
    (x = ("content-type", Bytes.ofString "application/json") ∧ ∃ d, body = .json d) ∨
      x = ("content-length", Bytes.ofString (toString (bytesOf body).length)) ∧
        bytesOf body ≠ [] := by
  unfold headersOf
  rw [List.mem_append]
  refine or_congr ?_ ?_
  · cases body <;> simp
  · cases bytesOf body <;> simp

/-- What an address says about the user is at most one header. -/
theorem authorization_eq (user : Option (List Char)) :
    authorization user = [] ∨ ∃ v, authorization user = [("authorization", v)] := by
  cases user with
  | none => exact .inl rfl
  | some cs =>
    simp only [authorization]
    split_ifs <;> simp

theorem not_mem_authorization {user : Option (List Char)} {name : String} {v : Bytes}
    (h : name ≠ "authorization") : (name, v) ∉ authorization user := by
  rcases authorization_eq user with hu | ⟨w, hu⟩
  · simp [hu]
  · simp [hu, h]

/-- No header of a message is there twice. -/
theorem names_of_headers (user : Option (List Char)) (o o' : Option String) (body : Body) :
    ((authorization user ++ (o.map fun t => ("x-vault-token", Bytes.ofString t)).toList ++
      (o'.map fun n => ("x-vault-namespace", Bytes.ofString n)).toList ++
      commonHeaders ++ headersOf body).map Prod.fst).Nodup := by
  have huser : ((authorization user).map Prod.fst).Sublist ["authorization"] := by
    rcases authorization_eq user with hu | ⟨w, hu⟩ <;> simp [hu]
  have hoption {name : String} (o : Option String) :
      (((o.map fun t => (name, Bytes.ofString t)).toList).map Prod.fst).Sublist [name] := by
    cases o <;> simp
  have hbody : ((headersOf body).map Prod.fst).Sublist ["content-type", "content-length"] := by
    unfold headersOf
    rw [List.map_append]
    refine List.Sublist.append (?_ : List.Sublist _ ["content-type"]) ?_
    · cases body <;> simp
    · cases bytesOf body <;> simp
  rw [List.map_append, List.map_append, List.map_append, List.map_append]
  refine List.Nodup.sublist ((((huser.append (hoption o)).append (hoption o')).append
    (List.Sublist.refl _)).append hbody) ?_
  decide

theorem carries_of_message (h : client.message q = .ok m) :
    Carries q.token client.nameSpace q.body m := by
  obtain ⟨-, -, -, -, ⟨token, nameSpace, htoken, hspace, hheaders⟩, hbody⟩ :=
    message_eq_ok_iff.1 h
  obtain ⟨-, rfl⟩ := header?_eq_some_iff.1 htoken
  obtain ⟨-, rfl⟩ := header?_eq_some_iff.1 hspace
  refine ⟨?token, ?nameSpace, ?contentType, hheaders ▸ names_of_headers _ _ _ _, hbody⟩
  case token =>
    intro v
    rw [hheaders]
    simp [not_mem_authorization, mem_headersOf, commonHeaders]
  case nameSpace =>
    intro v
    rw [hheaders]
    simp [not_mem_authorization, mem_headersOf, commonHeaders]
  case contentType =>
    intro v
    rw [hheaders]
    simp [not_mem_authorization, mem_headersOf, commonHeaders]

/-- A call from its steps. A step that fails is the reply. -/
def call (client : HttpClient) (r : Request) (ss : List Request.Step) : Traffic Reply :=
  match r.steps ss with
  | .error e => .done (.error e)
  | .ok q => client.execute q

variable {σ : Type} {answer : Message → σ → Option Response × σ} {s : σ}

/-- A message whose answer is no redirect is the only one of its call. -/
theorem execute_of_final (hm : client.message q = .ok m)
    (hfinal : ∀ a, (answer m s).1 = some a → a.redirect? client.names m = none) :
    ((client.execute q).run answer s).exchanges = [(m, (answer m s).1)] ∧
      ((client.execute q).run answer s).result =
        match (answer m s).1 with
        | none => unanswered q (.unanswered m.url)
        | some a => judge q a := by
  rw [(execute_of_message_ok hm s).1, (execute_of_message_ok hm s).2, send, sendWithin]
  simp only [Interaction.run]
  cases ha : (answer m s).1 with
  | none => exact ⟨rfl, rfl⟩
  | some a =>
    simp only [hfinal a ha]
    exact ⟨rfl, rfl⟩

/-- The address behind the base of a plain connection begins as the base does. -/
theorem toList_address (names : Host.Names) (host port pre path : String)
    (nameSpace : Option String) : ∃ cs,
    (address ⟨names, trimEnd ("http://" ++ host ++ ":" ++ port ++ pre), nameSpace⟩ path).toList =
      "http://".toList ++ cs := by
  have htrim : (trimEnd ("http://" ++ host ++ ":" ++ port ++ pre)).toList =
      "http://".toList ++ (host.toList ++ ':' :: (port.toList ++ pre.toList).rdropWhile
        (· == '/')) := by
    have hdrop := Url.rdropWhile_append_cons (p := (· == '/')) (c := ':') (by decide)
      ("http://".toList ++ host.toList) (port.toList ++ pre.toList)
    rw [trimEnd, String.toList_ofList]
    simpa [Slashes.trimEnd, List.rdropWhile] using hdrop
  exact ⟨_, by rw [address, String.toList_append, String.toList_append, htrim, List.append_assoc,
    List.append_assoc]⟩

theorem ofConnection_eq_ok {p : Primitives} {files : Files} {c : Connection}
    (h : ofConnection p files c = .ok client) :
    client = ⟨p.names, trimEnd c.baseUrl, c.nameSpace⟩ := by
  unfold ofConnection at h
  split at h
  · cases h
  split at h
  · exact (Except.ok.inj h).symm
  · cases h

theorem call_of_encodable {r : Request} {ss : List Request.Step} (h : Request.Encodable ss) :
    client.call r ss = client.execute (r.after ss) := by
  rw [call, Request.steps_eq_ok_iff.2 ⟨h, rfl⟩]

section Plain

variable {cs : List Char} (hbase : (client.address q.path).toList = "http://".toList ++ cs)
include hbase

/-- Nothing is sent to an address that cannot be read or requested, or with a token or a namespace
that does not fit. -/
theorem execute_of_unfit (h : Url.parse? client.names (client.address q.path) = none ∨
      ¬Fits q.token ∨ ¬Fits client.nameSpace ∨
      ∃ url, Url.parse? client.names (client.address q.path) = some url ∧ url.isUri = false) :
    ((client.execute q).run answer s).exchanges = [] ∧
      ∃ source, ((client.execute q).run answer s).result =
        .error (.noResponse q.operation source) := by
  cases hm : client.message q with
  | error e =>
    have hrun : ((client.execute q).run answer s).exchanges = [] ∧
        ((client.execute q).run answer s).result = unanswered q e := execute_of_message_error hm s
    exact ⟨hrun.1, e.message, hrun.2⟩
  | ok m =>
    obtain ⟨url, hurl, huri, htoken, hspace, -⟩ := (message_of_http hbase).1 hm
    rcases h with hnone | hfits | hfits | ⟨url', hurl', hbarred⟩
    · exact absurd (hurl.symm.trans hnone) (Option.some_ne_none _)
    · exact absurd htoken hfits
    · exact absurd hspace hfits
    · rw [Option.some.inj (hurl'.symm.trans hurl), huri] at hbarred
      cases hbarred

/-- Everything else is sent once. -/
theorem execute_of_fit
    (hfinal : ∀ m a, (answer m s).1 = some a → a.redirect? client.names m = none)
    (htoken : Fits q.token) (hspace : Fits client.nameSpace) {url : Url}
    (hurl : Url.parse? client.names (client.address q.path) = some url)
    (huri : url.isUri = true) :
    ∃ m, ((client.execute q).run answer s).exchanges = [(m, (answer m s).1)] ∧
      m.method = q.method ∧ m.url = url ∧ Carries q.token client.nameSpace q.body m ∧
      ((client.execute q).run answer s).result =
        match (answer m s).1 with
        | none => unanswered q (.unanswered url)
        | some a => judge q a := by
  have hm := (message_of_http hbase).2 ⟨url, hurl, huri, htoken, hspace, rfl⟩
  obtain ⟨hexchanges, hresult⟩ := execute_of_final hm (hfinal _)
  exact ⟨_, hexchanges, rfl, rfl, carries_of_message hm, hresult⟩

end Plain

/-- **From steps to the wire.** A call over a plain connection, both built in any steps, sends one
message as long as the server does not refer it elsewhere. The message has the own method and
address of the call, and of token, namespace and body what the last step of each kind gave: the
token and the namespace in a header of their own unless they are empty, a document as compact JSON
with its content type, bytes as they are. Nothing is sent if a payload cannot be encoded, which is
the error; nor if the address cannot be read or requested, or the token or the namespace has a
control character, and then there is no response. -/
theorem call_on_wire (p : Primitives) (files : Files)
    (host port pre method path operation : String) (expected : UInt16)
    (cs : List Connection.Step) (ss : List Request.Step) (client : HttpClient)
    (hclient : ofConnection p files
      (Connection.built ("http://" ++ host ++ ":" ++ port ++ pre) cs) = .ok client)
    (answer : Message → σ → Option Response × σ)
    (hfinal : ∀ m s a, (answer m s).1 = some a → a.redirect? p.names m = none) (s : σ) :
    let url? := Url.parse? p.names (trimEnd ("http://" ++ host ++ ":" ++ port ++ pre) ++ "/" ++
      trimStart path)
    let token := lastSet Request.Step.token? ss none
    let nameSpace := lastSet Connection.Step.nameSpace? cs none
    let body := lastSet Request.Step.body? ss .empty
    let out := (client.call (.new method path operation expected) ss).run answer s
    (¬Request.Encodable ss →
      out.exchanges = [] ∧ ∃ reason, out.result = .error (.encode operation reason)) ∧
    (Request.Encodable ss →
      (url? = none ∨ ¬Fits token ∨ ¬Fits nameSpace ∨
        ∃ url, url? = some url ∧ url.isUri = false) →
      out.exchanges = [] ∧ ∃ source, out.result = .error (.noResponse operation source)) ∧
    (Request.Encodable ss → Fits token → Fits nameSpace → ∀ url, url? = some url →
      url.isUri = true →
      ∃ m, out.exchanges = [(m, (answer m s).1)] ∧ m.method = method ∧ m.url = url ∧
        Carries token nameSpace body m ∧
        out.result =
          let q : Request := ⟨token, method, path, body, operation, expected⟩
          match (answer m s).1 with
          | none => unanswered q (.unanswered url)
          | some a => judge q a) := by
  intro url? token nameSpace body out
  obtain rfl : client =
      ⟨p.names, trimEnd ("http://" ++ host ++ ":" ++ port ++ pre), nameSpace⟩ := by
    rw [ofConnection_eq_ok hclient, Connection.baseUrl_built, Connection.nameSpace_built]
  obtain ⟨rest, hbase⟩ := toList_address p.names host port pre path nameSpace
  let q := (Request.new method path operation expected).after ss
  refine ⟨?failed, ?unfit, ?sent⟩
  case failed =>
    intro hencode
    cases hsteps : (Request.new method path operation expected).steps ss with
    | ok q => exact absurd (Request.steps_eq_ok_iff.1 hsteps).1 hencode
    | error e =>
      obtain ⟨before, p, rest, reason, -, -, -, rfl⟩ := Request.steps_eq_error_iff.1 hsteps
      simp only [out, call, hsteps]
      exact ⟨rfl, reason, rfl⟩
  case unfit =>
    intro hencode hunfit
    simp only [out, call_of_encodable hencode]
    exact execute_of_unfit (q := q) hbase hunfit
  case sent =>
    intro hencode htoken hspace url hurl huri
    simp only [out, call_of_encodable hencode]
    exact execute_of_fit (q := q) hbase (fun m a => hfinal m s a) htoken hspace hurl huri

/-- Two tokens, two namespaces and two bodies, of which the last ones are sent. -/
theorem wire_of_last_steps :
    let steps : List Request.Step :=
      [.token "a", .raw [0x78], .payload (.document (.object [("k", .bool true)])), .token "s.x"]
    let p : Primitives := ⟨fun _ => none, fun _ => .ok (), fun _ => .ok ()⟩
    let client : HttpClient := ⟨p.names, "http://127.0.0.1:8200/pre", none⟩
    let answer := fun (_ : Message) (n : Nat) =>
      (some (⟨204, [], [], true⟩ : Response), n + 1)
    ∃ m, ((client.call (.new "PUT" "/v1/x" "write" 204) steps).run answer 0).exchanges =
        [(m, some ⟨204, [], [], true⟩)] ∧
      Carries (some "s.x") none (.json (.object [("k", .bool true)])) m := by
  intro steps p client answer
  have hencode : Request.Encodable steps := by
    intro p hp
    simp only [steps, List.mem_cons, List.not_mem_nil, or_false, Request.Step.payload.injEq,
      reduceCtorEq, false_or] at hp
    obtain rfl := hp
    exact ⟨_, rfl⟩
  have hfinal : ∀ m s a, (answer m s).1 = some a → a.redirect? p.names m = none := by
    rintro m s a ⟨⟩
    rfl
  obtain ⟨url, hurl, huri⟩ : ∃ url,
      Url.parse? p.names "http://127.0.0.1:8200/pre/v1/x" = some url ∧ url.isUri = true :=
    (Option.any_eq_true _ _).1 (by decide +kernel)
  obtain ⟨m, hsent, -, -, hcarries, -⟩ := (call_on_wire p (fun _ => .error .notFound) "127.0.0.1"
    "8200" "/pre/" "PUT" "/v1/x" "write" 204 [.nameSpace (some "edge"), .nameSpace (some "")] steps
    client rfl answer hfinal 0).2.2 hencode (by decide) (by decide) url hurl huri
  exact ⟨m, hsent, hcarries⟩

end HttpClient

end Net

end SecretStore
