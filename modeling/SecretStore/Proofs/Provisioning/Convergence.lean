import SecretStore.Proofs.MountPoints
import SecretStore.Proofs.Provisioning.Parts

/-!
# Provisioning twice

A run mounts what a listing does not show. `Backend` is what has to be known of a store for this to
come to an end: what it lists, and that a mount it accepts changes just the entry it is about. Then
after a run that succeeds the store shows every engine of the plan, however their mount points are
spelled, and no later run of the plan mounts anything (`run_converges`).

* `Mounts.establishes`: after its step an engine is shown, and nothing else has changed;
* `run_keeps`: a run that finds every engine of its plan shown leaves it at that.
-/

namespace SecretStore

open Interaction Client

namespace Client

/-- The document of a mount carries the type of its engine. -/
theorem member?_type_toJson (m : MountSpec) :
    m.toJson.member? "type" = some (.string m.engine.name) := by
  simp [MountSpec.toJson, Json.Value.member?, Json.Value.lookup]

end Client

/-- What answers for a store, and the mounts that it lists. -/
structure Backend (σ : Type) where
  answer : Request → σ → Reply × σ
  table : σ → MountTable
  /-- The names in the listing are mount points with one slash behind them. -/
  keyed (s : σ) : (table s).Keyed
  /-- A response stands for the status that its request declares. This is the contract of every
  executor, which reports any other status as an error. -/
  expected (q : Request) (s : σ) (x : Exchange) :
    (answer q s).1 = .ok x → x.status = q.expectedStatus
  /-- A listing that is returned shows the mounts. -/
  listed (token : String) (s : σ) (t : MountTable) :
    (answer (listRequest token) s).1.mountTable = .ok t →
      ∀ name, t.entry? name = MountTable.entry? (table s) name
  /-- A mount that is answered 204 sets its entry to the type that was sent, and no other entry. -/
  mounted (q : Request) (s : σ) (x : Exchange) (point engineType : String) (v : Json.Value) :
    q.method = "POST" → q.path = mountsPath ++ "/" ++ point → Mount.Bare point →
    q.body = .json v → v.member? "type" = some (.string engineType) →
    (answer q s).1 = .ok x → x.status = 204 →
      (∃ m, MountTable.entry? (table (answer q s).2) (point ++ "/") = some m ∧
        m.engineType = engineType) ∧
      ∀ name ≠ point ++ "/",
        MountTable.entry? (table (answer q s).2) name = MountTable.entry? (table s) name
  /-- What is not about a mount changes no entry. This frame condition makes the listing that of one
  map, which only mounts change. -/
  kept (q : Request) (s : σ) : q.kind? ≠ some .mount →
    ∀ name, MountTable.entry? (table (answer q s).2) name = MountTable.entry? (table s) name

namespace Plan

variable {σ : Type} {b : Backend σ} {plan : Plan} {token : String} {s s' : σ}
variable {xs : List (Request × Reply)} {target : Option Target}

/-! ### One step -/

/-- Without a mount the listing stays as it is. -/
theorem entry?_of_answered (h : Answered b.answer s xs s')
    (hx : ∀ x ∈ xs, x.1.kind? ≠ some .mount) (name : String) :
    MountTable.entry? (b.table s') name = MountTable.entry? (b.table s) name := by
  induction h with
  | nil s => rfl
  | @cons q s s' xs _ ih =>
    rw [ih fun x hm => hx x (List.mem_cons_of_mem _ hm)]
    exact b.kept q s (hx _ List.mem_cons_self) name

theorem isIn_of_answered (h : Answered b.answer s xs s')
    (hx : ∀ x ∈ xs, x.1.kind? ≠ some .mount) (t : Target) :
    t.isIn (b.table s') = t.isIn (b.table s) :=
  MountTable.hasEngine_congr (entry?_of_answered h hx)

theorem isIn_of_listed {reply : Reply} {table : MountTable}
    (hr : reply = (b.answer (listRequest token) s).1) (ht : reply.mountTable = .ok table)
    (t : Target) : t.isIn table = t.isIn (b.table s) :=
  MountTable.hasEngine_congr (b.listed token s table (hr ▸ ht))

theorem isIn_iff (b : Backend σ) (s : σ) (t : Target) :
    t.isIn (b.table s) = true ↔
      ∃ m, MountTable.entry? (b.table s) (Mount.point t.mountPoint ++ "/") = some m ∧
        m.engineType = t.spec.engine.name :=
  MountTable.hasEngine_iff (b.keyed s)

/-- A mount that is accepted sets the entry of its target. -/
theorem entry?_of_mounted {t : Target} {x : Exchange}
    (hx : (b.answer (t.request token) s).1 = .ok x) :
    t.isIn (b.table (b.answer (t.request token) s).2) = true ∧
      ∀ name ≠ Mount.point t.mountPoint ++ "/",
        MountTable.entry? (b.table (b.answer (t.request token) s).2) name =
          MountTable.entry? (b.table s) name := by
  have hstatus : x.status = 204 := b.expected _ _ _ hx
  have h := b.mounted (t.request token) s x (Mount.point t.mountPoint) t.spec.engine.name
    t.spec.toJson rfl rfl (Mount.bare_point _) rfl (member?_type_toJson _) hx hstatus
  exact ⟨(isIn_iff b _ t).2 h.1, h.2⟩

/-- The step of an engine that succeeds leaves it shown, and other entries as they were. -/
theorem Mounts.establishes {t : Target} {names : List String}
    (h : Mounts token (some t) xs (.ok names)) (ha : Answered b.answer s xs s') :
    t.isIn (b.table s') = true ∧
      ∀ name ≠ Mount.point t.mountPoint ++ "/",
        MountTable.entry? (b.table s') name = MountTable.entry? (b.table s) name := by
  cases h with
  | @present t reply table ht hm =>
    have hkind : ∀ x ∈ [(listRequest token, reply)], x.1.kind? ≠ some .mount := by
      intro x hx
      rw [List.mem_singleton.1 hx, kind?_listRequest]
      decide
    obtain ⟨hr, -⟩ := answered_cons.1 ha
    refine ⟨?_, fun name _ => entry?_of_answered ha hkind name⟩
    rw [isIn_of_answered ha hkind, ← isIn_of_listed hr ht, hm]
  | @accepted t reply table x ht hm =>
    obtain ⟨hr, hrest⟩ := answered_cons.1 ha
    obtain ⟨hx, hend⟩ := answered_cons.1 hrest
    obtain rfl := answered_nil.1 hend
    have hlist : (listRequest token).kind? ≠ some .mount := by
      rw [kind?_listRequest]
      decide
    obtain ⟨hin, hother⟩ := entry?_of_mounted hx.symm
    refine ⟨hin, fun name hname => ?_⟩
    rw [hother name hname]
    exact b.kept (listRequest token) s hlist name

/-- The step of an engine that is shown already mounts nothing. -/
theorem Mounts.idle {r : Except Failure (List String)} (h : Mounts token target xs r)
    (ha : Answered b.answer s xs s') (hs : ∀ t, target = some t → t.isIn (b.table s) = true) :
    (∀ x ∈ xs, x.1.kind? ≠ some .mount) ∧ ∀ names, r = .ok names → names = [] := by
  have hlist {reply : Reply} : ∀ x ∈ [(listRequest token, reply)], x.1.kind? ≠ some .mount := by
    intro x hx
    rw [List.mem_singleton.1 hx, kind?_listRequest]
    decide
  cases h with
  | absent => exact ⟨nofun, fun _ hn => (Except.ok.inj hn).symm⟩
  | unlisted he => exact ⟨hlist, nofun⟩
  | present ht hm => exact ⟨hlist, fun _ hn => (Except.ok.inj hn).symm⟩
  | refused ht hm | accepted ht hm =>
    -- the listing would have shown the engine
    rw [isIn_of_listed (answered_cons.1 ha).1 ht, hs _ rfl] at hm
    cases hm

/-! ### A run -/

/-- The store shows every engine of the plan. -/
def Shown (b : Backend σ) (plan : Plan) (s : σ) : Prop :=
  ∀ t ∈ plan.targets, t.isIn (b.table s) = true

theorem shown_iff : Shown b plan s ↔
    (∀ t, plan.keyValueTarget = some t → t.isIn (b.table s) = true) ∧
      ∀ t, plan.consulTarget = some t → t.isIn (b.table s) = true := by
  simp only [Shown, targets, List.mem_append, Option.mem_toList, or_imp, forall_and]

theorem Shown.of_answered (h : Shown b plan s) (ha : Answered b.answer s xs s')
    (hx : ∀ x ∈ xs, x.1.kind? ≠ some .mount) : Shown b plan s' := by
  intro t ht
  rw [isIn_of_answered ha hx, h t ht]

/-- A step that sends requests of other kinds mounts nothing. -/
theorem not_mount_of_kinds {kinds : List (Option Request.Kind)} (h : ∀ x ∈ xs, x.1.kind? ∈ kinds)
    (hk : some .mount ∉ kinds) : ∀ x ∈ xs, x.1.kind? ≠ some .mount := by
  intro x hx hmount
  exact hk (hmount ▸ h x hx)

theorem not_mount_append {ys : List (Request × Reply)} (h : ∀ x ∈ xs, x.1.kind? ≠ some .mount)
    (h' : ∀ x ∈ ys, x.1.kind? ≠ some .mount) : ∀ x ∈ xs ++ ys, x.1.kind? ≠ some .mount := by
  intro x hx
  rcases List.mem_append.1 hx with hx | hx
  · exact h x hx
  · exact h' x hx

theorem Prepares.not_mount {v : Except Failure (Health × Option InitMaterial)}
    (h : plan.Prepares xs v) : ∀ x ∈ xs, x.1.kind? ≠ some .mount :=
  not_mount_of_kinds (fun _ hx => kind?_of_prepares h hx) (by decide)

theorem Unseals.not_mount {health : Health} {init : Option InitMaterial} {r : Except Failure Unit}
    (h : plan.Unseals health init xs r) : ∀ x ∈ xs, x.1.kind? ≠ some .mount := by
  intro x hx
  rw [kind?_of_unseals h hx]
  decide

theorem Installs.not_mount {policies : List Policy} {r : Except Failure (List String)}
    (h : Installs token policies xs r) : ∀ x ∈ xs, x.1.kind? ≠ some .mount := by
  intro x hx
  rw [kind?_of_installs h hx]
  decide

/-- The mount points of the two engines differ, slashes around them apart. -/
def Separate (plan : Plan) : Prop :=
  ∀ t t', plan.keyValueTarget = some t → plan.consulTarget = some t' →
    Mount.point t.mountPoint ≠ Mount.point t'.mountPoint

/-- A run that succeeds leaves every engine of its plan shown. -/
theorem shown_of_succeeds {o : Outcome} (hsep : plan.Separate) (h : plan.Succeeds xs o)
    (ha : Answered b.answer s xs s') : Shown b plan s' := by
  cases h with
  | @mk ys us ps ks cs health init token policies keyValue consul hp hu ht hi hk hc =>
  obtain ⟨_, -, ha⟩ := answered_append.1 ha
  obtain ⟨_, -, ha⟩ := answered_append.1 ha
  obtain ⟨_, -, ha⟩ := answered_append.1 ha
  obtain ⟨between, hks, hcs⟩ := answered_append.1 ha
  have hkeyValue : ∀ t, plan.keyValueTarget = some t → t.isIn (b.table between) = true := by
    intro t ht
    rw [ht] at hk
    exact (hk.establishes hks).1
  rw [shown_iff]
  cases hconsul : plan.consulTarget with
  | none =>
    rw [hconsul] at hc
    cases hc with
    | absent =>
      rw [answered_nil.1 hcs]
      exact ⟨hkeyValue, nofun⟩
  | some t' =>
    rw [hconsul] at hc
    obtain ⟨hin, hother⟩ := hc.establishes hcs
    refine ⟨fun t ht => ?_, fun t ht => Option.some.inj ht ▸ hin⟩
    -- the mount of the second engine is none of the entry of the first one
    have hne : Mount.point t.mountPoint ++ "/" ≠ Mount.point t'.mountPoint ++ "/" := by
      intro heq
      have hpoint := congrArg Mount.point heq
      rw [Mount.point_append_slash (Mount.bare_point _),
        Mount.point_append_slash (Mount.bare_point _)] at hpoint
      exact hsep t t' ht hconsul hpoint
    rw [isIn_iff, hother _ hne, ← isIn_iff]
    exact hkeyValue t ht

theorem Administers.idle {v : Except Failure (List String × List String)}
    (h : plan.Administers token xs v) (ha : Answered b.answer s xs s') (hs : Shown b plan s) :
    (∀ x ∈ xs, x.1.kind? ≠ some .mount) ∧ ∀ done, v = .ok done → done.2 = [] := by
  cases h with
  | unpolicied hp => exact ⟨hp.not_mount, nofun⟩
  | keyValueless hp hk =>
    obtain ⟨_, hps, hks⟩ := answered_append.1 ha
    have hs₁ := hs.of_answered hps hp.not_mount
    exact ⟨not_mount_append hp.not_mount (hk.idle hks (shown_iff.1 hs₁).1).1, nofun⟩
  | consulless hp hk hc | finished hp hk hc =>
    obtain ⟨_, hps, hrest⟩ := answered_append.1 ha
    obtain ⟨_, hks, hcs⟩ := answered_append.1 hrest
    have hs₁ := hs.of_answered hps hp.not_mount
    obtain ⟨hk₁, hk₂⟩ := hk.idle hks (shown_iff.1 hs₁).1
    have hs₂ := hs₁.of_answered hks hk₁
    obtain ⟨hc₁, hc₂⟩ := hc.idle hcs (shown_iff.1 hs₂).2
    refine ⟨not_mount_append hp.not_mount (not_mount_append hk₁ hc₁), ?_⟩
    -- only where both steps succeed there is something to report
    rintro _ ⟨⟩ <;> simp [hk₂ _ rfl, hc₂ _ rfl]

theorem Configures.idle {health : Health} {init : Option InitMaterial}
    {c : Except Failure Configured} (h : plan.Configures health init xs c)
    (ha : Answered b.answer s xs s') (hs : Shown b plan s) :
    (∀ x ∈ xs, x.1.kind? ≠ some .mount) ∧ ∀ done, c = .ok done → done.enginesEnabled = [] := by
  cases h with
  | stuck hu => exact ⟨hu.not_mount, nofun⟩
  | tokenless hu ht => exact ⟨hu.not_mount, nofun⟩
  | @administered us xs token v hu ht hadm =>
    obtain ⟨_, hus, hxs⟩ := answered_append.1 ha
    obtain ⟨hx, hdone⟩ := hadm.idle hxs (hs.of_answered hus hu.not_mount)
    refine ⟨not_mount_append hu.not_mount hx, ?_⟩
    intro done hv
    cases v with
    | error f => cases hv
    | ok adm =>
      cases hv
      exact hdone adm rfl

/-- A run that finds every engine of its plan shown mounts nothing and leaves them shown. -/
theorem run_keeps (hs : Shown b plan s) :
    let out := plan.run.run b.answer s
    (∀ x ∈ out.exchanges, x.1.kind? ≠ some .mount) ∧
      (∀ o, out.result = .ok o → o.enginesEnabled = []) ∧ Shown b plan out.state := by
  intro out
  have ha : Answered b.answer s out.exchanges out.state := answered_run b.answer plan.run s
  have hidle : (∀ x ∈ out.exchanges, x.1.kind? ≠ some .mount) ∧
      ∀ o, out.result = .ok o → o.enginesEnabled = [] := by
    rcases course_of_run (transcript_run b.answer plan.run s) with
      ⟨f, hp, hr⟩ | ⟨ys, zs, health, init, c, hxs, hp, hc, hr⟩
    · exact ⟨hp.not_mount, fun o ho => by cases hr.symm.trans ho⟩
    · rw [show out.exchanges = ys ++ zs from hxs] at ha ⊢
      obtain ⟨_, hys, hzs⟩ := answered_append.1 ha
      obtain ⟨hz, hdone⟩ := hc.idle hzs (hs.of_answered hys hp.not_mount)
      refine ⟨not_mount_append hp.not_mount hz, fun o ho => ?_⟩
      have ho' : conclude health init c = .ok o := hr.symm.trans ho
      cases c with
      | error f => cases ho'
      | ok done =>
        cases ho'
        exact hdone done rfl
  exact ⟨hidle.1, hidle.2, hs.of_answered ha hidle.1⟩

/-- The state after some runs of a plan. -/
def after (b : Backend σ) (plan : Plan) : Nat → σ → σ
  | 0, s => s
  | n + 1, s => after b plan n (plan.run.run b.answer s).state

theorem Shown.after (hs : Shown b plan s) (n : Nat) : Shown b plan (after b plan n s) := by
  induction n generalizing s with
  | zero => exact hs
  | succ n ih => exact ih (run_keeps hs).2.2

/-- **Provisioning twice mounts nothing twice.** After a run that succeeds, and after any number of
further runs, the store shows the engines of the plan at their mount points, whichever way these are
spelled; the next run mounts nothing, and reports so if it succeeds. -/
theorem run_converges (b : Backend σ) (plan : Plan) (s : σ) (o : Outcome)
    (hpoints : ∀ m ∈ plan.keyValue, ∀ c ∈ plan.consul,
      Mount.point m.mountPoint ≠ Mount.point c.mountPoint)
    (h : (plan.run.run b.answer s).result = .ok o) (n : Nat) :
    let s' := after b plan (n + 1) s
    let out := plan.run.run b.answer s'
    (∀ m ∈ plan.keyValue, (b.table s').hasEngine m.mountPoint "kv" = true) ∧
    (∀ m ∈ plan.consul, (b.table s').hasEngine m.mountPoint "consul" = true) ∧
    (∀ x ∈ out.exchanges, x.1.kind? ≠ some .mount) ∧
    ∀ o', out.result = .ok o' → o'.enginesEnabled = [] := by
  intro s' out
  have hsep : plan.Separate := by
    intro t t' ht ht'
    obtain ⟨m, hm, rfl⟩ := Option.map_eq_some_iff.1 ht
    obtain ⟨c, hc, rfl⟩ := Option.map_eq_some_iff.1 ht'
    exact hpoints m hm c hc
  have hfirst : plan.Succeeds (plan.run.run b.answer s).exchanges o := by
    refine succeeds_of_run ?_
    rw [← h]
    exact transcript_run b.answer plan.run s
  have hshown : Shown b plan s' :=
    (shown_of_succeeds hsep hfirst (answered_run b.answer plan.run s)).after n
  obtain ⟨hkeyValue, hconsul⟩ := shown_iff.1 hshown
  refine ⟨fun m hm => ?_, fun m hm => ?_, (run_keeps hshown).1, (run_keeps hshown).2.1⟩
  · exact hkeyValue ⟨m.mountPoint, .keyValue m.version, "update mounts"⟩ (congrArg _ hm)
  · exact hconsul ⟨m.mountPoint, .consul m.defaultLeaseTtl, "update mounts for Consul"⟩
      (congrArg _ hm)

/-! ### A store that takes one mount -/

/-- The type that a request posts. -/
def posted (q : Request) : Option String :=
  match q.body with
  | .json v => (v.member? "type").bind (·.text?)
  | _ => none

/-- The mounts of a store with a Consul engine, before and after it takes a key/value engine. -/
def mountsOf : Bool → MountTable
  | false => ⟨[("c/", ⟨"consul", ""⟩)]⟩
  | true => ⟨[("c/", ⟨"consul", ""⟩), ("k/", ⟨"kv", ""⟩)]⟩

/-- The listing of that store. -/
def listingOf : Bool → Bytes
  | false => .ofString "\x7b\"data\":\x7b\"c/\":\x7b\"type\":\"consul\"\x7d\x7d\x7d"
  | true => .ofString
    "\x7b\"data\":\x7b\"c/\":\x7b\"type\":\"consul\"\x7d,\"k/\":\x7b\"type\":\"kv\"\x7d\x7d\x7d"

theorem whole_listingOf (s : Bool) :
    Json.whole MountTable.shape.reader (listingOf s) = .ok (mountsOf s) := by
  cases s with
  | false => decide +kernel
  | true => decide +kernel

/-- What answers for that store: it takes a key/value engine at "k", and refuses other mounts. -/
def answerOf (q : Request) (s : Bool) : Reply × Bool :=
  match q.kind? with
  | some .listing => (.ok ⟨q.operation, q.expectedStatus, listingOf s⟩, s)
  | some .mount =>
    if q.path = mountPath "k" ∧ posted q = some "kv" then
      (.ok ⟨q.operation, q.expectedStatus, []⟩, true)
    else (.error (.unexpectedStatus q.operation q.expectedStatus 400 []), s)
  | _ => (.ok ⟨q.operation, q.expectedStatus, []⟩, s)

theorem answerOf_listing (token : String) (s : Bool) :
    (answerOf (listRequest token) s).1.mountTable = .ok (mountsOf s) := by
  rw [answerOf, kind?_listRequest]
  show Exchange.decode _ _ = _
  rw [Exchange.decode, whole_listingOf]

theorem answerOf_mount {q : Request} {s : Bool} {x : Exchange} (hk : q.kind? = some .mount)
    (hx : (answerOf q s).1 = .ok x) :
    q.path = mountPath "k" ∧ posted q = some "kv" ∧ (answerOf q s).2 = true := by
  rw [answerOf, hk] at hx ⊢
  dsimp only at hx ⊢
  split at hx
  case isTrue h => exact ⟨h.1, h.2, by rw [if_pos h]⟩
  case isFalse h => cases hx

theorem answerOf_kept {q : Request} {s : Bool} (hk : q.kind? ≠ some .mount) :
    (answerOf q s).2 = s := by
  rw [answerOf]
  split
  case h_2 h => exact absurd h hk
  all_goals rfl

theorem keyed_mountsOf (s : Bool) : (mountsOf s).Keyed := by
  intro name m hm
  have hmem : (name, m) ∈ (mountsOf s).mounts := MountTable.mem_of_entry? hm
  have hc : Mount.Bare "c" := by decide
  have hk : Mount.Bare "k" := by decide
  cases s with
  | false =>
    simp only [mountsOf, List.mem_singleton, Prod.mk.injEq] at hmem
    exact ⟨"c", hc, hmem.1⟩
  | true =>
    simp only [mountsOf, List.mem_cons, List.not_mem_nil, or_false, Prod.mk.injEq] at hmem
    rcases hmem with ⟨rfl, -⟩ | ⟨rfl, -⟩
    · exact ⟨"c", hc, rfl⟩
    · exact ⟨"k", hk, rfl⟩

/-- That store as far as its mounts go. -/
def consulStore : Backend Bool where
  answer := answerOf
  table := mountsOf
  keyed := keyed_mountsOf
  expected q s x hx := by
    rw [answerOf] at hx
    split at hx
    case h_2 =>
      split at hx
      · cases hx
        rfl
      · cases hx
    all_goals
      cases hx
      rfl
  listed token s t ht name := by
    rw [answerOf_listing] at ht
    rw [Except.ok.inj ht]
  mounted q s x point engineType v hmethod hpath hbare hbody htype hx _ := by
    have hk : q.kind? = some .mount := by
      rw [Request.kind?, hmethod, hpath, Request.Kind.of?, if_pos ⟨rfl, prefix_toList_append _ _⟩]
    obtain ⟨hsecret, hposted, hstate⟩ := answerOf_mount hk hx
    have hpoint : point = "k" := by
      rw [hpath, mountPath, show Mount.point "k" = "k" by decide] at hsecret
      simpa [String.toList_append, ← String.toList_inj] using hsecret
    have hengine : engineType = "kv" := by
      simpa [posted, hbody, htype, Json.Value.text?] using hposted
    rw [hstate, hpoint, hengine]
    refine ⟨⟨⟨"kv", ""⟩, rfl, rfl⟩, fun name hname => ?_⟩
    cases s with
    | true => rfl
    | false =>
      rw [show "k" ++ "/" = "k/" by decide] at hname
      have hne : ("k/" == name) = false := beq_false_of_ne hname.symm
      simp [mountsOf, MountTable.entry?, List.find?_cons, hne]
  kept q s hk name := by
    rw [answerOf_kept hk]

/-- A plan with both engines, spelled with slashes. -/
def slashed : Plan where
  secretShares := 1
  secretThreshold := 1
  unsealKeys := []
  authToken := some "root"
  policies := []
  keyValue := some { mountPoint := "/k/" }
  consul := some { mountPoint := "c//" }

theorem run_converges_of_slashed :
    let b := consulStore
    (slashed.run.run b.answer false).result = .ok ⟨.active, none, false, [], ["/k/"]⟩ ∧
      ∀ x ∈ (slashed.run.run b.answer (after b slashed 1 false)).exchanges,
        x.1.kind? ≠ some .mount := by
  have hpoints : ∀ m ∈ slashed.keyValue, ∀ c ∈ slashed.consul,
      Mount.point m.mountPoint ≠ Mount.point c.mountPoint := by
    rintro _ ⟨⟩ _ ⟨⟩
    decide
  have h : (slashed.run.run answerOf false).result =
      .ok ⟨.active, none, false, [], ["/k/"]⟩ := by decide +kernel
  exact ⟨h, (run_converges consulStore slashed false _ hpoints h 0).2.2.1⟩

end Plan

end SecretStore
