import SecretStore.Client
import SecretStore.Net.HttpClient
import SecretStore.Proofs.Json.Printed

/-!
# Messages and their bodies

`Forms client r m` says which message `m` a client forms of a request `r`. Four requests have a
document as their body; `Spells` says that such a body is a JSON text, and that the text is read
back as the document.

* `message_eq_ok_iff`: a client forms exactly one message of a request, or none.
* `spells_of_printable`: a document whose numbers fit is read back from the body that carries it.
* `bodies_spell_values`: the documents of the four requests, and that their texts differ when their
  values do.
-/

namespace SecretStore

namespace Net.HttpClient

/-- The message that a client forms of a request: its own method, address and body, with the token
and the namespace in front of the other headers, and in front of these what the address says about
the user. -/
structure Forms (client : HttpClient) (r : Request) (m : Message) : Prop where
  url : Url.parse? client.names (client.address r.path) = some m.url
  host : m.url.host ≠ none ∧ m.url.host ≠ some []
  usable : isUsable m.url = true
  method : m.method = r.method
  headers : ∃ token nameSpace, header? "x-vault-token" r.token = some token ∧
    header? "x-vault-namespace" client.nameSpace = some nameSpace ∧
    m.headers = authorization (Url.userInfo? (client.address r.path)) ++ token ++ nameSpace ++
      commonHeaders ++ headersOf r.body
  body : m.body = bytesOf r.body

theorem message_eq_ok_iff {client : HttpClient} {r : Request} {m : Message} :
    client.message r = .ok m ↔ Forms client r m := by
  constructor
  · intro h
    simp only [message] at h
    split at h
    · cases h
    next url hurl =>
    split at h
    · cases h
    next hhost =>
    rw [not_or] at hhost
    split at h
    next token nameSpace htoken hspace =>
      split at h
      · next husable =>
        cases h
        refine ⟨hurl, ⟨?_, hhost.2⟩, husable, rfl, ⟨token, nameSpace, htoken, hspace, rfl⟩, rfl⟩
        exact fun hnone => hhost.1 (Option.isNone_iff_eq_none.2 hnone)
      · cases h
    · cases h
  · rintro ⟨hurl, ⟨hnone, hempty⟩, husable, hmethod, ⟨token, nameSpace, htoken, hspace, hheaders⟩,
      hbody⟩
    have hhost : ¬(m.url.host.isNone ∨ m.url.host = some []) := by
      rintro (h | h)
      · exact hnone (Option.isNone_iff_eq_none.1 h)
      · exact hempty h
    simp only [message, hurl, if_neg hhost, htoken, hspace, if_pos husable, ← hmethod, ← hheaders,
      ← hbody]

end Net.HttpClient

theorem Engine.name_injective {e e' : Engine} (h : e.name = e'.name) : e = e' := by
  have hn := congrArg Engine.ofName? h
  simpa only [Engine.ofName?_name, Option.some.injEq] using hn

namespace Client

open Net Json

/-- The body of a request spells a document, on its way into a message as well. -/
structure Spells (r : Request) (v : Json.Value) : Prop where
  /-- The whole of the body is read as the document. -/
  parsed : Value.parse (HttpClient.bytesOf r.body) = .ok v
  /-- The body is what every message of the request carries. -/
  carried : ∀ client m, HttpClient.message client r = .ok m → m.body = HttpClient.bytesOf r.body

theorem spells_of_printable {d : Nat} {v : Json.Value} {r : Request} (h : Printable d v)
    (hd : d < 128) : Spells (r.withJson v) v where
  parsed := parse_compact h hd
  carried _ _ hm := (HttpClient.message_eq_ok_iff.1 hm).body

/-- A body spells one document only. -/
theorem Spells.eq {r r' : Request} {v v' : Json.Value} (h : Spells r v) (h' : Spells r' v')
    (hb : HttpClient.bytesOf r.body = HttpClient.bytesOf r'.body) : v = v' := by
  have hv : (.ok v : Except Json.Error Json.Value) = .ok v' := by
    rw [← h.parsed, ← h'.parsed, hb]
  exact Except.ok.inj hv

theorem printable_numeral {d : Nat} (n : UInt32) : Printable d (numeral n) := by
  have hn := n.toNat_lt
  exact .number (Nat.le_trans (Nat.le_of_lt hn) (by decide))

theorem numeral_injective {n n' : UInt32} (h : numeral n = numeral n') : n = n' := by
  simpa only [numeral, Json.Value.number.injEq, Number.unsigned.injEq, UInt32.toNat_inj] using h

/-! ### The documents of the requests -/

theorem spells_initRequest (shares threshold : UInt32) :
    Spells (initRequest shares threshold)
      (.object [("secret_shares", numeral shares), ("secret_threshold", numeral threshold)]) := by
  refine spells_of_printable (d := 1) (.object ?_) (by decide)
  simp only [List.mem_cons, List.not_mem_nil, or_false, forall_eq_or_imp, forall_eq]
  exact ⟨printable_numeral _, printable_numeral _⟩

theorem spells_unsealRequest (key : String) :
    Spells (unsealRequest key) (.object [("key", .string key)]) := by
  refine spells_of_printable (d := 1) (.object ?_) (by decide)
  simp only [List.mem_singleton, forall_eq]
  exact .string key

theorem spells_policyRequest (token name document : String) :
    Spells (policyRequest token name document) (.object [("policy", .string document)]) := by
  refine spells_of_printable (d := 1) (.object ?_) (by decide)
  simp only [List.mem_singleton, forall_eq]
  exact .string document

/-- The members of the document that mounts an engine. -/
def MountSpec.members (m : MountSpec) : List (String × Json.Value) :=
  (m.leaseTtl.map fun ttl => ("config", .object [("default_lease_ttl", .string ttl)])).toList ++
    [("description", .string m.description)] ++
    (m.version.map fun version => ("options", .object [("version", .string version)])).toList ++
    [("type", .string m.engine.name)]

theorem MountSpec.toJson_eq (m : MountSpec) : m.toJson = .object m.members := by
  cases hl : m.leaseTtl <;> cases hv : m.version <;> simp [toJson, members, hl, hv]

theorem MountSpec.mem_members {m : MountSpec} {name : String} {v : Json.Value} :
    (name, v) ∈ m.members ↔
      (name = "config" ∧
        ∃ ttl, m.leaseTtl = some ttl ∧ v = .object [("default_lease_ttl", .string ttl)]) ∨
      (name = "description" ∧ v = .string m.description) ∨
      (name = "options" ∧
        ∃ version, m.version = some version ∧ v = .object [("version", .string version)]) ∨
      (name = "type" ∧ v = .string m.engine.name) := by
  cases hl : m.leaseTtl <;> cases hv : m.version <;> simp [members, hl, hv]

theorem MountSpec.printable_members (m : MountSpec) : ∀ x ∈ m.members, Printable 1 x.2 := by
  have hnested (name s : String) : Printable 1 (.object [(name, .string s)]) := by
    refine .object ?_
    simp only [List.mem_singleton, forall_eq]
    exact .string s
  rintro ⟨name, v⟩ hx
  obtain ⟨-, ttl, -, rfl⟩ | ⟨-, rfl⟩ | ⟨-, version, -, rfl⟩ | ⟨-, rfl⟩ := mem_members.1 hx
  · exact hnested _ _
  · exact .string _
  · exact hnested _ _
  · exact .string _

theorem spells_mountRequest (token mountPoint : String) (m : MountSpec) (operation : String) :
    Spells (mountRequest token mountPoint m operation) (.object m.members) := by
  rw [mountRequest, m.toJson_eq]
  exact spells_of_printable (d := 2) (.object m.printable_members) (by decide)

/-- No name stands twice, and the names ascend. -/
theorem MountSpec.ascending_members (m : MountSpec) :
    (m.members.map Prod.fst).Pairwise (· < ·) := by
  cases hl : m.leaseTtl <;> cases hv : m.version <;>
    simp only [members, hl, hv, Option.map_none, Option.map_some, Option.toList_none,
      Option.toList_some, List.cons_append, List.nil_append, List.map_cons, List.map_nil] <;>
    decide

theorem MountSpec.members_injective {m m' : MountSpec} (h : m.members = m'.members) : m = m' := by
  have hmem (x : String × Json.Value) : x ∈ m.members ↔ x ∈ m'.members := by rw [h]
  have hengine : m.engine = m'.engine := by
    have hx := (hmem ("type", .string m.engine.name)).1 (mem_members.2 (by simp))
    exact Engine.name_injective (by simpa using mem_members.1 hx)
  have hdescription : m.description = m'.description := by
    have hx := (hmem ("description", .string m.description)).1 (mem_members.2 (by simp))
    simpa using mem_members.1 hx
  have hversion : m.version = m'.version := by
    refine Option.ext fun version => ?_
    have hx := hmem ("options", .object [("version", .string version)])
    simpa [mem_members] using hx
  have hleaseTtl : m.leaseTtl = m'.leaseTtl := by
    refine Option.ext fun ttl => ?_
    have hx := hmem ("config", .object [("default_lease_ttl", .string ttl)])
    simpa [mem_members] using hx
  calc m = ⟨m.engine, m.description, m.version, m.leaseTtl⟩ := rfl
    _ = m' := by rw [hengine, hdescription, hversion, hleaseTtl]

/-- The bodies of requests are JSON texts that are read back as objects with exactly the members
given here, whatever texts and numbers they carry; an option that is absent leaves no member. So
two requests of one kind have the same body only if they carry the same values. -/
theorem bodies_spell_values :
    (∀ shares threshold : UInt32, Spells (initRequest shares threshold)
      (.object [("secret_shares", .number (.unsigned shares.toNat)),
        ("secret_threshold", .number (.unsigned threshold.toNat))])) ∧
    (∀ key : String, Spells (unsealRequest key) (.object [("key", .string key)])) ∧
    (∀ token name document : String,
      Spells (policyRequest token name document) (.object [("policy", .string document)])) ∧
    (∀ (token mountPoint : String) (m : MountSpec) (operation : String), ∃ members,
      Spells (mountRequest token mountPoint m operation) (.object members) ∧
      (members.map Prod.fst).Pairwise (· < ·) ∧
      ∀ name v, (name, v) ∈ members ↔
        (name = "config" ∧
          ∃ ttl, m.leaseTtl = some ttl ∧ v = .object [("default_lease_ttl", .string ttl)]) ∨
        (name = "description" ∧ v = .string m.description) ∨
        (name = "options" ∧
          ∃ version, m.version = some version ∧ v = .object [("version", .string version)]) ∨
        (name = "type" ∧ v = .string m.engine.name)) ∧
    (∀ shares threshold shares' threshold' : UInt32,
      HttpClient.bytesOf (initRequest shares threshold).body =
        HttpClient.bytesOf (initRequest shares' threshold').body ↔
      shares = shares' ∧ threshold = threshold') ∧
    (∀ key key' : String,
      HttpClient.bytesOf (unsealRequest key).body = HttpClient.bytesOf (unsealRequest key').body ↔
      key = key') ∧
    (∀ token name document token' name' document' : String,
      HttpClient.bytesOf (policyRequest token name document).body =
        HttpClient.bytesOf (policyRequest token' name' document').body ↔ document = document') ∧
    (∀ (token mountPoint : String) (m : MountSpec) (operation token' mountPoint' : String)
        (m' : MountSpec) (operation' : String),
      HttpClient.bytesOf (mountRequest token mountPoint m operation).body =
        HttpClient.bytesOf (mountRequest token' mountPoint' m' operation').body ↔ m = m') := by
  refine ⟨spells_initRequest, spells_unsealRequest, spells_policyRequest, ?mount, ?initial,
    ?share, ?policy, ?spec⟩
  case mount =>
    intro token mountPoint m operation
    exact ⟨m.members, spells_mountRequest token mountPoint m operation, m.ascending_members,
      fun name v => MountSpec.mem_members⟩
  case initial =>
    intro shares threshold shares' threshold'
    constructor
    · intro h
      have hv := (spells_initRequest shares threshold).eq (spells_initRequest shares' threshold') h
      simp only [Json.Value.object.injEq, List.cons.injEq, Prod.mk.injEq, true_and, and_true] at hv
      exact ⟨numeral_injective hv.1, numeral_injective hv.2⟩
    · rintro ⟨rfl, rfl⟩
      rfl
  case share =>
    intro key key'
    constructor
    · intro h
      have hv := (spells_unsealRequest key).eq (spells_unsealRequest key') h
      simpa using hv
    · rintro rfl
      rfl
  case policy =>
    intro token name document token' name' document'
    constructor
    · intro h
      have hv := (spells_policyRequest token name document).eq
        (spells_policyRequest token' name' document') h
      simpa using hv
    · rintro rfl
      rfl
  case spec =>
    intro token mountPoint m operation token' mountPoint' m' operation'
    constructor
    · intro h
      have hv := (spells_mountRequest token mountPoint m operation).eq
        (spells_mountRequest token' mountPoint' m' operation') h
      exact MountSpec.members_injective (Json.Value.object.inj hv)
    · rintro rfl
      rfl

end Client

end SecretStore
