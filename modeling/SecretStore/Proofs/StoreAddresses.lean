import SecretStore.Proofs.Slashes
import SecretStore.Proofs.Steps

/-!
# Addresses from the settings of a store

The address of a call is put together in three places. The settings join their path to host and port
and drop one slash at its end, the client drops all slashes at the end of what it is given, and it
drops those at the start of the path of the call. What comes out has one slash in between, however
many there were.

* `DropsOne`, `TrimsEnd`, `TrimsStart`: what each place makes of a text, and `slashed`: the slash in
  front of a path.
* `StoreSettings.url_eq`: the first place; `trimEnd_baseUrl`: the first two.
* `address_of_settings`: the address of a call, from the settings of the store and the path of the
  call.
-/

namespace SecretStore

/-! ### Slashes -/

/-- A text is what is left of another one without one slash at its end, if it has one. -/
def DropsOne (s t : String) : Prop := s = t ++ "/" ∨ s = t ∧ t.toList.getLast? ≠ some '/'

/-- A text is what is left of another one without all slashes at its end. -/
def TrimsEnd (s t : String) : Prop :=
  t.toList.getLast? ≠ some '/' ∧ ∃ n, s.toList = t.toList ++ List.replicate n '/'

/-- A text is what is left of another one without all slashes at its start. -/
def TrimsStart (s t : String) : Prop :=
  t.toList.head? ≠ some '/' ∧ ∃ n, s.toList = List.replicate n '/' ++ t.toList

/-- A path with a slash in front, unless it is empty or has one. -/
def slashed (s : String) : String := if s = "" ∨ s.toList.head? = some '/' then s else "/" ++ s

/-- So many slashes. -/
def slashes (n : Nat) : String := String.ofList (List.replicate n '/')

/-- Nothing is left exactly of a text of slashes. -/
theorem TrimsEnd.eq_empty_iff {s t : String} (h : TrimsEnd s t) :
    t = "" ↔ ∀ c ∈ s.toList, c = '/' := by
  obtain ⟨hlast, n, hn⟩ := h
  constructor
  · rintro rfl c hc
    rw [hn] at hc
    exact List.eq_of_mem_replicate (by simpa using hc)
  · intro hall
    refine String.toList_eq_nil_iff.1 (by_contra fun hne => hlast ?_)
    rw [List.getLast?_eq_some_getLast hne, Option.some.injEq]
    refine hall _ ?_
    rw [hn]
    exact List.mem_append_left _ (List.getLast_mem hne)

namespace Net.HttpClient

theorem toList_trimEnd (s : String) : (trimEnd s).toList = Slashes.trimEnd s.toList := by
  rw [trimEnd, String.toList_ofList]

theorem toList_trimStart (s : String) : (trimStart s).toList = Slashes.trimStart s.toList := by
  rw [trimStart, String.toList_ofList]

theorem trimsEnd_trimEnd (s : String) : TrimsEnd s (trimEnd s) := by
  rw [TrimsEnd, toList_trimEnd]
  exact ⟨Slashes.getLast?_trimEnd _, Slashes.eq_trimEnd_append_replicate _⟩

theorem trimsStart_trimStart (s : String) : TrimsStart s (trimStart s) := by
  rw [TrimsStart, toList_trimStart]
  exact ⟨Slashes.head?_trimStart _, Slashes.eq_replicate_append_trimStart _⟩

theorem trimEnd_append_slashes (s : String) (n : Nat) : trimEnd (s ++ slashes n) = trimEnd s := by
  rw [← String.toList_inj, toList_trimEnd, toList_trimEnd, String.toList_append, slashes,
    String.toList_ofList, Slashes.trimEnd_append_replicate]

theorem trimStart_slashes_append (n : Nat) (s : String) :
    trimStart (slashes n ++ s) = trimStart s := by
  rw [← String.toList_inj, toList_trimStart, toList_trimStart, String.toList_append, slashes,
    String.toList_ofList, Slashes.trimStart_replicate_append]

theorem trimEnd_append {s : String} (h : s.toList.getLast? ≠ some '/') (t : String) :
    trimEnd (s ++ t) = s ++ trimEnd t := by
  rw [← String.toList_inj, toList_trimEnd, String.toList_append, String.toList_append,
    toList_trimEnd, Slashes.trimEnd_append h]

/-- A slash in front is not lost at the end. -/
theorem trimEnd_slashed (s : String) : trimEnd (slashed s) = slashed (trimEnd s) := by
  by_cases hs : s = "" ∨ s.toList.head? = some '/'
  · -- what is left of such a path is empty or has the slash in front
    obtain ⟨-, n, hn⟩ := trimsEnd_trimEnd s
    have hleft : trimEnd s = "" ∨ (trimEnd s).toList.head? = some '/' := by
      cases ht : (trimEnd s).toList with
      | nil => exact .inl (String.toList_eq_nil_iff.1 ht)
      | cons c cs =>
        rw [ht, List.cons_append] at hn
        rcases hs with rfl | hs
        · cases hn
        · rw [hn] at hs
          exact .inr hs
    rw [slashed, if_pos hs, slashed, if_pos hleft]
  · rw [not_or] at hs
    obtain ⟨c, cs, hcs⟩ := List.exists_cons_of_ne_nil (mt String.toList_eq_nil_iff.1 hs.1)
    have hc : c ≠ '/' := by
      rintro rfl
      exact hs.2 (by rw [hcs, List.head?_cons])
    have hkept (ds : List Char) : Slashes.trimEnd (ds ++ c :: cs) = ds ++ c :: Slashes.trimEnd cs :=
      Url.rdropWhile_append_cons (p := (· == '/')) (by simpa using hc) ds cs
    have htrim : (trimEnd s).toList = c :: Slashes.trimEnd cs := by
      rw [toList_trimEnd, hcs]
      exact hkept []
    have hleft : ¬(trimEnd s = "" ∨ (trimEnd s).toList.head? = some '/') := by
      rw [not_or, ← String.toList_eq_nil_iff, htrim, List.head?_cons]
      exact ⟨List.cons_ne_nil _ _, fun h => hc (Option.some.inj h)⟩
    rw [slashed, if_neg (not_or.2 hs), slashed, if_neg hleft, ← String.toList_inj, toList_trimEnd,
      String.toList_append, String.toList_append, htrim, hcs]
    exact hkept ['/']

end Net.HttpClient

/-! ### Settings -/

namespace Config

open Net.HttpClient

theorem dropsOne_dropSlash (s : String) : DropsOne s (dropSlash s) := by
  unfold dropSlash
  split
  · next rest h =>
    refine .inl (String.toList_inj.1 ?_)
    rw [String.toList_append, String.toList_ofList, ← List.reverse_reverse s.toList, h,
      List.reverse_cons]
    rfl
  · next h =>
    refine .inr ⟨rfl, fun hlast => ?_⟩
    rw [← List.head?_reverse] at hlast
    obtain ⟨rest, hrest⟩ := List.head?_eq_some_iff.1 hlast
    exact h rest hrest

theorem trimEnd_dropSlash (s : String) : trimEnd (dropSlash s) = trimEnd s := by
  rcases dropsOne_dropSlash s with h | ⟨h, -⟩
  · conv => rhs; rw [h]
    exact (trimEnd_append_slashes _ 1).symm
  · rw [← h]

/-- Protocol, host and port of a store. -/
def StoreSettings.authority (s : StoreSettings) : String :=
  s.protocol ++ "://" ++ s.host ++ ":" ++ toString s.port.toNat

theorem StoreSettings.getLast?_authority (s : StoreSettings) :
    s.authority.toList.getLast? ≠ some '/' := by
  have hport : (toString s.port.toNat).toList = Nat.toDigits 10 s.port.toNat := Nat.toList_repr
  rw [authority, String.toList_append, hport, List.getLast?_append_of_ne_nil _ Nat.toDigits_ne_nil]
  intro h
  have hdigit := Nat.isDigit_of_mem_toDigits (by decide) (by decide) (List.mem_of_getLast? h)
  exact absurd hdigit (by decide)

theorem StoreSettings.url_eq (s : StoreSettings) (path : String) :
    s.url path = s.authority ++ slashed (dropSlash path) := by
  have hempty : (dropSlash path).isEmpty = true ↔ dropSlash path = "" := String.isEmpty_iff
  simp only [url, authority, slashed, hempty]
  split
  · rw [String.append_empty]
  · rw [String.append_assoc]

/-- What request paths are joined to is the authority and what is left of the path. -/
theorem StoreSettings.trimEnd_baseUrl (s : StoreSettings) :
    trimEnd s.baseUrl = s.authority ++ slashed (trimEnd s.path) := by
  rw [baseUrl, url_eq, trimEnd_append s.getLast?_authority, trimEnd_slashed, trimEnd_dropSlash]

end Config

namespace Net.HttpClient

open Config

theorem ofConnection_congr {p : Primitives} {files : Files} {c c' : Connection}
    (hbase : trimEnd c.baseUrl = trimEnd c'.baseUrl) (hspace : c.nameSpace = c'.nameSpace)
    (hcert : c.rootCertificate = c'.rootCertificate) :
    ofConnection p files c = ofConnection p files c' := by
  rw [ofConnection, ofConnection, hbase, hspace, hcert]

/-- **From settings to addresses.** The address that a client of some store settings asks for is
protocol, host and port, then the path of the store without the slashes at its end and with one in
front, if anything is left of it, then one slash, and then the path of the call without the slashes
at its start. No slash stands in front of that one, so it is the only one there, and none is taken
from the authority; slashes behind the path of the store and in front of the path of the call make
no difference. Every message of the client has the address that this text is read as. The settings
alone join a path to the authority without one slash at its end. -/
theorem address_of_settings (store : StoreSettings) :
    let authority := store.protocol ++ "://" ++ store.host ++ ":" ++ toString store.port.toNat
    (∀ q, ∃ t, DropsOne q t ∧ store.url q = authority ++ slashed t) ∧
    ∀ (p : Primitives) (files : Files) (client : HttpClient),
      ofConnection p files store.connection = .ok client →
      (∃ t, TrimsEnd store.path t ∧ (t = "" ↔ ∀ c ∈ store.path.toList, c = '/') ∧
        client.base = authority ++ slashed t ∧
        (authority ++ slashed t).toList.getLast? ≠ some '/' ∧
        ∀ path, ∃ rest, TrimsStart path rest ∧
          client.address path = authority ++ slashed t ++ "/" ++ rest ∧
          ∀ q m, q.path = path → client.message q = .ok m →
            Url.parse? p.names (authority ++ slashed t ++ "/" ++ rest) = some m.url) ∧
      (∀ n, ofConnection p files { store with path := store.path ++ slashes n }.connection =
        .ok client) ∧
      ∀ n path, client.address (slashes n ++ path) = client.address path := by
  intro authority
  refine ⟨fun q => ⟨dropSlash q, dropsOne_dropSlash q, store.url_eq q⟩, fun p files client h => ?_⟩
  have hbase : client.base = trimEnd store.baseUrl := by
    rw [ofConnection_eq_ok h]
    rfl
  have hnames : client.names = p.names := by rw [ofConnection_eq_ok h]
  have hfront : trimEnd store.baseUrl = authority ++ slashed (trimEnd store.path) :=
    store.trimEnd_baseUrl
  have hleft := trimsEnd_trimEnd store.path
  refine ⟨⟨trimEnd store.path, hleft, hleft.eq_empty_iff, hbase.trans hfront, ?_,
    fun path => ?_⟩, fun n => ?_, fun n path => ?_⟩
  · rw [← hfront, toList_trimEnd]
    exact Slashes.getLast?_trimEnd _
  · have haddress : client.address path =
        authority ++ slashed (trimEnd store.path) ++ "/" ++ trimStart path := by
      rw [address, hbase, hfront]
    refine ⟨trimStart path, trimsStart_trimStart path, haddress, ?_⟩
    rintro q m rfl hm
    rw [← haddress, ← hnames]
    exact (message_eq_ok_iff.1 hm).url
  · rw [← h]
    refine ofConnection_congr ?_ rfl rfl
    show trimEnd ({ store with path := store.path ++ slashes n } : StoreSettings).baseUrl =
      trimEnd store.baseUrl
    rw [StoreSettings.trimEnd_baseUrl, StoreSettings.trimEnd_baseUrl, trimEnd_append_slashes]
    rfl
  · rw [address, address, trimStart_slashes_append]

/-- Of three slashes at the end of a path the settings take one and the client two, and of those in
front of the path of a call none is left. -/
theorem address_of_slashed_path :
    let store : StoreSettings := { path := "store///" }
    let p : Primitives := ⟨fun _ => none, fun _ => .ok (), fun _ => .ok ()⟩
    let client : HttpClient := ⟨p.names, "http://localhost:8200/store", none⟩
    ofConnection p (fun _ => .error .notFound) store.connection = .ok client ∧
      (∃ t, TrimsEnd "store///" t ∧ client.base = "http://localhost:8200" ++ slashed t) ∧
      client.address (slashes 2 ++ "v1/sys/health") =
        "http://localhost:8200/store/v1/sys/health" := by
  intro store p client
  have hbase : trimEnd store.connection.baseUrl = "http://localhost:8200/store" := by
    decide +kernel
  have hclient : ofConnection p (fun _ => .error .notFound) store.connection = .ok client := by
    simp only [client, ← hbase]
    rfl
  obtain ⟨⟨t, ht, -, hfront, -, -⟩, -, haddress⟩ := (address_of_settings store).2 p _ client hclient
  have hauthority : store.protocol ++ "://" ++ store.host ++ ":" ++ toString store.port.toNat =
      "http://localhost:8200" := by
    decide +kernel
  rw [hauthority] at hfront
  refine ⟨hclient, ⟨t, ht, hfront⟩, ?_⟩
  rw [haddress]
  decide +kernel

end Net.HttpClient

end SecretStore
