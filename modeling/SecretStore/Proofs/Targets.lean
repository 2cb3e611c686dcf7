import Mathlib.Data.Bool.AllAny
import Mathlib.Data.List.DropRight
import SecretStore.Proofs.Addresses
import SecretStore.Proofs.MountPoints
import SecretStore.Proofs.Redirects
import SecretStore.Proofs.StatusGate

/-!
# Targets of requests

Two operations put a name into the path that they ask for. The name stands at the end of the
address, where the reader of addresses drops blanks, splits a fragment and a query off, takes
backslashes for slashes and resolves dot segments.

* `path_of_parse?`: what becomes of the text behind host and port.
* `Reaches`: an address asks an interface for a name, and for nothing else.
* `reaches_iff_verbatim`, `reaches_segment_iff`: which names are reached, as they are and escaped.
  Both come from a count of bytes: whatever is dropped or resolved shortens the path.
* `operations_reach_iff`: the names for which the two operations reach what they name.
-/

namespace SecretStore

open Interaction Percent
open Number (upperHexDigit)

namespace Net

namespace Url

variable {names : Host.Names} {cs ds : List Char}

/-! ### The end of an address -/

/-- Whether a character is dropped wherever it stands in an address. -/
def isBreak (c : Char) : Bool := c = '\t' ∨ c = '\n' ∨ c = '\r'

/-- The end of an address without blanks behind it and without line breaks and tabs in it. -/
def cleanEnd (cs : List Char) : List Char :=
  (cs.rdropWhile (·.toNat ≤ 0x20)).filter (!isBreak ·)

/-- What is read as a path of the end of an address. -/
def pathOf (cs : List Char) : List Char := (splitQuery true (splitFragment (cleanEnd cs)).1).1

/-- What is read as a query of the end of an address. -/
def queryOf (cs : List Char) : Option (List Char) :=
  (splitQuery true (splitFragment (cleanEnd cs)).1).2

theorem filter_slash (cs : List Char) :
    ('/' :: cs).filter (!isBreak ·) = '/' :: cs.filter (!isBreak ·) :=
  List.filter_cons_of_pos (by decide)

theorem rdropWhile_append_cons {p : Char → Bool} {c : Char} (hc : p c = false)
    (cs ds : List Char) : (cs ++ c :: ds).rdropWhile p = cs ++ c :: ds.rdropWhile p := by
  simp only [List.rdropWhile, List.reverse_append, List.reverse_cons, List.append_assoc,
    List.singleton_append]
  rw [List.dropWhile_append]
  split
  · next h =>
    rw [List.dropWhile_cons_of_neg (by simp [hc]), List.isEmpty_iff.1 h]
    simp
  · simp

theorem rdropWhile_append_slash (cs ds : List Char) :
    (cs ++ '/' :: ds).rdropWhile (·.toNat ≤ 0x20) =
      cs ++ '/' :: ds.rdropWhile (·.toNat ≤ 0x20) :=
  rdropWhile_append_cons (by decide) cs ds

theorem clean_append_slash {c : Char} (hc : 0x20 < c.toNat) (cs ds : List Char) :
    clean (c :: (cs ++ '/' :: ds)) = (c :: cs).filter (!isBreak ·) ++ '/' :: cleanEnd ds := by
  have hfilter (xs : List Char) :
      xs.filter (fun c => c ≠ '\t' ∧ c ≠ '\n' ∧ c ≠ '\r') = xs.filter (!isBreak ·) := by
    refine List.filter_congr fun c _ => ?_
    simp [isBreak]
  have hend : (((c :: (cs ++ '/' :: ds)).reverse.dropWhile (·.toNat ≤ 0x20)).reverse) =
      (c :: cs) ++ '/' :: ds.rdropWhile (·.toNat ≤ 0x20) := rdropWhile_append_slash (c :: cs) ds
  simp only [clean]
  rw [List.dropWhile_cons_of_neg (by simpa using hc), hend, hfilter, List.filter_append,
    filter_slash, cleanEnd]

theorem cleanEnd_append_slash (h : ∀ c ∈ cs, isBreak c = false) (ds : List Char) :
    cleanEnd (cs ++ '/' :: ds) = cs ++ '/' :: cleanEnd ds := by
  rw [cleanEnd, rdropWhile_append_slash, List.filter_append, filter_slash,
    List.filter_eq_self.2 (by simpa using h), cleanEnd]

theorem splitFragment_append (h : '#' ∉ cs) (ds : List Char) :
    splitFragment (cs ++ ds) = (cs ++ (splitFragment ds).1, (splitFragment ds).2) := by
  have hall : ∀ c ∈ cs, decide (c ≠ '#') = true := fun c hc =>
    decide_eq_true fun he => h (he ▸ hc)
  unfold splitFragment
  rw [List.dropWhile_append_of_pos hall, List.takeWhile_append_of_pos hall]
  split <;> rfl

theorem splitQuery_append (h : '?' ∉ cs) (ds : List Char) :
    splitQuery true (cs ++ ds) = (cs ++ (splitQuery true ds).1, (splitQuery true ds).2) := by
  have hall : ∀ c ∈ cs, decide (c ≠ '?') = true := fun c hc =>
    decide_eq_true fun he => h (he ▸ hc)
  unfold splitQuery
  rw [List.dropWhile_append_of_pos hall, List.takeWhile_append_of_pos hall]
  split <;> rfl

theorem fst_splitFragment (cs : List Char) : (splitFragment cs).1 = cs.takeWhile (· ≠ '#') := by
  unfold splitFragment
  split
  · next h => exact (List.takeWhile_eq_self_iff.2 (List.dropWhile_eq_nil_iff.1 h)).symm
  · rfl

theorem fst_splitQuery (cs : List Char) : (splitQuery true cs).1 = cs.takeWhile (· ≠ '?') := by
  unfold splitQuery
  split
  · next h => exact (List.takeWhile_eq_self_iff.2 (List.dropWhile_eq_nil_iff.1 h)).symm
  · rfl

theorem scheme?_http (cs : List Char) :
    scheme? ("http:".toList ++ cs) = some ("http".toList, cs) := rfl

theorem ofScheme?_http (names : Host.Names) (cs : List Char) :
    ofScheme? names "http".toList cs =
      afterSlashes? names "http".toList
        ((splitQuery true (splitFragment cs).1).1.dropWhile (isSlash true))
        (splitQuery true (splitFragment cs).1).2 (splitFragment cs).2 := by
  have hfile : "http".toList ≠ "file".toList := by decide
  have hspecial : isSpecial "http".toList = true := by decide
  simp only [ofScheme?, if_neg hfile, hspecial, if_true]

theorem path_of_afterSlashes? {url : Url} {host : List Char} {query fragment : Option (List Char)}
    (hslashes : ∀ c ∈ host, (!isSlash true c) = true) (hne : host ≠ [])
    (h : afterSlashes? names "http".toList
      ((['/', '/'] ++ host ++ ['/'] ++ cs).dropWhile (isSlash true)) query fragment = some url) :
    url.path = .segments (segmentsFrom true [] cs) ∧ url.query = query := by
  obtain ⟨c, rest, rfl⟩ := List.exists_cons_of_ne_nil hne
  have hdrop : (['/', '/'] ++ (c :: rest) ++ ['/'] ++ cs).dropWhile (isSlash true) =
      (c :: rest) ++ '/' :: cs := by
    have hc := hslashes c List.mem_cons_self
    rw [List.append_assoc, List.append_assoc,
      List.dropWhile_append_of_pos (List.all_eq_true.1 (by decide)), List.cons_append,
      List.dropWhile_cons_of_neg (by simpa using hc)]
    rfl
  have hspecial : isSpecial "http".toList = true := by decide
  rw [hdrop, afterSlashes?, hspecial, List.dropWhile_append_of_pos hslashes] at h
  obtain ⟨⟨host, port⟩, -, h⟩ := Option.bind_eq_some_iff.1 h
  cases h
  exact ⟨rfl, rfl⟩

/-- Path and query of an address behind its host and port. -/
theorem path_of_parse? {url : Url} {authority : List Char}
    (hauthority : ∀ c ∈ authority, c ∉ ['/', '\\', '?', '#']) (hcolon : ':' ∈ authority)
    (h : parse? names (String.ofList ("http://".toList ++ authority ++ '/' :: cs)) = some url) :
    url.path = .segments (segmentsFrom true [] (pathOf cs)) ∧ url.query = queryOf cs := by
  -- the host and the port, without the characters that are dropped
  obtain ⟨host, hhost⟩ : ∃ host, host = authority.filter (!isBreak ·) := ⟨_, rfl⟩
  have hplain : ∀ c ∈ host, c ∉ ['/', '\\', '?', '#'] := fun c hc =>
    hauthority c (List.mem_of_mem_filter (hhost ▸ hc))
  have hslashes : ∀ c ∈ host, (!isSlash true c) = true := fun c hc => by
    have hne := hplain c hc
    simp only [List.mem_cons, not_or] at hne
    simp [isSlash, hne.1, hne.2.1]
  have hne : host ≠ [] :=
    List.ne_nil_of_mem (hhost ▸ List.mem_filter.2 ⟨hcolon, by decide⟩)
  have hmark {c : Char} (hc : c ∈ ['?', '#']) : c ∉ ['/', '/'] ++ host ++ ['/'] := by
    simp only [List.mem_append, List.mem_cons, List.not_mem_nil, or_false] at hc ⊢
    rintro ((hs | hs) | hs)
    · rcases hc with rfl | rfl <;> simp at hs
    · have hnot := hplain c hs
      rcases hc with rfl | rfl <;> simp at hnot
    · rcases hc with rfl | rfl <;> simp at hs
  have hclean : clean ("http://".toList ++ authority ++ '/' :: cs) =
      "http:".toList ++ (['/', '/'] ++ host ++ ['/'] ++ cleanEnd cs) := by
    have hc := clean_append_slash (c := 'h') (by decide) ("ttp://".toList ++ authority) cs
    rw [hhost]
    simpa [isBreak] using hc
  rw [parse?, String.toList_ofList, hclean, Option.bind_eq_bind, scheme?_http, Option.bind_some]
    at h
  simp only [ofScheme?_http] at h
  rw [splitFragment_append (hmark (by simp)), splitQuery_append (hmark (by simp))] at h
  exact path_of_afterSlashes? hslashes hne h

/-! ### Names at the end of a path -/

theorem pathOf_eq (cs : List Char) :
    pathOf cs = ((cleanEnd cs).takeWhile (· ≠ '#')).takeWhile (· ≠ '?') := by
  rw [pathOf, fst_splitQuery, fst_splitFragment]

theorem pathOf_sublist_rdropWhile (cs : List Char) :
    (pathOf cs).Sublist (cs.rdropWhile (·.toNat ≤ 0x20)) := by
  rw [pathOf_eq]
  exact ((List.takeWhile_sublist _).trans (List.takeWhile_sublist _)).trans List.filter_sublist

theorem pathOf_sublist (cs : List Char) : (pathOf cs).Sublist cs :=
  (pathOf_sublist_rdropWhile cs).trans (List.rdropWhile_prefix _ _).sublist

theorem plain_of_mem_pathOf {c : Char} (h : c ∈ pathOf cs) :
    c ∉ ['?', '#', '\t', '\n', '\r'] := by
  rw [pathOf_eq] at h
  have hquery := List.mem_takeWhile_imp h
  have h := (List.takeWhile_sublist _).mem h
  have hfragment := List.mem_takeWhile_imp h
  have hbreak := (List.mem_filter.1 ((List.takeWhile_sublist _).mem h)).2
  simp only [isBreak, Bool.not_eq_true', decide_eq_false_iff_not, not_or] at hbreak
  simpa using ⟨by simpa using hquery, by simpa using hfragment, hbreak⟩

/-- A path is read as it is if nothing in it ends it or is dropped. -/
theorem pathOf_eq_self_iff : pathOf cs = cs ↔
    (∀ c ∈ cs, c ∉ ['?', '#', '\t', '\n', '\r']) ∧ ∀ c ∈ cs.getLast?, 0x20 < c.toNat := by
  constructor
  · intro h
    refine ⟨fun c hc => plain_of_mem_pathOf (h.symm ▸ hc), fun c hc => ?_⟩
    have hend : cs.rdropWhile (·.toNat ≤ 0x20) = cs :=
      by
      refine (List.rdropWhile_prefix _ _).sublist.antisymm ?_
      have hsub := pathOf_sublist_rdropWhile cs
      rwa [h] at hsub
    obtain ⟨hne, rfl⟩ := List.mem_getLast?_eq_getLast hc
    simpa using List.rdropWhile_eq_self_iff.1 hend hne
  · rintro ⟨hplain, hlast⟩
    have hend : cs.rdropWhile (·.toNat ≤ 0x20) = cs :=
      List.rdropWhile_eq_self_iff.2 fun hne => by
        simpa using hlast _ (List.getLast?_eq_some_getLast hne)
    have hbreak : cs.filter (!isBreak ·) = cs := List.filter_eq_self.2 fun c hc => by
      have hc := hplain c hc
      simp only [List.mem_cons, not_or] at hc
      simp [isBreak, hc]
    have hfragment : cs.takeWhile (· ≠ '#') = cs := List.takeWhile_eq_self_iff.2 fun c hc => by
      have hc := hplain c hc
      simp only [List.mem_cons, not_or] at hc
      simp [hc]
    have hquery : cs.takeWhile (· ≠ '?') = cs := List.takeWhile_eq_self_iff.2 fun c hc => by
      have hc := hplain c hc
      simp only [List.mem_cons, not_or] at hc
      simp [hc]
    rw [pathOf_eq, cleanEnd, hend, hbreak, hfragment, hquery]

/-- A path with backslashes made slashes. -/
def slashes (cs : List Char) : List Char := cs.map fun c => if isSlash true c then '/' else c

theorem slashes_append (cs ds : List Char) : slashes (cs ++ ds) = slashes cs ++ slashes ds :=
  List.map_append

theorem slashes_of_not_mem (h : '\\' ∉ cs) : slashes cs = cs := by
  refine (List.map_congr_left fun c hc => ?_).trans (List.map_id cs)
  have hne : c ≠ '\\' := fun he => h (he ▸ hc)
  by_cases hs : c = '/' <;> simp [isSlash, hne, hs]

theorem backslash_not_mem_slashes (cs : List Char) : '\\' ∉ slashes cs := by
  intro h
  obtain ⟨c, -, hc⟩ := List.mem_map.1 h
  split at hc
  · cases hc
  · next hs =>
    subst hc
    exact hs (by decide)

theorem length_encode_slashes (cs : List Char) :
    (Utf8.encode (slashes cs)).length = (Utf8.encode cs).length := by
  induction cs with
  | nil => rfl
  | cons c cs ih =>
    have hc : (Utf8.encodeChar (if isSlash true c then '/' else c)).length =
        (Utf8.encodeChar c).length := by
      split
      · next h =>
        simp only [isSlash, Bool.true_and, Bool.or_eq_true, decide_eq_true_eq] at h
        rcases h with rfl | rfl <;> rfl
      · rfl
    rw [slashes, List.map_cons, Utf8.encode_cons, Utf8.encode_cons, List.length_append,
      List.length_append, hc, ← ih, slashes]

/-- The path of an interface, without its first slash: every character stands for itself, and no
segment is resolved. -/
structure IsApi (api : List Char) : Prop where
  plain : ∀ c ∈ api, Kept c ∧ c ≠ '\\' ∧ c ≠ '%'
  steady : ∀ s ∈ api.splitOn '/', ¬IsDots (escape keepPath s)

namespace IsApi

variable {api : List Char}

theorem not_mem (h : IsApi api) {c : Char} (hc : ¬Kept c ∨ c = '\\' ∨ c = '%') : c ∉ api := by
  intro hmem
  obtain ⟨hkept, hbackslash, hpercent⟩ := h.plain c hmem
  rcases hc with hc | rfl | rfl
  · exact hc hkept
  · exact hbackslash rfl
  · exact hpercent rfl

theorem escape_eq (h : IsApi api) : escape keepPath api = api :=
  escape_of_kept fun c hc => (h.plain c hc).1

theorem splitQuery_append_slash (h : IsApi api) (cs : List Char) :
    splitQuery true (splitFragment (cleanEnd (api ++ '/' :: cs))).1 =
      (api ++ '/' :: pathOf cs, queryOf cs) := by
  have hbreak : ∀ c ∈ api, isBreak c = false := fun c hc => by
    have hnot {d : Char} (hd : ¬Kept d) : c ≠ d := fun he => h.not_mem (.inl hd) (he ▸ hc)
    simp [isBreak, hnot (d := '\t') (by decide), hnot (d := '\n') (by decide),
      hnot (d := '\r') (by decide)]
  have hmark {c : Char} (hc : ¬Kept c) : c ∉ api ++ ['/'] := by
    rw [List.mem_append, List.mem_singleton, not_or]
    exact ⟨h.not_mem (.inl hc), fun he => hc (he ▸ kept_slash)⟩
  rw [cleanEnd_append_slash hbreak, ← List.singleton_append, ← List.append_assoc,
    splitFragment_append (hmark (by decide)), splitQuery_append (hmark (by decide)),
    List.append_assoc]
  rfl

theorem pathOf_append_slash (h : IsApi api) (cs : List Char) :
    pathOf (api ++ '/' :: cs) = api ++ '/' :: pathOf cs := by
  rw [pathOf, h.splitQuery_append_slash]

theorem queryOf_append_slash (h : IsApi api) (cs : List Char) :
    queryOf (api ++ '/' :: cs) = queryOf cs := by
  rw [queryOf, h.splitQuery_append_slash]

theorem splitSegments_append_slash (h : IsApi api) (cs : List Char) :
    splitSegments true (api ++ '/' :: cs) = (api ++ '/' :: slashes cs).splitOn '/' := by
  show (slashes (api ++ '/' :: cs)).splitOn '/' = _
  rw [slashes_append, slashes_of_not_mem (h.not_mem (.inr (.inl rfl)))]
  rfl

/-- What is read back of a path below an interface. -/
theorem decode_append_slash (h : IsApi api) (rest : List Char) :
    decode ('/' :: (api ++ '/' :: rest)) = 0x2F :: (Utf8.encode api ++ 0x2F :: decode rest) := by
  have hapi : decode api = Utf8.encode api := by
    have hd := decode_escape_of_unescaped (unescaped_of_not_mem (h.not_mem (.inr (.inr rfl))))
    rwa [h.escape_eq] at hd
  rw [decode_cons (by decide), Percent.decode_append_slash, hapi]
  rfl

/-- A name without dot segments stands behind the interface, encoded. -/
theorem pathText_of_steady (h : IsApi api)
    (hs : ∀ s ∈ (slashes cs).splitOn '/', ¬IsDots (escape keepPath s)) :
    pathText (.segments (segmentsFrom true [] (api ++ '/' :: cs))) =
      '/' :: (api ++ '/' :: escape keepPath (slashes cs)) := by
  rw [segmentsFrom, h.splitSegments_append_slash, resolve_of_plain, List.reverse_nil,
    List.nil_append, pathText_split, escape_append, h.escape_eq, escape_cons_of_kept kept_slash]
  rw [List.splitOn_append_cons_self, List.map_append]
  intro s hmem
  rcases List.mem_append.1 hmem with hmem | hmem
  · obtain ⟨t, ht, rfl⟩ := List.mem_map.1 hmem
    exact h.steady t ht
  · obtain ⟨t, ht, rfl⟩ := List.mem_map.1 hmem
    exact hs t ht

/-- No more is read back of a path than the interface and the name, and less if the name has dot
segments. -/
theorem length_decode_pathText (h : IsApi api) (cs : List Char) :
    let path := decode (pathText (.segments (segmentsFrom true [] (api ++ '/' :: cs))))
    path.length ≤ 2 + (Utf8.encode api).length + (Utf8.encode cs).length ∧
      ((∃ s ∈ (slashes cs).splitOn '/', IsDots (escape keepPath s)) →
        path.length < 2 + (Utf8.encode api).length + (Utf8.encode cs).length) := by
  intro path
  have hpath : path.length = weight (segmentsFrom true [] (api ++ '/' :: cs)) :=
    Url.length_decode_pathText _
  have hweight := weight_split_le (api ++ '/' :: slashes cs)
  have hlength : (Utf8.encode (api ++ '/' :: slashes cs)).length =
      1 + (Utf8.encode api).length + (Utf8.encode cs).length := by
    have hslash : (Utf8.encodeChar '/').length = 1 := rfl
    rw [Utf8.encode_append, Utf8.encode_cons, List.length_append, List.length_append,
      length_encode_slashes, hslash]
    omega
  obtain ⟨hle, hlt⟩ := weight_resolve [] ((splitSegments true (api ++ '/' :: cs)).map
    (escape keepPath))
  rw [hpath, segmentsFrom]
  rw [h.splitSegments_append_slash] at hle hlt ⊢
  rw [weight_nil] at hle hlt
  refine ⟨by omega, ?_⟩
  rintro ⟨s, hs, hdots⟩
  have hlt := hlt ⟨escape keepPath s, List.mem_map_of_mem ?_, hdots⟩
  · omega
  · rw [List.splitOn_append_cons_self]
    exact List.mem_append_right _ hs

end IsApi

theorem length_encode_le_of_sublist (h : cs.Sublist ds) :
    (Utf8.encode cs).length ≤ (Utf8.encode ds).length ∧
      ((Utf8.encode cs).length = (Utf8.encode ds).length → cs = ds) := by
  induction h with
  | slnil => exact ⟨Nat.le_refl _, fun _ => rfl⟩
  | @cons cs ds c _ ih =>
    have hpositive : 0 < (Utf8.encodeChar c).length := by
      rcases Utf8.encodeChar_cases c with ⟨-, hc⟩ | ⟨b, bs, hc, -⟩ <;> rw [hc] <;>
        exact Nat.succ_pos _
    rw [Utf8.encode_cons, List.length_append]
    exact ⟨by omega, fun _ => by omega⟩
  | @cons_cons cs ds c _ ih =>
    simp only [Utf8.encode_cons, List.length_append]
    exact ⟨by omega, fun he => by rw [ih.2 (by omega)]⟩

/-- An address reaches a name of an interface if its target, without a query, is the path of the
interface and, behind a slash, what is read as the name. -/
structure Reaches (url : Url) (api name rest : String) : Prop where
  query : url.query = none
  target : url.target = api ++ "/" ++ rest
  spelled : decode rest.toList = Bytes.ofString name

/-- Path and query of an address are those of a text behind an interface. -/
structure Ends (url : Url) (api cs : List Char) : Prop where
  path : url.path = .segments (segmentsFrom true [] (api ++ '/' :: pathOf cs))
  query : url.query = queryOf cs

variable {url url' : Url} {api : List Char} {name name' rest rest' : String}

theorem Reaches.pathText_eq (h : url.Reaches (String.ofList ('/' :: api)) name rest) :
    pathText url.path = '/' :: (api ++ '/' :: rest.toList) := by
  have ht := congrArg String.toList h.target
  simpa [Url.target, h.query] using ht

theorem reaches_of_pathText (hquery : url.query = none)
    (hpath : pathText url.path = '/' :: (api ++ '/' :: cs))
    (hcs : decode cs = Bytes.ofString name) :
    url.Reaches (String.ofList ('/' :: api)) name (String.ofList cs) where
  query := hquery
  target := by
    refine String.toList_inj.1 ?_
    simp [Url.target, hquery, hpath]
  spelled := by rwa [String.toList_ofList]

/-- Addresses that reach names of an interface have different targets for different names. -/
theorem Reaches.name_eq {api : String} (h : url.Reaches api name rest)
    (h' : url'.Reaches api name' rest') (ht : url.target = url'.target) : name = name' := by
  have hrest : rest.toList = rest'.toList := by
    rw [h.target, h'.target] at ht
    simpa using congrArg String.toList ht
  have hspelled : Utf8.encode name.toList = Utf8.encode name'.toList :=
    h.spelled.symm.trans (hrest ▸ h'.spelled)
  exact String.toList_inj.1 (Utf8.encode_injective hspelled)

/-- An address reaches a name only if the text at its end is read whole and holds no dot segment,
unless the text is longer than the name. -/
theorem Reaches.whole (h : url.Reaches (String.ofList ('/' :: api)) name rest) (hapi : IsApi api)
    (hcs : url.Ends api cs)
    (hle : (Utf8.encode cs).length ≤ (Utf8.encode name.toList).length) :
    pathOf cs = cs ∧ ∀ s ∈ (slashes cs).splitOn '/', ¬IsDots (escape keepPath s) := by
  have hlength : (decode (pathText url.path)).length =
      2 + (Utf8.encode api).length + (Utf8.encode name.toList).length := by
    rw [h.pathText_eq, hapi.decode_append_slash, h.spelled, List.length_cons, List.length_append,
      List.length_cons, Bytes.ofString]
    omega
  obtain ⟨hpath, hdots⟩ := hapi.length_decode_pathText (pathOf cs)
  obtain ⟨hsub, heq⟩ := length_encode_le_of_sublist (pathOf_sublist cs)
  rw [← hcs.path, hlength] at hpath hdots
  have hself : pathOf cs = cs := heq (by omega)
  rw [hself] at hdots
  exact ⟨hself, fun s hs hd => absurd (hdots ⟨s, hs, hd⟩) (by omega)⟩

/-- A text that the end of an address takes as it is: nothing in it ends the path, is dropped or
counts as a slash, no segment of it is one dot or two, and no percent sign makes an escape. -/
structure Verbatim (cs : List Char) : Prop where
  plain : ∀ c ∈ cs, c ∉ ['?', '#', '\t', '\n', '\r', '\\']
  last : ∀ c ∈ cs.getLast?, 0x20 < c.toNat
  steady : ∀ s ∈ cs.splitOn '/', s ≠ ['.'] ∧ s ≠ ['.', '.']
  unescaped : Unescaped cs

theorem queryOf_eq_none (h : pathOf cs = cs) : queryOf cs = none := by
  have hquery : '?' ∉ cs := fun hc => by
    have hplain := (pathOf_eq_self_iff.1 h).1 _ hc
    simp at hplain
  have hfragment : (splitFragment (cleanEnd cs)).1 = cs := by
    have hsub : (splitFragment (cleanEnd cs)).1.Sublist cs := by
      rw [fst_splitFragment]
      exact ((List.takeWhile_sublist _).trans List.filter_sublist).trans
        (List.rdropWhile_prefix _ _).sublist
    refine hsub.antisymm ?_
    have hpath : (pathOf cs).Sublist (splitFragment (cleanEnd cs)).1 := by
      rw [pathOf, fst_splitQuery]
      exact List.takeWhile_sublist _
    rwa [h] at hpath
  have hnone := congrArg Prod.snd (splitQuery_append hquery [])
  rw [queryOf, hfragment]
  rwa [List.append_nil] at hnone

/-- An address that ends in a name reaches it exactly when the name is taken as it is. -/
theorem reaches_iff_verbatim (hapi : IsApi api) (h : url.Ends api name.toList) :
    (∃ rest, url.Reaches (String.ofList ('/' :: api)) name rest) ↔ Verbatim name.toList := by
  constructor
  · rintro ⟨rest, hr⟩
    obtain ⟨hself, hsteady⟩ := hr.whole hapi h (Nat.le_refl _)
    obtain ⟨hplain, hlast⟩ := pathOf_eq_self_iff.1 hself
    have hpath := h.path
    rw [hself] at hpath
    have hrest : rest.toList = escape keepPath (slashes name.toList) := by
      have hp := hr.pathText_eq
      rw [hpath, hapi.pathText_of_steady hsteady] at hp
      simpa using hp.symm
    have hspelled : decode (escape keepPath (slashes name.toList)) = Utf8.encode name.toList := by
      rw [← hrest]
      exact hr.spelled
    have hunescaped : Unescaped (slashes name.toList) :=
      (length_decode_escape _).2 (by rw [hspelled, length_encode_slashes])
    have hslashes : slashes name.toList = name.toList := by
      rw [decode_escape_of_unescaped hunescaped] at hspelled
      exact Utf8.encode_injective hspelled
    have hbackslash := backslash_not_mem_slashes name.toList
    rw [hslashes] at hsteady hunescaped hbackslash
    refine ⟨fun c hc => ?_, hlast, fun s hs => ?_, hunescaped⟩
    · have hne : c ≠ '\\' := fun he => hbackslash (he ▸ hc)
      simpa [hne] using hplain c hc
    · have hn := hsteady s hs
      rwa [isDots_escape (unescaped_of_mem_splitOn hunescaped s hs), not_or] at hn
  · intro hv
    have hself : pathOf name.toList = name.toList := by
      refine pathOf_eq_self_iff.2 ⟨fun c hc => ?_, hv.last⟩
      have hplain := hv.plain c hc
      simp only [List.mem_cons, not_or] at hplain ⊢
      simp [hplain]
    have hslashes : slashes name.toList = name.toList :=
      slashes_of_not_mem fun hc => by simpa using hv.plain _ hc
    refine ⟨_, reaches_of_pathText (h.query.trans (queryOf_eq_none hself)) ?_
      (decode_escape_of_unescaped hv.unescaped)⟩
    rw [h.path, hself, hapi.pathText_of_steady, hslashes]
    rw [hslashes]
    intro s hs
    rw [isDots_escape (unescaped_of_mem_splitOn hv.unescaped s hs), not_or]
    exact hv.steady s hs

theorem isApi_policies : IsApi "v1/sys/policies/acl".toList where
  plain := List.all_iff_forall_prop.1 (by decide)
  steady := by decide +kernel

theorem isApi_mounts : IsApi "v1/sys/mounts".toList where
  plain := List.all_iff_forall_prop.1 (by decide)
  steady := by decide +kernel

/-! ### Escaped segments -/

/-- The characters of an escaped segment. -/
theorem kept_of_mem_segment {c : Char} (h : c ∈ (Percent.segment name).toList) :
    Kept c ∧ c ≠ '/' ∧ c ≠ '\\' := by
  have hdigit : ∀ n < 16, Kept (upperHexDigit n) ∧ upperHexDigit n ≠ '/' ∧
      upperHexDigit n ≠ '\\' := by
    decide
  have hbyte : ∀ n < 256, unreserved n.toUInt8 = true →
      Kept (Char.ofNat n) ∧ Char.ofNat n ≠ '/' ∧ Char.ofNat n ≠ '\\' := by decide +kernel
  rw [Percent.segment, String.toList_ofList, encode, List.mem_flatMap] at h
  obtain ⟨b, -, hc⟩ := h
  have hb := b.toNat_lt
  split at hc
  · next hkeep =>
    obtain rfl := List.mem_singleton.1 hc
    exact hbyte b.toNat hb (by rwa [show b.toNat.toUInt8 = b from UInt8.ofNat_toNat])
  · simp only [Percent.escape, List.mem_cons, List.not_mem_nil, or_false] at hc
    rcases hc with rfl | rfl | rfl
    · decide
    · exact hdigit _ (by omega)
    · exact hdigit _ (by omega)

theorem isDots_segment : IsDots (Percent.segment name).toList ↔ name = "." ∨ name = ".." := by
  constructor
  · intro h
    rcases decode_of_isDots h with hd | hd
    · rw [decode_segment] at hd
      exact .inl (String.toList_inj.1 (Utf8.encode_injective hd))
    · rw [decode_segment] at hd
      exact .inr (String.toList_inj.1 (Utf8.encode_injective hd))
  · rintro (rfl | rfl) <;> decide

/-- An address that ends in an escaped name reaches it, unless the name is one dot or two. -/
theorem reaches_segment_iff (hapi : IsApi api)
    (h : url.Ends api (Percent.segment name).toList) :
    (∃ rest, url.Reaches (String.ofList ('/' :: api)) name rest ∧ '/' ∉ rest.toList) ↔
      name ≠ "." ∧ name ≠ ".." := by
  have hkept : ∀ c ∈ (Percent.segment name).toList, Kept c :=
    fun c hc => (kept_of_mem_segment hc).1
  have hslash : '/' ∉ (Percent.segment name).toList := fun hc => (kept_of_mem_segment hc).2.1 rfl
  have hslashes : slashes (Percent.segment name).toList = (Percent.segment name).toList :=
    slashes_of_not_mem fun hc => (kept_of_mem_segment hc).2.2 rfl
  have hself : pathOf (Percent.segment name).toList = (Percent.segment name).toList := by
    refine pathOf_eq_self_iff.2 ⟨fun c hc hmem => ?_, fun c hc => ?_⟩
    · have hk := hkept c hc
      simp only [List.mem_cons, List.not_mem_nil, or_false] at hmem
      rcases hmem with rfl | rfl | rfl | rfl | rfl <;> exact absurd hk (by decide)
    · exact (hkept c (List.mem_of_getLast? hc)).lt_toNat
  have hsegment :
      (∀ s ∈ (Percent.segment name).toList.splitOn '/', ¬IsDots (escape keepPath s)) ↔
        name ≠ "." ∧ name ≠ ".." := by
    rw [List.splitOn_eq_singleton hslash, List.forall_mem_singleton, escape_of_kept hkept,
      isDots_segment, not_or]
  rw [← hsegment]
  constructor
  · rintro ⟨rest, hr, -⟩
    by_cases hdots : name = "." ∨ name = ".."
    · have hle : (Utf8.encode (Percent.segment name).toList).length ≤
          (Utf8.encode name.toList).length := by
        rcases hdots with rfl | rfl <;> decide
      rw [← hslashes]
      exact (hr.whole hapi h hle).2
    · rwa [hsegment, ← not_or]
  · intro hs
    refine ⟨_, reaches_of_pathText (h.query.trans (queryOf_eq_none hself)) ?_ (decode_segment name),
      by rwa [String.toList_ofList]⟩
    rw [h.path, hself, hapi.pathText_of_steady, hslashes, escape_of_kept hkept]
    rwa [hslashes]

end Url

/-! ### The requests of the operations -/

namespace HttpClient

variable {σ α : Type} {client : HttpClient} {answer : Message → σ → Option Response × σ} {s : σ}

/-- The first message of an operation that sends one request is the one that the client forms. -/
theorem message_of_transcript {op : Operation α} {q : Request}
    (h : ∀ {xs r}, op.run.Transcript xs r → ∃ reply : Reply, xs = [(q, reply)])
    {x : Message × Option Response}
    (hx : (client.perform answer op s).exchanges.head? = some x) : client.message q = .ok x.1 := by
  rw [client.exchanges_of_transcript h] at hx
  exact message_of_head? hx

/-- The address of a text behind an interface of a client without a path. -/
theorem ends_of_message {q : Request} {m : Message} {host port : String} {api cs : List Char}
    (hbase : client.base = "http://" ++ host ++ ":" ++ port)
    (hplain : ∀ c ∈ host.toList ++ port.toList, c ∉ ['/', '\\', '?', '#'])
    (hapi : Url.IsApi api) (hne : api.head? ≠ some '/') (hnil : api ≠ [])
    (hpath : q.path.toList = '/' :: (api ++ '/' :: cs)) (hm : client.message q = .ok m) :
    m.url.Ends api cs := by
  have hurl := (message_eq_ok_iff.1 hm).url
  have htrim : (trimStart q.path).toList = api ++ '/' :: cs := by
    obtain ⟨c, rest, rfl⟩ := List.exists_cons_of_ne_nil hnil
    have hc : c ≠ '/' := fun he => hne (by rw [he]; rfl)
    rw [trimStart, String.toList_ofList, hpath, Slashes.trimStart,
      List.dropWhile_cons_of_pos (by decide), List.cons_append,
      List.dropWhile_cons_of_neg (by simpa using hc)]
  have haddress : client.address q.path = String.ofList ("http://".toList ++
      (host.toList ++ ':' :: port.toList) ++ '/' :: (api ++ '/' :: cs)) := by
    refine String.toList_inj.1 ?_
    simp [address, hbase, htrim]
  have hauthority : ∀ c ∈ host.toList ++ ':' :: port.toList, c ∉ ['/', '\\', '?', '#'] := by
    intro c hc
    rcases List.mem_append.1 hc with hc | hc
    · exact hplain c (List.mem_append_left _ hc)
    rcases List.mem_cons.1 hc with rfl | hc
    · decide
    · exact hplain c (List.mem_append_right _ hc)
  rw [haddress] at hurl
  obtain ⟨hp, hq⟩ := Url.path_of_parse? hauthority (by simp) hurl
  exact ⟨by rw [hp, hapi.pathOf_append_slash], by rw [hq, hapi.queryOf_append_slash]⟩

open Client

theorem ends_of_installPolicy {token name document host port : String}
    (hbase : client.base = "http://" ++ host ++ ":" ++ port)
    (hplain : ∀ c ∈ host.toList ++ port.toList, c ∉ ['/', '\\', '?', '#'])
    {x : Message × Option Response}
    (hx : (client.perform answer (installPolicy token name document) s).exchanges.head? = some x) :
    x.1.url.Ends "v1/sys/policies/acl".toList (Percent.segment name).toList := by
  refine ends_of_message hbase hplain Url.isApi_policies (by decide) (by decide)
    (q := policyRequest token name document) ?_ (message_of_transcript (fun h => ?_) hx)
  · simp [policyRequest, Request.withJson, Request.withToken, Request.new, policyPath, policiesPath]
  · obtain ⟨reply, hxs, -⟩ := transcript_installPolicy.1 h
    exact ⟨reply, hxs⟩

theorem ends_of_mount {token mountPoint operation host port : String} {m : MountSpec}
    (hbase : client.base = "http://" ++ host ++ ":" ++ port)
    (hplain : ∀ c ∈ host.toList ++ port.toList, c ∉ ['/', '\\', '?', '#'])
    {x : Message × Option Response}
    (hx : (client.perform answer (mount token mountPoint m operation) s).exchanges.head? = some x) :
    x.1.url.Ends "v1/sys/mounts".toList (Mount.point mountPoint).toList := by
  refine ends_of_message hbase hplain Url.isApi_mounts (by decide) (by decide)
    (q := mountRequest token mountPoint m operation) ?_ (message_of_transcript (fun h => ?_) hx)
  · simp [mountRequest, Request.withJson, Request.withToken, Request.new, mountPath, mountsPath]
  · obtain ⟨reply, hxs, -⟩ := transcript_mount.1 h
    exact ⟨reply, hxs⟩

/-- Where the requests of a client arrive whose base is a host with a port. A policy is installed
under its name, as one segment behind the path of the policies and without a query, unless the name
is one dot or two. An engine is mounted at its mount point, without the slashes around it, exactly
when the mount point is one that addresses take as it is. Names that are reached have different
targets. -/
theorem operations_reach_iff (client : HttpClient) (host port : String)
    (hbase : client.base = "http://" ++ host ++ ":" ++ port)
    (hplain : ∀ c ∈ host.toList ++ port.toList, c ∉ ['/', '\\', '?', '#'])
    (answer : Message → σ → Option Response × σ) (s : σ) :
    (∀ (token name document : String) (x : Message × Option Response),
      (client.perform answer (installPolicy token name document) s).exchanges.head? = some x →
      ((∃ rest, x.1.url.Reaches "/v1/sys/policies/acl" name rest ∧ '/' ∉ rest.toList) ↔
        name ≠ "." ∧ name ≠ "..")) ∧
    (∀ (token mountPoint operation : String) (m : MountSpec) (x : Message × Option Response),
      (client.perform answer (mount token mountPoint m operation) s).exchanges.head? = some x →
      ((∃ rest, x.1.url.Reaches "/v1/sys/mounts" (Mount.point mountPoint) rest) ↔
        Url.Verbatim (Mount.point mountPoint).toList)) ∧
    ∀ (url url' : Url) (api name name' rest rest' : String), url.Reaches api name rest →
      url'.Reaches api name' rest' → url.target = url'.target → name = name' := by
  refine ⟨?policies, ?mounts, ?targets⟩
  case policies =>
    intro token name document x hx
    exact Url.reaches_segment_iff Url.isApi_policies (ends_of_installPolicy hbase hplain hx)
  case mounts =>
    intro token mountPoint operation m x hx
    exact Url.reaches_iff_verbatim Url.isApi_mounts (ends_of_mount hbase hplain hx)
  case targets =>
    intro url url' api name name' rest rest' h h' ht
    exact h.name_eq h' ht

/-- A policy whose name has a blank and a slash in it is installed as one segment. -/
theorem policy_reached_of_blank :
    let client : HttpClient := ⟨fun _ => none, "http://127.0.0.1:8200", none⟩
    let out := client.perform (fun _ n => (none, n)) (installPolicy "t" "read only/a" "d") 0
    (out.exchanges.map fun x => x.1.url.target) = ["/v1/sys/policies/acl/read%20only%2Fa"] ∧
      ∀ x, out.exchanges.head? = some x →
        ∃ rest, x.1.url.Reaches "/v1/sys/policies/acl" "read only/a" rest ∧ '/' ∉ rest.toList := by
  intro client out
  refine ⟨by decide +kernel, fun x hx => ?_⟩
  have hreach := (operations_reach_iff client "127.0.0.1" "8200" (by decide)
    (List.all_iff_forall_prop.1 (by decide)) (fun _ n => (none, n)) 0).1 "t" "read only/a" "d" x hx
  exact hreach.2 (by decide)

/-- A policy whose name is two dots is asked for outside the path of the policies, an engine can be
mounted at a policy, and a mount point may hide a query. -/
theorem targets_astray :
    let client : HttpClient := ⟨fun _ => none, "http://127.0.0.1:8200", none⟩
    let targets := fun op : Operation Unit =>
      (client.perform (fun _ n => (none, n)) op 0).exchanges.map fun x => x.1.url.target
    targets (installPolicy "t" ".." "d") = ["/v1/sys/policies/"] ∧
      targets (mountKeyValue "t" "../policies/acl/admin" "2") = ["/v1/sys/policies/acl/admin"] ∧
      targets (mountKeyValue "t" "a?b" "2") = ["/v1/sys/mounts/a?b"] ∧
      targets (mountKeyValue "t" "a#b" "2") = targets (mountKeyValue "t" "a" "2") := by
  decide +kernel

end HttpClient

end Net

end SecretStore
