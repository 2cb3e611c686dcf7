import SecretStore.Proofs.Json.Stray
import SecretStore.Proofs.Operations
import SecretStore.Proofs.Replies

/-!
# What the error of an initialization tells

The reply to an initialization holds the root token and the key shares, and a reply that cannot be
decoded is reported with the words of the decoder. Two replies that look alike hold other secrets
in the same places. Decoding either succeeds on both or fails on both, and then with the same words,
but for one case: a string where the reply or its list of shares is expected is repeated word for
word.

* `InitMaterial.redacted_eq_iff`: the text for logs tells how many shares there are, and no more.
* `InitMaterial.Exposes`: the text that the error of a reply repeats.
* `InitMaterial.inStep`: material is read in step from replies that look alike.
* `Client.init_error_tells_iff`: the errors of two such replies differ exactly if these texts do.
-/

namespace SecretStore

open Json

/-! ### The wording of errors -/

/-- Two failures of one kind have the same text exactly if their messages are the same. -/
theorem ClientError.text_eq_iff {e e' : ClientError} (h : e.kind = e'.kind) :
    e.toFailure.text = e'.toFailure.text ↔ e.message = e'.message := by
  unfold toFailure Failure.text
  rw [h, String.append_right_inj]

theorem ClientError.decode_message_inj {operation words words' : String} {status : UInt16} :
    (decode operation status words).message = (decode operation status words').message ↔
      words = words' := by
  unfold message
  rw [String.append_right_inj]

/-! ### The text for logs -/

/-- The digits of a number end where a blank follows them. -/
theorem toDigits_blank_inj {n n' : Nat} {cs cs' : List Char}
    (h : Nat.toDigits 10 n ++ ' ' :: cs = Nat.toDigits 10 n' ++ ' ' :: cs') :
    n = n' ∧ cs = cs' := by
  have htake (n : Nat) (cs : List Char) :
      (Nat.toDigits 10 n ++ ' ' :: cs).takeWhile Char.isDigit = Nat.toDigits 10 n := by
    rw [List.takeWhile_append_of_pos fun c => isDigit_of_mem_toDigits,
      List.takeWhile_cons_of_neg (by decide), List.append_nil]
  have hdigits : Nat.toDigits 10 n = Nat.toDigits 10 n' := by rw [← htake n cs, h, htake]
  rw [hdigits, List.append_cancel_left_eq, List.cons.injEq] at h
  refine ⟨?_, h.2⟩
  calc
    n = Nat.ofDigitChars 10 (Nat.toDigits 10 n) 0 := Nat.ofDigitChars_ten_toDigits.symm
    _ = Nat.ofDigitChars 10 (Nat.toDigits 10 n') 0 := by rw [hdigits]
    _ = n' := Nat.ofDigitChars_ten_toDigits

namespace InitMaterial

/-- The text for logs tells how many shares there are in each encoding, and no more. -/
theorem redacted_eq_iff {m m' : InitMaterial} : m.redacted = m'.redacted ↔
    m.keys.length = m'.keys.length ∧ m.keysBase64.length = m'.keysBase64.length := by
  unfold redacted
  refine ⟨fun h => ?_, fun ⟨hkeys, hkeys'⟩ => by rw [hkeys, hkeys']⟩
  have hchars := congrArg String.toList h
  have hblank : (toString " REDACTED], ").toList = ' ' :: "REDACTED], ".toList := by decide
  have hblank' : (toString " REDACTED] \x7d").toList = ' ' :: "REDACTED] \x7d".toList := by decide
  simp only [String.toList_append, Nat.toString_eq_repr, Nat.toList_repr, List.append_assoc,
    List.append_cancel_left_eq, hblank, hblank', List.cons_append] at hchars
  obtain ⟨hkeys, hrest⟩ := toDigits_blank_inj hchars
  rw [List.append_cancel_left_eq, List.append_cancel_left_eq] at hrest
  obtain ⟨hkeys', -⟩ := toDigits_blank_inj hrest
  exact ⟨hkeys, hkeys'⟩

/-! ### Texts that an error repeats -/

/-- There is no member of that name, or just one, and its text is one that `P` knows. -/
def Perhaps {β : Type} (P : β → Bytes → Prop) (ms : List (String × Bytes)) (name : String) : Prop :=
  name ∉ ms.map Prod.fst ∨ ∃ b, Given P ms name b

/-- Members that are read, whatever follows them. -/
structure Readable (ms : List (String × Bytes)) : Prop where
  rootToken : Perhaps StringText ms "root_token"
  keys : Perhaps (ListText StringText) ms "keys"
  keysBase64 : Perhaps (ListText StringText) ms "keys_base64"

/-- The error of a reply repeats the text `t`: the reply is that string, or the string stands in
place of a list of shares, in an object or in an array, and all before it is read. -/
inductive Exposes (t : String) (d : Bytes) : Prop
  | reply (h : StringText t d)
  | member {before after : List (Bytes × Bytes)} {ms : List (String × Bytes)} {name : String}
      {c e : Bytes} (h : RowText (before ++ (c, e) :: after) d) (hbefore : Names ms before)
      (hread : Readable ms) (hname : name = "keys" ∨ name = "keys_base64")
      (hfirst : name ∉ ms.map Prod.fst) (hc : Spelling name.toList c) (he : StringText t e)
  | second {token : String} {a e : Bytes} {ds : List Bytes} (h : ArrayText (a :: e :: ds) d)
      (ha : StringText token a) (he : StringText t e)
  | third {token : String} {keys : List String} {a b e : Bytes} {ds : List Bytes}
      (h : ArrayText (a :: b :: e :: ds) d) (ha : StringText token a)
      (hb : ListText StringText keys b) (he : StringText t e)

/-- A field stops at the text that stands in place of its list. -/
def Stops (f : Json.Field Parts) (t : String) (e : Bytes) : Prop :=
  (f.name = "keys" ∨ f.name = "keys_base64") ∧ StringText t e

theorem perhaps_iff {β : Type} {r : Reader β} {P : β → Bytes → Prop} (h : Spells r P)
    {ms : List (String × Bytes)} (hd : ∀ m ∈ ms, WellFormed m.2) {name : String} :
    Perhaps P ms name ↔ ∃ o, member r ms name = some o := by
  constructor
  · rintro (habsent | ⟨b, hb⟩)
    · exact ⟨none, member_of_absent habsent⟩
    · exact ⟨some b, (h.given_iff hd).2 hb⟩
  · rintro ⟨o, ho⟩
    cases o with
    | none => exact .inl (member_eq_some_none_iff.1 ho)
    | some b => exact .inr ⟨b, (h.given_iff hd).1 ho⟩

theorem readable_iff {ms : List (String × Bytes)} (hd : ∀ m ∈ ms, WellFormed m.2) :
    Readable ms ↔ ∃ s, fill shape.fields shape.empty ms = some s := by
  simp only [whole_parts.fill_empty_eq_some_iff, parts, List.forall_mem_cons, List.not_mem_nil,
    false_implies, implies_true, and_true]
  constructor
  · rintro ⟨htoken, hkeys, hkeys'⟩
    obtain ⟨token, htoken⟩ := (perhaps_iff spells_text hd).1 htoken
    obtain ⟨keys, hkeys⟩ := (perhaps_iff spells_text.list hd).1 hkeys
    obtain ⟨keys', hkeys'⟩ := (perhaps_iff spells_text.list hd).1 hkeys'
    exact ⟨⟨token, keys, keys'⟩, htoken, hkeys, hkeys'⟩
  · rintro ⟨s, htoken, hkeys, hkeys'⟩
    exact ⟨(perhaps_iff spells_text hd).2 ⟨_, htoken⟩,
      (perhaps_iff spells_text.list hd).2 ⟨_, hkeys⟩,
      (perhaps_iff spells_text.list hd).2 ⟨_, hkeys'⟩⟩

theorem exposes_of_items {t : String} {d : Bytes} {ds : List Bytes} (hd : ArrayText ds d)
    (h : StuckInOrder Stops t shape.fields shape.empty ds) : Exposes t d := by
  obtain ⟨bs, -, hds, -⟩ := id hd
  rw [whole_parts.fields] at h
  rcases stuckInOrder_part.1 h with ⟨e, tail, rfl, hname, -⟩ | ⟨a, tail, token, rfl, ha, h⟩
  · simp [Part.field] at hname
  obtain ⟨hwa, htail⟩ := List.forall_mem_cons.1 hds
  have ha : StringText token a := (spells_text.taken_iff hwa).1 ha
  rcases stuckInOrder_part.1 h with ⟨e, tail, rfl, -, he⟩ | ⟨b, tail, keys, rfl, hb, h⟩
  · exact .second hd ha he
  have hb : ListText StringText keys b :=
    (spells_text.list.taken_iff (htail b List.mem_cons_self)).1 hb
  rcases stuckInOrder_part.1 h with ⟨e, tail, rfl, -, he⟩ | ⟨c, tail, keys', rfl, -, h⟩
  · exact .third hd ha hb he
  · cases h

/-- The texts that stray in a reply are the ones that its error repeats. -/
theorem strays_iff {t : String} {d : Bytes} : shape.Strays Stops t d ↔ Exposes t d := by
  have hraw {ms : List (String × Bytes)} {before after : List (Bytes × Bytes)}
      (hnames : Names ms before) (hrow : RowText (before ++ after) d) :
      ∀ m ∈ ms, WellFormed m.2 := by
    obtain ⟨bs, -, hraw, -⟩ := hrow
    exact hnames.forall fun m hm => (hraw m (List.mem_append_left _ hm)).2
  constructor
  · rintro (h | ⟨hrow, hs⟩ | ⟨h, hs⟩)
    · exact .reply h
    · obtain ⟨p, hp, ms, s, before, c, e, after, rfl, hnames, hfill, hspell, hfirst, hname, he⟩ :=
        whole_parts.stuck_iff.1 hs
      have hread : Readable ms := (readable_iff (hraw hnames hrow)).2 ⟨s, hfill⟩
      exact .member hrow hnames hread hname hfirst hspell he
    · exact exposes_of_items h hs
  · rintro (h | @⟨before, after, ms, name, c, e, hrow, hnames, hread, hname, hfirst, hspell, he⟩ |
      ⟨h, ha, he⟩ | ⟨h, ha, hb, he⟩)
    · exact .whole h
    · obtain ⟨s, hfill⟩ := (readable_iff (hraw hnames hrow)).1 hread
      obtain ⟨p, hp, rfl⟩ : ∃ p ∈ parts, p.name = name := by
        rcases hname with rfl | rfl
        · exact ⟨_, .tail _ (.head _), rfl⟩
        · exact ⟨_, .tail _ (.tail _ (.head _)), rfl⟩
      exact .member hrow (whole_parts.stuck_iff.2
        ⟨p, hp, ms, s, before, c, e, after, rfl, hnames, hfill, hspell, hfirst, hname, he⟩)
    · obtain ⟨bs, -, hds, -⟩ := id h
      have ha := (spells_text.taken_iff (hds _ (.head _))).2 ha
      refine .item h ?_
      rw [whole_parts.fields]
      refine stuckInOrder_part.2 (.inr ⟨_, _, _, rfl, ha, ?_⟩)
      exact stuckInOrder_part.2 (.inl ⟨_, _, rfl, .inl rfl, he⟩)
    · obtain ⟨bs, -, hds, -⟩ := id h
      have ha := (spells_text.taken_iff (hds _ (.head _))).2 ha
      have hb := (spells_text.list.taken_iff (hds _ (.tail _ (.head _)))).2 hb
      refine .item h ?_
      rw [whole_parts.fields]
      refine stuckInOrder_part.2 (.inr ⟨_, _, _, rfl, ha, ?_⟩)
      refine stuckInOrder_part.2 (.inr ⟨_, _, _, rfl, hb, ?_⟩)
      exact stuckInOrder_part.2 (.inl ⟨_, _, rfl, .inr rfl, he⟩)

/-! ### Material that is read in step -/

/-- The parts that two replies have given so far: the same ones, with as many shares. -/
structure SameParts (p p' : Parts) : Prop where
  rootToken : p.rootToken.isSome = p'.rootToken.isSome
  keys : p.keys.map List.length = p'.keys.map List.length
  keysBase64 : p.keysBase64.map List.length = p'.keysBase64.map List.length

/-- Lists of texts are read in step, and the texts in them are not shown. -/
theorem reads_texts {P P' : String → Prop} {R : List String → List String → Prop} {d d' : Bytes}
    (hd : Lookalike d d') (hP : ∀ t, StringText t d → P t) (hP' : ∀ t, StringText t d' → P' t)
    (hR : ∀ ks ks', ks.length = ks'.length → R ks ks') :
    ReadsInStep P P' R (readList readText) (readList readText) d d' := by
  intro ws rest rest' hw hrest hrest' hlen
  have hlists := hd.readList (fun _ _ hp => hp.readText) hP hP' hw hrest hrest' hlen
  exact hlists.imp fun ks ks' h => hR ks ks' h.length_eq

theorem parts_inStep : ∀ p ∈ parts, p.InStep SameParts (Stops p.field) := by
  simp only [parts, List.forall_mem_cons, List.not_mem_nil, false_implies, implies_true, and_true]
  refine ⟨⟨fun p p' h => h.rootToken, fun p p' d d' h hd => ?token, fun t d hstops => ?root⟩,
    ⟨fun p p' h => ?isSet, fun p p' d d' h hd => ?keys, fun t d hstops => hstops.2.halts_list⟩,
    ⟨fun p p' h => ?isSet', fun p p' d d' h hd => ?keys', fun t d hstops => hstops.2.halts_list⟩⟩
  case token =>
    intro ws rest rest' hw hrest hrest' hlen
    refine (hd.readText hw hrest hrest' hlen).imp fun _ _ _ => ?_
    exact ⟨rfl, h.keys, h.keysBase64⟩
  case root =>
    -- the token is no list
    exact absurd hstops.1 (by simp [Part.field])
  case isSet => simpa using congrArg Option.isSome h.keys
  case keys =>
    refine reads_texts hd (fun t ht => ⟨.inl rfl, ht⟩) (fun t ht => ⟨.inl rfl, ht⟩) ?_
    exact fun ks ks' hlen => ⟨h.rootToken, congrArg some hlen, h.keysBase64⟩
  case isSet' => simpa using congrArg Option.isSome h.keysBase64
  case keys' =>
    refine reads_texts hd (fun t ht => ⟨.inr rfl, ht⟩) (fun t ht => ⟨.inr rfl, ht⟩) ?_
    exact fun ks ks' hlen => ⟨h.rootToken, h.keys, congrArg some hlen⟩

/-- Material is read in step from replies that look alike, with as many shares from both. -/
theorem inStep : shape.InStep SameParts Stops fun m m' =>
    m.keys.length = m'.keys.length ∧ m.keysBase64.length = m'.keysBase64.length where
  fields := whole_parts.fieldsInStep parts_inStep
  empty := ⟨rfl, rfl, rfl⟩
  finish := by
    rintro ⟨token, keys, keys'⟩ ⟨token', ks, ks'⟩ ⟨htoken, hkeys, hkeys'⟩
    have hlength {o o' : Option (List String)} (h : o.map List.length = o'.map List.length) :
        (o.getD []).length = (o'.getD []).length := by
      rw [← Option.getD_map List.length, h, Option.getD_map]
    cases token with
    | none =>
      obtain rfl : token' = none := by simpa using htoken
      exact .inr ⟨_, rfl, rfl, rfl⟩
    | some token =>
      obtain ⟨token', rfl⟩ : ∃ u, token' = some u := by
        simpa [Option.isSome_iff_exists] using htoken.symm
      exact .inl ⟨_, _, rfl, rfl, hlength hkeys, hlength hkeys'⟩

/-- Replies that look alike are both decoded, or neither is. The words of the decoder are the same
unless the replies expose different texts. -/
theorem decode_cases {x x' : Exchange} {ws ws' d d' : Bytes} (hop : x.operation = x'.operation)
    (hstatus : x.status = x'.status) (hd : Lookalike d d') (hw : Blank ws) (hw' : Blank ws')
    (hbody : x.body = ws ++ (d ++ ws')) (hbody' : x'.body = ws ++ (d' ++ ws')) :
    (∃ m m', x.decode shape.reader = .ok m ∧ x'.decode shape.reader = .ok m' ∧
      m.redacted = m'.redacted) ∨
    ∃ words words', x.decode shape.reader = .error (.decode x.operation x.status words) ∧
      x'.decode shape.reader = .error (.decode x.operation x.status words') ∧
      (words = words' ↔ ∀ t t', Exposes t d → Exposes t' d' → t = t') := by
  rw [Exchange.decode, Exchange.decode, hbody, hbody', ← hop, ← hstatus]
  rcases inStep.whole_cases hd hw hw' with ⟨m, m', hm, hm', hlen⟩ | ⟨e, e', he, he', hwords⟩
  · rw [hm, hm']
    exact .inl ⟨m, m', rfl, rfl, redacted_eq_iff.2 hlen⟩
  · rw [he, he']
    simp only [strays_iff] at hwords
    exact .inr ⟨e.message, e'.message, rfl, rfl, hwords⟩

/-- The text that a reply exposes is in the words of the decoder. -/
theorem decode_of_exposes {x : Exchange} {ws ws' d : Bytes} {t : String} (hw : Blank ws)
    (hw' : Blank ws') (hbody : x.body = ws ++ (d ++ ws')) (h : Exposes t d) :
    ∃ place, x.decode shape.reader = .error (.decode x.operation x.status
      ("invalid type: string " ++ Text.quote t ++ place)) := by
  obtain ⟨e, place, he, hmessage⟩ := inStep.error_of_strays hw hw' (strays_iff.2 h)
  refine ⟨place, ?_⟩
  rw [Exchange.decode, hbody, he, ← hmessage]

end InitMaterial

namespace Client

variable {shares threshold : UInt32}

theorem init_run (h : validShares shares threshold = true) :
    (init shares threshold).run = .note (.initStrategy shares threshold)
      (.ask (initRequest shares threshold) fun reply => .done reply.material) := by
  unfold init
  rw [if_pos h]
  refine congrArg (Interaction.note _) (congrArg (Interaction.ask _) (funext fun reply => ?_))
  cases reply <;> rfl

theorem init_run_refused (h : validShares shares threshold = false) :
    (init shares threshold).run = .done (.error (sharesRefused shares threshold)) := by
  unfold init
  rw [h]
  rfl

/-- **What the error of an initialization tells of the secrets.** Let the request be answered by two
replies that look alike: they differ in the contents of strings alone, and these are as long. The
call notes the same events, and it ends with material from both or with an error from both. The
texts for logs tell the numbers of shares only. The errors are worded the same, also for the
operator, unless both replies expose a text and these texts differ. A text that is exposed stands in
the error word for word. -/
theorem init_error_tells_iff {σ σ' : Type} {answer : Request → σ → Reply × σ}
    {answer' : Request → σ' → Reply × σ'} {s : σ} {s' : σ'} {x x' : Exchange} {ws ws' d d' : Bytes}
    (hx : (answer (initRequest shares threshold) s).1 = .ok x)
    (hx' : (answer' (initRequest shares threshold) s').1 = .ok x')
    (hop : x.operation = x'.operation) (hstatus : x.status = x'.status) (hw : Blank ws)
    (hw' : Blank ws') (hbody : x.body = ws ++ (d ++ ws')) (hbody' : x'.body = ws ++ (d' ++ ws'))
    (hd : Lookalike d d') :
    let out := (init shares threshold).run.run answer s
    let out' := (init shares threshold).run.run answer' s'
    let tells := (1 ≤ threshold ∧ threshold ≤ shares) ∧
      ∃ t t', InitMaterial.Exposes t d ∧ InitMaterial.Exposes t' d' ∧ t ≠ t'
    out.events = out'.events ∧
    ((∃ m m', out.result = .ok m ∧ out'.result = .ok m' ∧ m.redacted = m'.redacted) ∨
      ∃ e e', out.result = .error e ∧ out'.result = .error e' ∧ e.kind = e'.kind ∧
        (e.message ≠ e'.message ↔ tells) ∧ (e.toFailure.text ≠ e'.toFailure.text ↔ tells)) ∧
    (∀ t, 1 ≤ threshold ∧ threshold ≤ shares → InitMaterial.Exposes t d →
      ∃ place, out.result = .error (.decode x.operation x.status
        ("invalid type: string " ++ Text.quote t ++ place))) ∧
    ∀ m m' : InitMaterial, m.redacted = m'.redacted ↔
      m.keys.length = m'.keys.length ∧ m.keysBase64.length = m'.keysBase64.length := by
  intro out out' tells
  refine ⟨?events, ?result, ?shown, fun m m' => InitMaterial.redacted_eq_iff⟩
  case events =>
    cases hv : validShares shares threshold with
    | true => simp only [out, out', init_run hv, Interaction.run]
    | false => simp only [out, out', init_run_refused hv, Interaction.run]
  case shown =>
    intro t hvalid ht
    simp only [out, init_run (validShares_iff.2 hvalid), Interaction.run, hx]
    exact InitMaterial.decode_of_exposes hw hw' hbody ht
  case result =>
    cases hv : validShares shares threshold with
    | false =>
      have hrefused : ¬tells := by
        rintro ⟨hvalid, -⟩
        rw [validShares_iff.2 hvalid] at hv
        cases hv
      refine .inr ⟨sharesRefused shares threshold, sharesRefused shares threshold, ?_⟩
      simp [out, out', init_run_refused hv, Interaction.run, hrefused]
    | true =>
      have hresult : out.result = x.decode InitMaterial.shape.reader := by
        simp only [out, init_run hv, Interaction.run, hx]
        rfl
      have hresult' : out'.result = x'.decode InitMaterial.shape.reader := by
        simp only [out', init_run hv, Interaction.run, hx']
        rfl
      rw [hresult, hresult']
      rcases InitMaterial.decode_cases hop hstatus hd hw hw' hbody hbody' with
        hok | ⟨words, words', he, he', hwords⟩
      · exact .inl hok
      · have htells : words ≠ words' ↔ tells := by
          rw [Ne, hwords]
          simp only [not_forall, exists_prop, tells, validShares_iff.1 hv, true_and]
        have hkind : (ClientError.decode x.operation x.status words).kind =
            (ClientError.decode x.operation x.status words').kind := rfl
        refine .inr ⟨_, _, he, he', hkind, ?_, ?_⟩
        · rwa [Ne, ClientError.decode_message_inj]
        · rwa [Ne, ClientError.text_eq_iff hkind, ClientError.decode_message_inj]

theorem init_error_tells_of_string_keys :
    let reply (keys : String) : Exchange := ⟨"initialize secret store", 200,
      Bytes.ofString ("\x7b\"keys\":\"" ++ keys ++ "\"\x7d")⟩
    let out (keys : String) := (init 1 1).run.run (fun _ s => (.ok (reply keys), s)) ()
    Lookalike (reply "first").body (reply "other").body ∧
    ∃ e e', (out "first").result = .error e ∧ (out "other").result = .error e' ∧
      e.message ≠ e'.message ∧ e.toFailure.text ≠ e'.toFailure.text := by
  intro reply out
  let name := Utf8.encode "keys".toList
  let quoted (s : String) : Bytes := byte '"' :: (Utf8.encode s.toList ++ [byte '"'])
  have hname : Spelling "keys".toList name := spelling_flatMap "keys".toList
  have hfirst : StringText "first" (quoted "first") := ⟨_, spelling_flatMap "first".toList, rfl⟩
  have hother : StringText "other" (quoted "other") := ⟨_, spelling_flatMap "other".toList, rfl⟩
  have hvalue : Lookalike (quoted "first") (quoted "other") :=
    .string (lookalikeContents_of_isAlphanum rfl (List.all_eq_true.1 rfl) (List.all_eq_true.1 rfl))
  have hrow : LookalikeMembers true [⟨name, quoted "first", quoted "other"⟩] _ _ :=
    .cons (.first .nil) .nil .nil (.nil .nil)
  have hd : Lookalike (reply "first").body (reply "other").body :=
    .object hrow (List.forall_mem_singleton.2 hname.contents) (List.forall_mem_singleton.2 hvalue)
  have hleft : RowText ([] ++ (name, quoted "first") :: []) (reply "first").body :=
    ⟨_, hrow.left, List.forall_mem_singleton.2 ⟨hname.contents, hvalue.wellFormed.1⟩, rfl⟩
  have hright : RowText ([] ++ (name, quoted "other") :: []) (reply "other").body :=
    ⟨_, hrow.right, List.forall_mem_singleton.2 ⟨hname.contents, hvalue.wellFormed.2⟩, rfl⟩
  have hread : InitMaterial.Readable [] := ⟨.inl nofun, .inl nofun, .inl nofun⟩
  have hexposes : InitMaterial.Exposes "first" (reply "first").body :=
    .member hleft .nil hread (.inl rfl) nofun hname hfirst
  have hexposes' : InitMaterial.Exposes "other" (reply "other").body :=
    .member hright .nil hread (.inl rfl) nofun hname hother
  obtain ⟨-, hresult, hshown, -⟩ := @init_error_tells_iff 1 1 Unit Unit
    (fun _ s => (.ok (reply "first"), s)) (fun _ s => (.ok (reply "other"), s)) () ()
    (reply "first") (reply "other") [] [] _ _ rfl rfl rfl rfl .nil .nil
    (List.append_nil _).symm (List.append_nil _).symm hd
  refine ⟨hd, ?_⟩
  rcases hresult with ⟨m, m', hm, -⟩ | ⟨e, e', he, he', -, hmessage, htext⟩
  · obtain ⟨place, herror⟩ := hshown "first" (by decide) hexposes
    cases hm.symm.trans herror
  · have htells : ∃ t t', InitMaterial.Exposes t (reply "first").body ∧
        InitMaterial.Exposes t' (reply "other").body ∧ t ≠ t' :=
      ⟨"first", "other", hexposes, hexposes', by decide⟩
    exact ⟨e, e', he, he', hmessage.2 ⟨by decide, htells⟩, htext.2 ⟨by decide, htells⟩⟩

/-- A key that is given as a string is told in both texts of the error. -/
theorem init_error_shows_key :
    let reply (keys : String) : Exchange := ⟨"initialize secret store", 200,
      Bytes.ofString ("\x7b\"root_token\":\"t\",\"keys\":\"" ++ keys ++ "\"\x7d")⟩
    let out (keys : String) := (init 1 1).run.run (fun _ s => (.ok (reply keys), s)) ()
    let told (keys : String) : ClientError := .decode "initialize secret store" 200
      ("invalid type: string \"" ++ keys ++ "\", expected a sequence at line 1 column 32")
    (out "first").result = .error (told "first") ∧ (out "other").result = .error (told "other") ∧
      (told "first").message ≠ (told "other").message ∧
      (told "first").toFailure.text ≠ (told "other").toFailure.text := by
  decide +kernel

end Client

end SecretStore
