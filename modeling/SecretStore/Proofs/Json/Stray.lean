import SecretStore.Proofs.Json.InStep
import SecretStore.Proofs.Json.Parts
import SecretStore.Proofs.Quoted

/-!
# Records and stray texts

A record is read from two texts that look alike in step. What the error of one of them may show that
the other one's does not is a text that stands where the record itself, or a value of another type
in one of its fields, is expected: the first place where reading cannot go on.

* `Stuck`, `StuckInOrder`: the member of an object, or the item of an array, where reading stops.
* `Shape.Strays`: the texts of values in which a record stops at a text.
* `Whole.stuck_iff`, `stuckInOrder_part`: the same by the parts of a record.
* `Shape.InStep.reads`: records are read in step, and only texts that stray are shown.
* `Shape.InStep.halts`: reading stops at a text that strays, and shows it.
* `Shape.InStep.whole_cases`, `Shape.InStep.error_of_strays`: both of them for whole texts.
-/

namespace SecretStore.Json

variable {α σ : Type} {P P' : String → Prop} {r : Reader α} {d d' bs bs' ws rest rest' : Bytes}
variable {isFirst : Bool} {t : String}

/-! ### Readers that stop at a text -/

/-- A reader fails at this value and shows the text `t`, whatever stands around it. -/
def Halts (r : Reader α) (t : String) (d : Bytes) : Prop :=
  ∀ ⦃ws rest⦄, Blank ws → EndsNumber rest →
    ∃ fault, r (ws ++ (d ++ rest)) = .error fault ∧ fault.reason.strayText? = some t

theorem Halts.map {β : Type} (h : Halts r t d) (f : α → β) :
    Halts (fun bs => (r bs).map fun (a, rest) => (f a, rest)) t d := by
  intro ws rest hw hrest
  obtain ⟨fault, hread, hfault⟩ := h hw hrest
  refine ⟨fault, ?_, hfault⟩
  simp only [hread, Except.map]

theorem StringText.mismatch_eq (h : StringText t d) (expected : String) (rest : Bytes) :
    mismatch expected (d ++ rest) = ⟨.mismatch (.type (.text t) expected), rest⟩ := by
  obtain ⟨cs, hcs, rfl⟩ := h
  rw [List.cons_append, List.append_assoc, List.singleton_append, mismatch_quote, hcs.read]
  rfl

theorem StringText.halts_list (h : StringText t d) : Halts (readList r) t d := by
  intro ws rest hw hrest
  have hfault := h.mismatch_eq "a sequence" rest
  obtain ⟨cs, hcs, rfl⟩ := h
  refine ⟨⟨.mismatch (.type (.text t) "a sequence"), rest⟩, ?_, rfl⟩
  rw [List.cons_append] at hfault ⊢
  rw [readList, onByte_append hw (by decide), if_neg (by decide), hfault]

/-- What is read is what the reader takes. -/
theorem Exact.taken_of_ok (hr : Exact r) (hd : WellFormed d) (hw : Blank ws)
    (hrest : EndsNumber rest) {a : α} {after : Bytes}
    (h : r (ws ++ (d ++ rest)) = .ok (a, after)) : taken r d = some a := by
  have hread := hr hd hw hrest
  rw [h] at hread
  obtain ⟨a', ha', heq⟩ := Option.map_eq_some_iff.1 hread.symm
  obtain ⟨rfl, -⟩ := Prod.mk.inj heq
  exact ha'

/-! ### Where reading stops -/

section Stuck

variable (fields : List (Field σ)) (stops : Field σ → String → Bytes → Prop) (t : String)

/-- From some state on the members are read up to one whose field is still empty and stops at the
text `t`. -/
inductive Stuck : σ → List (Bytes × Bytes) → Prop
  | here {s : σ} {name : String} {c e : Bytes} {f : Field σ} {raw : List (Bytes × Bytes)}
      (hn : Spelling name.toList c) (hf : fields.find? (·.name == name) = some f)
      (hs : f.isSet s = false) (ht : stops f t e) : Stuck s ((c, e) :: raw)
  | later {s s' : σ} {name : String} {c d : Bytes} {raw : List (Bytes × Bytes)}
      (hn : Spelling name.toList c) (hd : fillOne fields s (name, d) = some s')
      (h : Stuck s' raw) : Stuck s ((c, d) :: raw)

/-- The items are read in order up to one whose field stops at the text `t`. -/
inductive StuckInOrder : List (Field σ) → σ → List Bytes → Prop
  | here {f : Field σ} {fields : List (Field σ)} {s : σ} {e : Bytes} {ds : List Bytes}
      (ht : stops f t e) : StuckInOrder (f :: fields) s (e :: ds)
  | later {f : Field σ} {fields : List (Field σ)} {s s' : σ} {d : Bytes} {ds : List Bytes}
      (hd : taken (f.read s) d = some s') (h : StuckInOrder fields s' ds) :
      StuckInOrder (f :: fields) s (d :: ds)

/-- The text of an object with these members, whatever their names spell. -/
def RowText (raw : List (Bytes × Bytes)) (d : Bytes) : Prop :=
  ∃ bs, MembersText true raw bs ∧ (∀ m ∈ raw, Contents m.1 ∧ WellFormed m.2) ∧ d = byte '\x7b' :: bs

/-- A record stops at the text `t`, which stands for the record or is the value of a field. -/
inductive Shape.Strays (shape : Shape σ α) (d : Bytes) : Prop
  | whole (h : StringText t d) : Strays shape d
  | member {raw : List (Bytes × Bytes)} (h : RowText raw d)
      (hs : Stuck shape.fields stops t shape.empty raw) : Strays shape d
  | item {ds : List Bytes} (h : ArrayText ds d)
      (hs : StuckInOrder stops t shape.fields shape.empty ds) : Strays shape d

end Stuck

/-! ### Members that are read before -/

section Before

variable {fields : List (Field σ)} {stops : Field σ → String → Bytes → Prop} {s s' : σ}
variable {ms : List (String × Bytes)} {raw raw' : List (Bytes × Bytes)}

theorem Stuck.append (hn : Names ms raw) (hf : fill fields s ms = some s')
    (h : Stuck fields stops t s' raw') : Stuck fields stops t s (raw ++ raw') := by
  induction hn generalizing s with
  | nil =>
    cases hf
    exact h
  | @cons m m' ms raw hm hn ih =>
    rw [fill, List.foldlM_cons] at hf
    obtain ⟨s₁, hone, hf⟩ := Option.bind_eq_some_iff.1 hf
    exact .later hm.1 (hm.2 ▸ hone) (ih hf)

/-- The members before the one where reading stops are read. -/
theorem Stuck.exists_append (h : Stuck fields stops t s raw) :
    ∃ ms s' before name c e f after, raw = before ++ (c, e) :: after ∧ Names ms before ∧
      fill fields s ms = some s' ∧ Spelling name.toList c ∧
      fields.find? (·.name == name) = some f ∧ f.isSet s' = false ∧ stops f t e := by
  induction h with
  | @here s name c e f raw hn hf hs ht =>
    exact ⟨[], s, [], name, c, e, f, raw, rfl, .nil, rfl, hn, hf, hs, ht⟩
  | @later s s' name c d raw hn hd h ih =>
    obtain ⟨ms, s'', before, name', c', e, f, after, rfl, hnames, hfill, htail⟩ := ih
    refine ⟨(name, d) :: ms, s'', (c, d) :: before, name', c', e, f, after, rfl,
      .cons ⟨hn, rfl⟩ hnames, ?_, htail⟩
    rw [fill, List.foldlM_cons, hd]
    exact hfill

/-- The members of a record are stuck at the first member of a part that stops there, and those
before it are read. -/
theorem Whole.stuck_iff {parts : List (Part σ)} {shape : Shape σ α} (hw : Whole parts shape) :
    Stuck shape.fields stops t shape.empty raw ↔
      ∃ p ∈ parts, ∃ ms s before c e after, raw = before ++ (c, e) :: after ∧ Names ms before ∧
        fill shape.fields shape.empty ms = some s ∧ Spelling p.name.toList c ∧
        p.name ∉ ms.map Prod.fst ∧ stops p.field t e := by
  constructor
  · intro h
    obtain ⟨ms, s, before, name, c, e, f, after, rfl, hnames, hfill, hspell, hfind, hset, hstop⟩ :=
      h.exists_append
    have hmem := List.mem_of_find?_eq_some hfind
    rw [hw.fields] at hmem
    obtain ⟨p, hp, rfl⟩ := List.mem_map.1 hmem
    obtain rfl : p.name = name := by simpa [Part.field] using List.find?_some hfind
    have hempty : p.get s = none := Option.not_isSome_iff_eq_none.1 (Bool.eq_false_iff.1 hset)
    exact ⟨p, hp, ms, s, before, c, e, after, rfl, hnames, hfill, hspell,
      (hw.get_eq_none_iff hfill hp).1 hempty, hstop⟩
  · rintro ⟨p, hp, ms, s, before, c, e, after, rfl, hnames, hfill, hspell, habsent, hstop⟩
    have hempty := (hw.get_eq_none_iff hfill hp).2 habsent
    have hset : p.field.isSet s = false := by simp [Part.field, hempty]
    have hfind := hw.find_part hp
    rw [← hw.fields] at hfind
    exact .append hnames hfill (.here hspell hfind hset hstop)

/-- The items of a record stop at the first part, or this one is read and they are stuck behind
it. -/
theorem stuckInOrder_part {p : Part σ} {ds : List Bytes} :
    StuckInOrder stops t (p.field :: fields) s ds ↔
      (∃ e tail, ds = e :: tail ∧ stops p.field t e) ∨
        ∃ d tail b, ds = d :: tail ∧ taken p.read d = some b ∧
          StuckInOrder stops t fields (p.put b s) tail := by
  have htaken (d : Bytes) : taken (p.field.read s) d = (taken p.read d).map fun b => p.put b s :=
    taken_map p.read (fun b => p.put b s) d
  constructor
  · intro h
    cases h with
    | here ht => exact .inl ⟨_, _, rfl, ht⟩
    | later hd h =>
      rw [htaken] at hd
      obtain ⟨b, hb, rfl⟩ := Option.map_eq_some_iff.1 hd
      exact .inr ⟨_, _, b, rfl, hb, h⟩
  · rintro (⟨e, tail, rfl, ht⟩ | ⟨d, tail, b, rfl, hb, h⟩)
    · exact .here ht
    · exact .later ((htaken d).trans (congrArg _ hb)) h

end Before

/-- Fields that read values which look alike in step, from states that `S` relates, and that stop at
the texts that `stops` names. -/
structure FieldsInStep (fields : List (Field σ)) (S : σ → σ → Prop)
    (stops : Field σ → String → Bytes → Prop) : Prop where
  exact : ∀ f ∈ fields, ∀ s, Exact (f.read s)
  isSet : ∀ f ∈ fields, ∀ ⦃s s'⦄, S s s' → f.isSet s = f.isSet s'
  reads : ∀ f ∈ fields, ∀ ⦃s s' d d'⦄, S s s' → Lookalike d d' →
    ReadsInStep (stops f · d) (stops f · d') S (f.read s) (f.read s') d d'
  halts : ∀ f ∈ fields, ∀ s ⦃t d⦄, stops f t d → Halts (f.read s) t d

/-- A part whose values are read in step, and which stops at the texts that `stops` names. -/
structure Part.InStep (p : Part σ) (S : σ → σ → Prop) (stops : String → Bytes → Prop) : Prop where
  isSet : ∀ ⦃s s'⦄, S s s' → (p.get s).isSome = (p.get s').isSome
  reads : ∀ ⦃s s' d d'⦄, S s s' → Lookalike d d' → ReadsInStep (stops · d) (stops · d')
    (fun b b' => S (p.put b s) (p.put b' s')) p.read p.read d d'
  halts : ∀ ⦃t d⦄, stops t d → Halts p.read t d

theorem Whole.fieldsInStep {parts : List (Part σ)} {shape : Shape σ α} (hw : Whole parts shape)
    {S : σ → σ → Prop} {stops : Field σ → String → Bytes → Prop}
    (h : ∀ p ∈ parts, p.InStep S (stops p.field)) : FieldsInStep shape.fields S stops := by
  refine ⟨hw.exact_field, ?_, ?_, ?_⟩
  all_goals
    rw [hw.fields]
    refine List.forall_mem_map.2 fun p hp => ?_
  · exact (h p hp).isSet
  · intro s s' d d' hS hd
    exact ((h p hp).reads hS hd).map (p.put · s) (p.put · s') fun _ _ hput => hput
  · intro s t d ht
    exact ((h p hp).halts ht).map (p.put · s)

section Fields

variable {fields : List (Field σ)} {S : σ → σ → Prop} {stops : Field σ → String → Bytes → Prop}
variable {s s' : σ}

/-! ### Members -/

theorem atObjectEnd_colon (m : Mismatch) (hw : Blank ws) (rest : Bytes) :
    atObjectEnd m (ws ++ byte ':' :: rest) = ⟨.mismatch m, byte ':' :: rest⟩ := by
  rw [atObjectEnd, skipBlanks_append hw, skipBlanks_cons (by decide)]
  rfl

/-- A member with a field of its name is read by that field. -/
theorem fillOne_of_find {f : Field σ} {name : String} (hf : fields.find? (·.name == name) = some f)
    (hs : f.isSet s = false) : fillOne fields s (name, d) = taken (f.read s) d := by
  rw [fillOne, hf]
  simp only [hs, Bool.false_eq_true, if_false]

theorem fillOne_of_find_none {name : String} (hf : fields.find? (·.name == name) = none) :
    fillOne fields s (name, d) = some s := by
  rw [fillOne, hf]

/-- One more member of two objects. -/
theorem FieldsInStep.member (hF : FieldsInStep fields S stops) {sep ws ws' tail tail' : Bytes}
    {m : MemberPair} {raw raw' : List (Bytes × Bytes)} {fuel : Nat} (hs : Separator isFirst sep)
    (hw : Blank ws) (hw' : Blank ws') (hn : Contents m.name) (hd : Lookalike m.left m.right)
    (he : EndsNumber tail) (he' : EndsNumber tail') (htails : tail.length = tail'.length)
    (hrest : ∀ s s', S s s' → InStep (fun t => Stuck fields stops t s raw)
      (fun t => Stuck fields stops t s' raw') S rest rest' (readFields fields fuel false s tail)
      (readFields fields fuel false s' tail')) (hS : S s s') :
    InStep (fun t => Stuck fields stops t s (m.onLeft :: raw))
      (fun t => Stuck fields stops t s' (m.onRight :: raw')) S rest rest'
      (readFields fields (fuel + 1) isFirst s (sep ++ byte '"' ::
        (m.name ++ byte '"' :: (ws ++ byte ':' :: (ws' ++ (m.left ++ tail))))))
      (readFields fields (fuel + 1) isFirst s' (sep ++ byte '"' ::
        (m.name ++ byte '"' :: (ws ++ byte ':' :: (ws' ++ (m.right ++ tail')))))) := by
  have hvalues : (ws' ++ (m.left ++ tail)).length = (ws' ++ (m.right ++ tail')).length := by
    simp only [List.length_append, hd.sameLines.length_eq, htails]
  have hcolons : (ws ++ byte ':' :: (ws' ++ (m.left ++ tail))).length =
      (ws ++ byte ':' :: (ws' ++ (m.right ++ tail'))).length := by
    rw [List.length_append, List.length_append, List.length_cons, List.length_cons, hvalues]
  rw [readFields, readFields, nextMember_more hs, nextMember_more hs]
  rcases hn.name_cases hcolons with ⟨name, hspell, hx, hx'⟩ | ⟨f, f', hx, hx', hf⟩
  all_goals simp only [hx, hx']
  · cases hfind : fields.find? (·.name == name) with
    | none =>
      -- the member is passed over
      simp only [readColon_append hw, hd.wellFormed.1.skip hw' he, hd.wellFormed.2.skip hw' he']
      exact (hrest s s' hS).mono (fun t => .later hspell (fillOne_of_find_none hfind))
        fun t => .later hspell (fillOne_of_find_none hfind)
    | some f =>
      have hmem := List.mem_of_find?_eq_some hfind
      have hset := hF.isSet f hmem hS
      by_cases hs : f.isSet s = true
      · simp only [hs, ← hset, if_true, atObjectEnd_colon _ hw]
        exact inStep_error rfl (congrArg (· + 1) hvalues)
      · have hs' : f.isSet s' = false := by rwa [← hset, Bool.eq_false_iff]
        rw [Bool.not_eq_true] at hs
        simp only [hs, hs', Bool.false_eq_true, if_false, readColon_append hw]
        rcases (hF.reads f hmem hS hd hw' he he' htails).outcome with
          ⟨s₁, s₁', hy, hy', hS₁⟩ | ⟨g, g', hy, hy', hg⟩
        all_goals simp only [hy, hy']
        · have hleft := (hF.exact f hmem s).taken_of_ok hd.wellFormed.1 hw' he hy
          have hright := (hF.exact f hmem s').taken_of_ok hd.wellFormed.2 hw' he' hy'
          exact (hrest s₁ s₁' hS₁).mono
            (fun t => .later hspell ((fillOne_of_find hfind hs).trans hleft))
            fun t => .later hspell ((fillOne_of_find hfind hs').trans hright)
        · exact .error (hg.mono (fun t => .here hspell hfind hs) fun t => .here hspell hfind hs')
  · exact .error (hf _ _)

/-- The members of two objects are read in step, and what strays is where they are stuck. -/
theorem FieldsInStep.members (hF : FieldsInStep fields S stops) {ms : List MemberPair}
    (h : LookalikeMembers isFirst ms bs bs')
    (hm : ∀ m ∈ ms, Contents m.name ∧ Lookalike m.left m.right) {fuel : Nat}
    (hfuel : bs.length ≤ fuel) (hlen : rest.length = rest'.length) (hS : S s s') :
    InStep (fun t => Stuck fields stops t s (ms.map MemberPair.onLeft))
      (fun t => Stuck fields stops t s' (ms.map MemberPair.onRight)) S rest rest'
      (readFields fields fuel isFirst s (bs ++ rest))
      (readFields fields fuel isFirst s' (bs' ++ rest')) := by
  induction h generalizing s s' fuel with
  | nil hw =>
    obtain ⟨k, rfl⟩ : ∃ k, fuel = k + 1 := ⟨fuel - 1, by simp at hfuel; omega⟩
    rw [readFields, readFields, List.append_assoc, List.append_assoc, List.singleton_append,
      List.singleton_append, nextMember_finished hw, nextMember_finished hw]
    exact .ok hS
  | @cons isFirst sep ws ws' bs bs' m ms hs hw hw' h ih =>
    obtain ⟨⟨hn, hd⟩, hms⟩ := List.forall_mem_cons.1 hm
    simp only [List.length_append, List.length_cons] at hfuel
    obtain ⟨k, rfl⟩ : ∃ k, fuel = k + 1 := ⟨fuel - 1, by omega⟩
    have htails : (bs ++ rest).length = (bs' ++ rest').length := by
      rw [List.length_append, List.length_append, hlen,
        (h.sameLines fun m hm => (hms m hm).2.sameLines).length_eq]
    have hturn := hF.member hs hw hw' hn hd (h.left.endsNumber rest) (h.right.endsNumber rest')
      htails (fun s s' hS => ih hms (by omega : bs.length ≤ k) hS) hS
    simpa using hturn

/-- A member that fills a field, or has none, is read and the next one follows. -/
theorem readFields_of_fillOne (hf : ∀ f ∈ fields, ∀ s, Exact (f.read s)) {sep c ws ws' : Bytes}
    {name : String} {fuel : Nat} (hs : Separator isFirst sep) (hn : Spelling name.toList c)
    (hw : Blank ws) (hw' : Blank ws') (hd : WellFormed d) (hrest : EndsNumber rest)
    (hfill : fillOne fields s (name, d) = some s') :
    readFields fields (fuel + 1) isFirst s (sep ++ byte '"' ::
        (c ++ byte '"' :: (ws ++ byte ':' :: (ws' ++ (d ++ rest))))) =
      readFields fields fuel false s' rest := by
  rw [readFields, nextMember_more hs]
  simp only [hn.read]
  cases hfind : fields.find? (·.name == name) with
  | none =>
    rw [fillOne_of_find_none hfind] at hfill
    simp only [readColon_append hw, hd.skip hw' hrest, Option.some.inj hfill]
  | some f =>
    cases hset : f.isSet s with
    | true => simp [fillOne, hfind, hset] at hfill
    | false =>
      rw [fillOne_of_find hfind hset] at hfill
      have hread := hf f (List.mem_of_find?_eq_some hfind) s hd hw' hrest
      rw [hfill, Option.map_some, toOption_eq_some_iff] at hread
      simp only [hset, Bool.false_eq_true, if_false, readColon_append hw, hread]

/-- Members that are stuck at a text are not read, and the text is shown. -/
theorem FieldsInStep.halts_members (hF : FieldsInStep fields S stops) {raw : List (Bytes × Bytes)}
    (hs : Stuck fields stops t s raw) (h : MembersText isFirst raw bs)
    (hr : ∀ m ∈ raw, Contents m.1 ∧ WellFormed m.2) {fuel : Nat} (hfuel : bs.length ≤ fuel)
    (rest : Bytes) : ∃ fault, readFields fields fuel isFirst s (bs ++ rest) = .error fault ∧
      fault.reason.strayText? = some t := by
  obtain ⟨k, rfl⟩ : ∃ k, fuel = k + 1 := ⟨fuel - 1, by have := h.length_pos; omega⟩
  induction hs generalizing isFirst bs k with
  | @here s name c e f raw hn hf hset ht =>
    obtain ⟨-, he⟩ := (List.forall_mem_cons.1 hr).1
    cases h with
    | @cons _ sep _ ws ws' _ bs _ hsep hw hw' h =>
      obtain ⟨fault, hread, hfault⟩ :=
        hF.halts f (List.mem_of_find?_eq_some hf) s ht hw' (h.endsNumber rest)
      refine ⟨fault, ?_, hfault⟩
      simp only [List.append_assoc, List.cons_append]
      rw [readFields, nextMember_more hsep]
      simp only [hn.read, hf, hset, Bool.false_eq_true, if_false, readColon_append hw, hread]
  | @later s s' name c d raw hn hfill hs ih =>
    obtain ⟨⟨-, hd⟩, htail⟩ := List.forall_mem_cons.1 hr
    cases h with
    | @cons _ sep _ ws ws' _ bs _ hsep hw hw' h =>
      have hlen := h.length_pos
      simp only [List.length_append, List.length_cons] at hfuel
      obtain ⟨k, rfl⟩ : ∃ j, k = j + 1 := ⟨k - 1, by omega⟩
      simp only [List.append_assoc, List.cons_append]
      rw [readFields_of_fillOne hF.exact hsep hn hw hw' hd (h.endsNumber rest) hfill]
      exact ih h htail k (by omega)

/-! ### Items in order -/

/-- The end of a record that is written as an array is found in both, or missed in step. -/
theorem LookalikeItems.end_cases {ps : List (Bytes × Bytes)} (h : LookalikeItems isFirst ps bs bs')
    (hd : ∀ p ∈ ps, Lookalike p.1 p.2) (hlen : rest.length = rest'.length) :
    (readArrayEnd (bs ++ rest) = .ok rest ∧ readArrayEnd (bs' ++ rest') = .ok rest') ∨
    ∃ f f', readArrayEnd (bs ++ rest) = .error f ∧ readArrayEnd (bs' ++ rest') = .error f' ∧
      ∀ P P', f.InStep P P' f' := by
  cases h with
  | nil hw =>
    refine .inl ⟨?_, ?_⟩ <;>
      rw [readArrayEnd, List.append_assoc, skipBlanks_append hw, List.singleton_append,
        skipBlanks_cons (by decide)] <;> rfl
  | @cons _ sep d d' bs bs' ps hs h =>
    obtain ⟨hp, hps⟩ := List.forall_mem_cons.1 hd
    have htails := (h.sameLines fun p hp => (hps p hp).sameLines).length_eq
    have hvalue : d.length = d'.length := hp.sameLines.length_eq
    obtain ⟨b, tail, rfl, hblank, hend, hcomma⟩ := hp.wellFormed.1.head
    obtain ⟨b', tail', rfl, hblank', hend', hcomma'⟩ := hp.wellFormed.2.head
    have hafter : (tail ++ (bs ++ rest)).length = (tail' ++ (bs' ++ rest')).length := by
      simp only [List.length_append, List.length_cons] at hvalue ⊢
      omega
    refine .inr ⟨⟨.trailingCharacters, tail ++ (bs ++ rest)⟩,
      ⟨.trailingCharacters, tail' ++ (bs' ++ rest')⟩, ?_, ?_, fun _ _ => .same rfl hafter⟩
    all_goals
      cases hs with
      | first hw =>
        simp only [readArrayEnd, List.append_assoc, List.cons_append, skipBlanks_append hw,
          skipBlanks_cons, hblank, hblank', hend, hend', hcomma, hcomma', if_false]
      | next hw hw' =>
        have hne : byte ',' ≠ byte ']' := by decide
        have hbc : isBlank (byte ',') = false := by decide
        simp only [readArrayEnd, List.append_assoc, List.cons_append, skipBlanks_append hw,
          skipBlanks_append hw', skipBlanks_cons, hbc, hblank, hblank', hend, hend', hne, if_false,
          if_true]

/-- The items of two arrays are read in order in step. -/
theorem FieldsInStep.items (hF : FieldsInStep fields S stops) {ps : List (Bytes × Bytes)}
    (expected : String) (read : Nat) (h : LookalikeItems (read == 0) ps bs bs')
    (hd : ∀ p ∈ ps, Lookalike p.1 p.2) (hlen : rest.length = rest'.length) (hS : S s s') :
    InStep (fun t => StuckInOrder stops t fields s (ps.map Prod.fst))
      (fun t => StuckInOrder stops t fields s' (ps.map Prod.snd)) S rest rest'
      (readInOrder expected read s fields (bs ++ rest))
      (readInOrder expected read s' fields (bs' ++ rest')) := by
  induction fields generalizing read bs bs' ps s s' with
  | nil =>
    rw [readInOrder, readInOrder]
    rcases h.end_cases hd hlen with ⟨hx, hx'⟩ | ⟨f, f', hx, hx', hf⟩
    all_goals rw [hx, hx']
    · exact .ok hS
    · exact .error (hf _ _)
  | cons field fields ih =>
    cases h with
    | nil hw =>
      rw [readInOrder, readInOrder, List.append_assoc, List.append_assoc, List.singleton_append,
        List.singleton_append, nextItem_finished hw, nextItem_finished hw]
      dsimp only
      split
      · exact .ok hS
      · exact inStep_error rfl hlen
    | @cons _ sep d d' bs bs' ps hs h =>
      obtain ⟨hp, hps⟩ := List.forall_mem_cons.1 hd
      have htails : (bs ++ rest).length = (bs' ++ rest').length := by
        rw [List.length_append, List.length_append, hlen,
          (h.sameLines fun p hp => (hps p hp).sameLines).length_eq]
      have hmem : field ∈ field :: fields := List.mem_cons_self
      have hF' : FieldsInStep fields S stops :=
        ⟨fun f hf => hF.exact f (List.mem_cons_of_mem _ hf),
          fun f hf => hF.isSet f (List.mem_cons_of_mem _ hf),
          fun f hf => hF.reads f (List.mem_cons_of_mem _ hf),
          fun f hf => hF.halts f (List.mem_cons_of_mem _ hf)⟩
      have he := h.left.endsNumber rest
      have he' := h.right.endsNumber rest'
      have hitem := hF.reads field hmem hS hp Blank.nil he he' htails
      rw [List.nil_append, List.nil_append] at hitem
      rw [readInOrder, readInOrder, List.append_assoc, List.append_assoc, List.append_assoc,
        List.append_assoc, nextItem_text hs hp.wellFormed.1, nextItem_text hs hp.wellFormed.2]
      rcases hitem.outcome with ⟨s₁, s₁', hx, hx', hS₁⟩ | ⟨f, f', hx, hx', hf⟩
      all_goals simp only [hx, hx']
      · have hleft := (hF.exact field hmem s).taken_of_ok hp.wellFormed.1 Blank.nil he hx
        have hright := (hF.exact field hmem s').taken_of_ok hp.wellFormed.2 Blank.nil he' hx'
        exact (ih hF' (read + 1) h hps hS₁).mono (fun t => .later hleft) fun t => .later hright
      · exact .error (hf.mono (fun t => .here) fun t => .here)

/-- Items that are stuck at a text are not read, and the text is shown. -/
theorem FieldsInStep.halts_items {all : List (Field σ)} (hF : FieldsInStep all S stops)
    {ds : List Bytes} (expected : String) (read : Nat) (hsub : fields ⊆ all)
    (hs : StuckInOrder stops t fields s ds) (h : ItemsText (read == 0) ds bs)
    (hd : ∀ d ∈ ds, WellFormed d) (rest : Bytes) :
    ∃ fault, readInOrder expected read s fields (bs ++ rest) = .error fault ∧
      fault.reason.strayText? = some t := by
  induction hs generalizing read bs with
  | @here f fields s e ds ht =>
    obtain ⟨he, -⟩ := List.forall_mem_cons.1 hd
    cases h with
    | @cons _ sep _ bs _ hsep h =>
      obtain ⟨fault, hread, hfault⟩ :=
        hF.halts f (hsub List.mem_cons_self) s ht Blank.nil (h.endsNumber rest)
      refine ⟨fault, ?_, hfault⟩
      rw [List.nil_append] at hread
      rw [readInOrder, List.append_assoc, List.append_assoc, nextItem_text hsep he]
      simp only [hread]
  | @later f fields s s' d ds hfill hs ih =>
    obtain ⟨he, hds⟩ := List.forall_mem_cons.1 hd
    obtain ⟨hmem, htail⟩ := List.cons_subset.1 hsub
    cases h with
    | @cons _ sep _ bs _ hsep h =>
      have hread := (hF.exact f hmem s).append he (h.endsNumber rest)
      rw [hfill, Option.map_some, toOption_eq_some_iff] at hread
      rw [readInOrder, List.append_assoc, List.append_assoc, nextItem_text hsep he]
      simp only [hread]
      exact ih (read + 1) htail h hds

end Fields

/-! ### Records -/

/-- A record with fields that are read in step, from which it is made in step. -/
structure Shape.InStep (shape : Shape σ α) (S : σ → σ → Prop)
    (stops : Field σ → String → Bytes → Prop) (R : α → α → Prop) : Prop where
  fields : FieldsInStep shape.fields S stops
  empty : S shape.empty shape.empty
  finish : ∀ ⦃s s'⦄, S s s' →
    (∃ a a', shape.finish s = .ok a ∧ shape.finish s' = .ok a' ∧ R a a') ∨
      ∃ m, shape.finish s = .error m ∧ shape.finish s' = .error m ∧
        (Reason.mismatch m).strayText? = none

variable {shape : Shape σ α} {S : σ → σ → Prop} {stops : Field σ → String → Bytes → Prop}
variable {R : α → α → Prop}

/-- The end of a record whose members or items have been read. -/
def Shape.close (shape : Shape σ α) : Except Fault (σ × Bytes) → Except Fault (α × Bytes)
  | .error f => .error f
  | .ok (s, after) =>
    match shape.finish s with
    | .ok a => .ok (a, after)
    | .error m => .error ⟨.mismatch m, after⟩

/-- What an error says is expected of an array. -/
def Shape.elements (shape : Shape σ α) : String :=
  s!"{shape.expected} with {shape.fields.length} elements"

theorem Shape.reader_object (shape : Shape σ α) (hw : Blank ws) (bs : Bytes) :
    shape.reader (ws ++ byte '\x7b' :: bs) =
      shape.close (readFields shape.fields (bs.length + 1) true shape.empty bs) := by
  rw [reader, onByte_append hw (by decide), if_pos rfl]
  rfl

theorem Shape.reader_array (shape : Shape σ α) (hw : Blank ws) (bs : Bytes) :
    shape.reader (ws ++ byte '[' :: bs) =
      shape.close (readInOrder shape.elements 0 shape.empty shape.fields bs) := by
  rw [reader, onByte_append hw (by decide), if_neg (by decide), if_pos rfl]
  rfl

theorem Shape.reader_other (shape : Shape σ α) {b : UInt8} (hw : Blank ws)
    (hb : isBlank b = false) (hbracket : b ≠ byte '[') (hbrace : b ≠ byte '\x7b') (bs : Bytes) :
    shape.reader (ws ++ b :: bs) = .error (mismatch shape.expected (b :: bs)) := by
  rw [reader, onByte_append hw hb, if_neg hbrace, if_neg hbracket]

theorem Shape.InStep.close (hI : shape.InStep S stops R) {x y : Except Fault (σ × Bytes)}
    (h : Json.InStep P P' S rest rest' x y) (hlen : rest.length = rest'.length) :
    Json.InStep P P' R rest rest' (shape.close x) (shape.close y) := by
  rcases h.outcome with ⟨s, s', rfl, rfl, hS⟩ | ⟨f, f', rfl, rfl, hf⟩
  · rw [Shape.close, Shape.close]
    rcases hI.finish hS with ⟨a, a', ha, ha', hR⟩ | ⟨m, ha, ha', hnone⟩
    all_goals rw [ha, ha']
    · exact .ok hR
    · exact inStep_error hnone hlen
  · exact .error hf

/-- A record is read from lookalikes in step, and what strays is what strays in each of them. -/
theorem Shape.InStep.reads (hI : shape.InStep S stops R) (h : Lookalike d d') :
    ReadsInStep (fun t => shape.Strays stops t d) (fun t => shape.Strays stops t d') R shape.reader
      shape.reader d d' := by
  intro ws rest rest' hw hrest hrest' hlen
  rcases h.bracket_cases with ⟨ps, bs, bs', hi, hps, rfl, rfl⟩ | ⟨ms, bs, bs', hm, hms, rfl, rfl⟩ |
    ⟨b, bs, bs', rfl, rfl, hb, hbracket, hbrace⟩
  · rw [List.cons_append, List.cons_append, shape.reader_array hw, shape.reader_array hw]
    refine hI.close ((hI.fields.items shape.elements 0 hi hps hlen hI.empty).mono
      (fun t => .item ⟨bs, hi.left, ?_, rfl⟩) fun t => .item ⟨bs', hi.right, ?_, rfl⟩) hlen
    · exact List.forall_mem_map.2 fun p hp => (hps p hp).wellFormed.1
    · exact List.forall_mem_map.2 fun p hp => (hps p hp).wellFormed.2
  · have hlen' : (bs ++ rest).length = (bs' ++ rest').length := by
      rw [List.length_append, List.length_append, hlen,
        (hm.sameLines fun m hm => (hms m hm).2.sameLines).length_eq]
    have hfuel : bs.length ≤ (bs ++ rest).length + 1 := by
      rw [List.length_append]
      omega
    rw [List.cons_append, List.cons_append, shape.reader_object hw, shape.reader_object hw, ← hlen']
    refine hI.close ((hI.fields.members hm hms hfuel hlen hI.empty).mono
      (fun t => .member ⟨bs, hm.left, ?_, rfl⟩) fun t => .member ⟨bs', hm.right, ?_, rfl⟩) hlen
    · exact List.forall_mem_map.2 fun m hm => ⟨(hms m hm).1, (hms m hm).2.wellFormed.1⟩
    · exact List.forall_mem_map.2 fun m hm => ⟨(hms m hm).1, (hms m hm).2.wellFormed.2⟩
  · have hfault : Fault.InStep (fun t => shape.Strays stops t (b :: bs))
        (fun t => shape.Strays stops t (b :: bs')) _ _ :=
      h.mismatch (fun t => .whole) (fun t => .whole) hrest hrest' hlen shape.expected
    rw [List.cons_append, List.cons_append] at hfault ⊢
    rw [shape.reader_other hw hb hbracket hbrace, shape.reader_other hw hb hbracket hbrace]
    exact .error hfault

/-- Where a text strays, reading stops, and the text is shown. -/
theorem Shape.InStep.halts (hI : shape.InStep S stops R) (h : shape.Strays stops t d) :
    Halts shape.reader t d := by
  intro ws rest hw hrest
  cases h with
  | whole h =>
    have hfault := h.mismatch_eq shape.expected rest
    obtain ⟨cs, hcs, rfl⟩ := h
    refine ⟨⟨.mismatch (.type (.text t) shape.expected), rest⟩, ?_, rfl⟩
    rw [List.cons_append] at hfault ⊢
    rw [shape.reader_other hw (by decide) (by decide) (by decide), hfault]
  | member h hs =>
    obtain ⟨bs, hm, hr, rfl⟩ := h
    have hfuel : bs.length ≤ (bs ++ rest).length + 1 := by
      rw [List.length_append]
      omega
    obtain ⟨fault, hread, hfault⟩ := hI.fields.halts_members hs hm hr hfuel rest
    refine ⟨fault, ?_, hfault⟩
    rw [List.cons_append, shape.reader_object hw, hread, Shape.close]
  | item h hs =>
    obtain ⟨bs, hi, hd, rfl⟩ := h
    obtain ⟨fault, hread, hfault⟩ :=
      hI.fields.halts_items shape.elements 0 (List.Subset.refl _) hs hi hd rest
    refine ⟨fault, ?_, hfault⟩
    rw [List.cons_append, shape.reader_array hw, hread, Shape.close]

/-! ### Whole texts -/

theorem whole_of_ok {body : Bytes} {a : α} (hw : Blank ws) (h : r body = .ok (a, ws)) :
    whole r body = .ok a := by
  rw [whole, h]
  simp only [skipBlanks_of_blank hw]

theorem whole_of_error {body : Bytes} {f : Fault} (h : r body = .error f) :
    whole r body = .error (f.locate body) := by
  rw [whole, h]

theorem Error.message_inj {reason reason' : Reason} {line column : Nat} :
    (Error.mk reason line column).message = (Error.mk reason' line column).message ↔
      reason.message = reason'.message := by
  unfold Error.message
  rw [String.append_left_inj, String.append_left_inj, String.append_left_inj,
    String.append_left_inj]
  rfl

theorem Reason.message_text_eq (t expected : String) :
    (Reason.mismatch (.type (.text t) expected)).message =
      "invalid type: " ++ ("string " ++ Text.quote t) ++ ", expected " ++ expected :=
  rfl

theorem Reason.message_text_inj {t t' expected : String} :
    (Reason.mismatch (.type (.text t) expected)).message =
      (Reason.mismatch (.type (.text t') expected)).message ↔ t = t' := by
  rw [message_text_eq, message_text_eq, String.append_left_inj, String.append_left_inj,
    String.append_right_inj, String.append_right_inj, Text.quote_inj]

/-- The wording of an error that shows a text. -/
theorem Error.message_text (t expected : String) (line column : Nat) :
    (Error.mk (.mismatch (.type (.text t) expected)) line column).message =
      "invalid type: string " ++ Text.quote t ++
        (", expected " ++ expected ++ s!" at line {line} column {column}") := by
  have hjoin : "invalid type: string " = "invalid type: " ++ "string " := by decide
  have hself (s : String) : toString s = s := rfl
  unfold Error.message
  simp only [Reason.message_text_eq, hjoin, hself, String.append_assoc]

/-- The error of a record that stops at a text shows the text. -/
theorem Shape.InStep.error_of_strays (hI : shape.InStep S stops R) {ws' : Bytes} (hw : Blank ws)
    (hw' : Blank ws') (h : shape.Strays stops t d) : ∃ e place,
      whole shape.reader (ws ++ (d ++ ws')) = .error e ∧
        e.message = "invalid type: string " ++ Text.quote t ++ place := by
  obtain ⟨fault, hread, hfault⟩ := hI.halts h hw (endsNumber_blank hw')
  obtain ⟨reason, rest⟩ := fault
  -- only one kind of reason shows a text
  match reason, hfault with
  | .mismatch (.type (.text t) expected), rfl =>
    exact ⟨_, _, whole_of_error hread, Error.message_text t expected _ _⟩

/-- From lookalikes a record is read, or neither of them is. The errors are worded the same unless
different texts stray in them. -/
theorem Shape.InStep.whole_cases (hI : shape.InStep S stops R) {ws' : Bytes} (h : Lookalike d d')
    (hw : Blank ws) (hw' : Blank ws') :
    (∃ a a', whole shape.reader (ws ++ (d ++ ws')) = .ok a ∧
      whole shape.reader (ws ++ (d' ++ ws')) = .ok a' ∧ R a a') ∨
    ∃ e e', whole shape.reader (ws ++ (d ++ ws')) = .error e ∧
      whole shape.reader (ws ++ (d' ++ ws')) = .error e' ∧
      (e.message = e'.message ↔
        ∀ t t', shape.Strays stops t d → shape.Strays stops t' d' → t = t') := by
  have hend := endsNumber_blank hw'
  have hlines : SameLines (ws ++ (d ++ ws')) (ws ++ (d' ++ ws')) :=
    (h.sameLines.append (.refl ws')).append_left ws
  rcases (hI.reads h hw hend hend rfl).outcome with ⟨a, a', hx, hx', hR⟩ | ⟨f, f', hx, hx', hf⟩
  · exact .inl ⟨a, a', whole_of_ok hw' hx, whole_of_ok hw' hx', hR⟩
  · obtain ⟨line, column, hl, hl'⟩ := Fault.locate_eq hlines hf.length_eq
    refine .inr ⟨_, _, whole_of_error hx, whole_of_error hx', ?_⟩
    rw [hl, hl', Error.message_inj]
    -- a text that strays is the one that is shown
    have hshown {t : String} {d : Bytes} {f : Fault} (ht : shape.Strays stops t d)
        (hx : shape.reader (ws ++ (d ++ ws')) = .error f) : f.reason.strayText? = some t := by
      obtain ⟨g, hg, hstray⟩ := hI.halts ht hw hend
      rw [hx] at hg
      cases hg
      exact hstray
    cases hf with
    | same hr hlen =>
      refine iff_of_true rfl fun t t' ht _ => ?_
      have hstray := (hshown ht hx).symm.trans hr
      cases hstray
    | @stray t t' expected rest rest' ht ht' hlen =>
      rw [Reason.message_text_inj]
      constructor
      · rintro rfl u u' hu hu'
        exact (Option.some.inj (hshown hu hx)).symm.trans (Option.some.inj (hshown hu' hx'))
      · intro hall
        exact hall t t' ht ht'

end SecretStore.Json
