import Mathlib.Data.List.Forall2
import SecretStore.Json.Record
import SecretStore.Proofs.Json.Printed

/-!
# Texts of records

`Takes r v a` says that the reader `r` takes every text of the document `v` for `a`, and leaves what
follows. Strings, arrays and records have one lemma each: `takes_text`, `takes_list` and
`Shape.takes`. The last one rests on `Fills`, which follows the members of an object as they fill
the fields of a record one after another.
-/

namespace SecretStore.Json

variable {α σ : Type} {r : Reader α} {v : Value} {a : α} {ws bs rest : Bytes} {isFirst : Bool}
variable {fuel : Nat}

/-- The reader takes all texts of the document for `a`, also behind blanks. -/
def Takes (r : Reader α) (v : Value) (a : α) : Prop :=
  ∀ ⦃ws bs rest : Bytes⦄, Blank ws → Written (.value v) bs → EndsNumber rest →
    r (ws ++ (bs ++ rest)) = .ok (a, rest)

theorem onByte_append (hw : Blank ws) {b : UInt8} (hb : isBlank b = false)
    (read : UInt8 → Bytes → Except Fault (α × Bytes)) :
    onByte (ws ++ b :: bs) read = read b bs := by
  rw [onByte, skipBlanks_append hw, skipBlanks_cons hb]

theorem Takes.map {β : Type} (h : Takes r v a) (f : α → β) :
    Takes (fun bs => (r bs).map fun (a, rest) => (f a, rest)) v (f a) := by
  intro ws bs rest hw hv hrest
  simp only [h hw hv hrest]
  rfl

/-! ### Strings and arrays -/

theorem takes_text (s : String) : Takes readText (.string s) s := by
  intro ws bs rest hw h hrest
  cases h with
  | string s =>
    rw [encode_quoted, List.cons_append, readText, onByte_append hw (by decide), if_pos rfl,
      List.append_assoc, List.singleton_append, readString_quoted]

/-- The items of an array are read one after another, each spending one unit of fuel. -/
theorem readItems_written {vs : List Value} {as : List α} (h : List.Forall₂ (Takes r) vs as)
    (hw : Written (.items isFirst vs) bs) (hfuel : bs.length ≤ fuel) :
    readItems r fuel isFirst (bs ++ rest) = .ok (as, rest) := by
  induction h generalizing isFirst bs fuel with
  | nil =>
    cases hw with
    | @noItem _ ws hw =>
      cases fuel with
      | zero => simp at hfuel
      | succ fuel =>
        rw [readItems, List.append_assoc, List.singleton_append, nextItem_finished hw]
  | @cons v a vs as hv hvs ih =>
    cases hw with
    | @item _ sep bs rest' _ _ hs hwv hr =>
      have hlen := hwv.length_pos
      simp only [List.length_append] at hfuel
      cases fuel with
      | zero => omega
      | succ fuel =>
        have hitem : r (bs ++ (rest' ++ rest)) = .ok (a, rest' ++ rest) :=
          hv Blank.nil hwv hr.endsNumber_items
        have hitems : readItems r fuel false (rest' ++ rest) = .ok (as, rest) :=
          ih hr (by omega)
        rw [readItems, List.append_assoc, List.append_assoc, nextItem_written hs hwv]
        simp only [hitem, hitems]
        rfl

theorem takes_list {vs : List Value} {as : List α} (h : List.Forall₂ (Takes r) vs as) :
    Takes (readList r) (.array vs) as := by
  intro ws bs rest hw hv hrest
  cases hv with
  | array hi =>
    rw [List.cons_append, readList, onByte_append hw (by decide), if_pos rfl]
    refine readItems_written h hi ?_
    rw [List.length_append]
    omega

theorem takes_texts (ss : List String) :
    Takes (readList readText) (.array (ss.map .string)) ss := by
  refine takes_list ?_
  rw [List.forall₂_map_left_iff]
  exact List.forall₂_same.2 fun s _ => takes_text s

/-! ### Records -/

/-- The members of an object fill the fields of a record one after another: each has a field of its
name that is still empty and takes its value. -/
inductive Fills (fields : List (Field σ)) : σ → List (String × Value) → σ → Prop
  | nil {s : σ} : Fills fields s [] s
  | cons {s s' s'' : σ} {name : String} {v : Value} {ms : List (String × Value)} {field : Field σ}
      (hf : fields.find? (·.name == name) = some field) (hs : field.isSet s = false)
      (hv : Takes (field.read s) v s') (hr : Fills fields s' ms s'') :
      Fills fields s ((name, v) :: ms) s''

theorem Fills.append {fields : List (Field σ)} {s s' s'' : σ} {ms ms' : List (String × Value)}
    (h : Fills fields s ms s') (h' : Fills fields s' ms' s'') :
    Fills fields s (ms ++ ms') s'' := by
  induction h with
  | nil => exact h'
  | cons hf hs hv hr ih => exact .cons hf hs hv (ih h')

/-- The members of an object are read one after another, each spending one unit of fuel. -/
theorem readFields_written {fields : List (Field σ)} {s s' : σ} {ms : List (String × Value)}
    (h : Fills fields s ms s') (hw : Written (.members isFirst ms) bs) (hfuel : bs.length ≤ fuel) :
    readFields fields fuel isFirst s (bs ++ rest) = .ok (s', rest) := by
  induction h generalizing isFirst bs fuel with
  | nil =>
    cases hw with
    | @noMember _ ws hw =>
      cases fuel with
      | zero => simp at hfuel
      | succ fuel =>
        rw [readFields, List.append_assoc, List.singleton_append, nextMember_finished hw]
  | @cons s s' s'' name v ms field hf hset hv hr ih =>
    cases hw with
    | @member _ sep ws ws' bs rest' _ _ _ hs hw hw' hwv hr =>
      simp only [List.length_append, List.length_cons] at hfuel
      cases fuel with
      | zero => omega
      | succ fuel =>
        have hvalue : field.read s (ws' ++ (bs ++ (rest' ++ rest))) = .ok (s', rest' ++ rest) :=
          hv hw' hwv hr.endsNumber_members
        have hmembers : readFields fields fuel false s' (rest' ++ rest) = .ok (s'', rest) :=
          ih hr (by omega)
        simp only [List.append_assoc, List.cons_append]
        rw [readFields, nextMember_quoted hs]
        simp only [readString_quoted, hf, hset, readColon_append hw, hvalue, hmembers]
        rfl

/-- A record is taken from an object whose members fill it up. -/
theorem Shape.takes {shape : Shape σ α} {s : σ} {ms : List (String × Value)}
    (h : Fills shape.fields shape.empty ms s) (hs : shape.finish s = .ok a) :
    Takes shape.reader (.object ms) a := by
  intro ws bs rest hw hv hrest
  cases hv with
  | @object _ bs hm =>
    have hfields : readFields shape.fields ((bs ++ rest).length + 1) true shape.empty
        (bs ++ rest) = .ok (s, rest) := by
      refine readFields_written h hm ?_
      rw [List.length_append]
      omega
    rw [List.cons_append, Shape.reader, onByte_append hw (by decide), if_pos rfl, hfields]
    simp only [hs]

/-! ### Whole texts -/

/-- A document is taken from its compact form. -/
theorem Takes.whole_compact {d : Nat} (h : Takes r v a) (hv : Printable d v) :
    whole r (Bytes.ofString v.compact) = .ok a := by
  have hread : r (Utf8.encode v.compactChars) = .ok (a, []) := by
    have hr := h Blank.nil (written_compactChars hv) (show EndsNumber [] from nofun)
    rwa [List.nil_append, List.append_nil] at hr
  rw [Bytes.ofString, Value.compact, String.toList_ofList, whole, hread]
  rfl

end SecretStore.Json
