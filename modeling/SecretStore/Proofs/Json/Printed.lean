import SecretStore.Proofs.Json.Grammar

/-!
# Printed documents are read back

Both forms that the printer gives a document are texts of it, so a document is read back from them:
`parse_compact` and `parse_pretty`. `Printable` documents are those whose numbers fit into 64 bits
and whose brackets nest at most so deep.
-/

namespace SecretStore.Json

/-! ### Documents that can be read back -/

/-- Documents with natural numbers of 64 bits whose brackets nest at most so deep. -/
inductive Printable : Nat → Value → Prop
  | null {d : Nat} : Printable d .null
  | bool {d : Nat} (b : Bool) : Printable d (.bool b)
  | number {d n : Nat} (hn : n ≤ maxCoefficient) : Printable d (.number (.unsigned n))
  | string {d : Nat} (s : String) : Printable d (.string s)
  | array {d : Nat} {vs : List Value} (h : ∀ v ∈ vs, Printable d v) : Printable (d + 1) (.array vs)
  | object {d : Nat} {ms : List (String × Value)} (h : ∀ m ∈ ms, Printable d m.2) :
      Printable (d + 1) (.object ms)

variable {d : Nat} {v : Value}

theorem heightItems_le {vs : List Value} (h : ∀ v ∈ vs, v.height ≤ d) : heightItems vs ≤ d := by
  induction vs with
  | nil => exact Nat.zero_le _
  | cons v vs ih =>
    exact Nat.max_le.2 ⟨h v List.mem_cons_self, ih fun v hv => h v (List.mem_cons_of_mem _ hv)⟩

theorem heightMembers_le {ms : List (String × Value)} (h : ∀ m ∈ ms, m.2.height ≤ d) :
    heightMembers ms ≤ d := by
  induction ms with
  | nil => exact Nat.zero_le _
  | cons m ms ih =>
    exact Nat.max_le.2 ⟨h m List.mem_cons_self, ih fun m hm => h m (List.mem_cons_of_mem _ hm)⟩

theorem Printable.height_le (h : Printable d v) : v.height ≤ d := by
  induction h with
  | null | bool | number | string => exact Nat.zero_le _
  | array h ih => exact Nat.succ_le_succ (heightItems_le ih)
  | object h ih => exact Nat.succ_le_succ (heightMembers_le ih)

/-! ### Items and members in a row -/

/-- The characters that the printer puts between tokens are blanks. -/
theorem blank_encode {cs : List Char} (h : ∀ c ∈ cs, c = ' ' ∨ c = '\n') :
    Blank (Utf8.encode cs) := by
  intro b hb
  obtain ⟨c, hc, hb⟩ := List.mem_flatMap.1 hb
  rcases h c hc with rfl | rfl
  · rw [List.mem_singleton.1 hb]
    decide
  · rw [List.mem_singleton.1 hb]
    decide

theorem blank_newline (level : Nat) : Blank (Utf8.encode (Value.newline level)) := by
  refine blank_encode fun c hc => ?_
  rcases List.mem_cons.1 hc with hc | hc
  · exact .inr hc
  · exact .inl (List.eq_of_mem_replicate hc)

/-- Texts in a row with commas between them, each behind the same characters. -/
def joined {α : Type} (indent : List Char) (text : α → List Char) : List α → List Char
  | [] => []
  | [a] => indent ++ text a
  | a :: b :: rest => indent ++ text a ++ ',' :: joined indent text (b :: rest)

/-- What stands between a text in a row and those behind it. -/
def comma {α : Type} : List α → List Char
  | [] => []
  | _ :: _ => [',']

theorem joined_cons {α : Type} (indent : List Char) (text : α → List Char) (a : α)
    (rest : List α) :
    joined indent text (a :: rest) =
      indent ++ (text a ++ (comma rest ++ joined indent text rest)) := by
  cases rest with
  | nil => simp [joined, comma]
  | cons b rest => simp [joined, comma]

/-- A member with its name, and the characters between the colon and the document. -/
def labelled (gap : List Char) (text : Value → List Char) (m : String × Value) : List Char :=
  quoted m.1 ++ ':' :: (gap ++ text m.2)

theorem compactItems_eq (vs : List Value) :
    Value.compactItems vs = joined [] Value.compactChars vs := by
  induction vs with
  | nil => rfl
  | cons v vs ih => cases vs <;> simp_all [Value.compactItems, joined]

theorem compactMembers_eq (ms : List (String × Value)) :
    Value.compactMembers ms = joined [] (labelled [] Value.compactChars) ms := by
  induction ms with
  | nil => rfl
  | cons m ms ih => cases ms <;> simp_all [Value.compactMembers, joined, labelled]

theorem prettyItems_eq (level : Nat) (vs : List Value) :
    Value.prettyItems level vs = joined (Value.newline level) (Value.prettyChars level) vs := by
  induction vs with
  | nil => rfl
  | cons v vs ih => cases vs <;> simp_all [Value.prettyItems, joined]

theorem prettyMembers_eq (level : Nat) (ms : List (String × Value)) :
    Value.prettyMembers level ms =
      joined (Value.newline level) (labelled [' '] (Value.prettyChars level)) ms := by
  induction ms with
  | nil => rfl
  | cons m ms ih => cases ms <;> simp_all [Value.prettyMembers, joined, labelled]

section Rows

variable {indent close gap : List Char} {text : Value → List Char}

/-- The comma in front of the next text in a row, unless it is the first. -/
def lead {α : Type} (isFirst : Bool) (as : List α) : List Char :=
  if isFirst then [] else comma as

theorem lead_false {α : Type} (as : List α) : lead false as = comma as := rfl

theorem encode_lead_nil {α : Type} (isFirst : Bool) :
    Utf8.encode (lead isFirst ([] : List α)) = [] := by
  cases isFirst <;> rfl

theorem separator_lead {α : Type} (hi : Blank (Utf8.encode indent)) (isFirst : Bool) (a : α)
    (rest : List α) : Separator isFirst (Utf8.encode (lead isFirst (a :: rest) ++ indent)) := by
  cases isFirst with
  | true => exact .first hi
  | false => exact .next Blank.nil hi

/-- A row of texts is a text of the items. -/
theorem written_items (hi : Blank (Utf8.encode indent)) (hc : Blank (Utf8.encode close))
    {vs : List Value} (h : ∀ v ∈ vs, Written (.value v) (Utf8.encode (text v))) (isFirst : Bool) :
    Written (.items isFirst vs)
      (Utf8.encode (lead isFirst vs ++ (joined indent text vs ++ (close ++ [']'])))) := by
  induction vs generalizing isFirst with
  | nil =>
    rw [Utf8.encode_append, encode_lead_nil, List.nil_append, joined, List.nil_append,
      Utf8.encode_append]
    exact .noItem hc
  | cons v vs ih =>
    have hrest := ih (fun v hv => h v (List.mem_cons_of_mem _ hv)) false
    have hitem := Written.item (separator_lead hi isFirst v vs) (h v List.mem_cons_self) hrest
    simpa only [joined_cons, lead_false, Utf8.encode_append, List.append_assoc] using hitem

/-- A row of labelled texts is a text of the members. -/
theorem written_members (hi : Blank (Utf8.encode indent)) (hg : Blank (Utf8.encode gap))
    (hc : Blank (Utf8.encode close)) {ms : List (String × Value)}
    (h : ∀ m ∈ ms, Written (.value m.2) (Utf8.encode (text m.2))) (isFirst : Bool) :
    Written (.members isFirst ms)
      (Utf8.encode (lead isFirst ms ++
        (joined indent (labelled gap text) ms ++ (close ++ ['\x7d'])))) := by
  induction ms generalizing isFirst with
  | nil =>
    rw [Utf8.encode_append, encode_lead_nil, List.nil_append, joined, List.nil_append,
      Utf8.encode_append]
    exact .noMember hc
  | cons m ms ih =>
    have hrest := ih (fun m hm => h m (List.mem_cons_of_mem _ hm)) false
    have hmember : Written (.members isFirst (m :: ms)) _ :=
      .member (separator_lead hi isFirst m ms) Blank.nil hg (h m List.mem_cons_self) hrest
    have hcolon (cs : List Char) : Utf8.encode (':' :: cs) = byte ':' :: Utf8.encode cs := rfl
    simpa only [joined_cons, lead_false, labelled, Utf8.encode_append, List.append_assoc,
      List.nil_append, List.cons_append, hcolon] using hmember

end Rows

/-! ### The two forms -/

theorem toList_render (n : Nat) : (Number.unsigned n).render.toList = Nat.toDigits 10 n :=
  String.toList_ofList

/-- The compact form is a text of the document. -/
theorem written_compactChars (h : Printable d v) :
    Written (.value v) (Utf8.encode v.compactChars) := by
  have hnone : Blank (Utf8.encode []) := Blank.nil
  induction h with
  | null => exact .null
  | bool b =>
    cases b with
    | true => exact .yes
    | false => exact .no
  | number hn =>
    rw [Value.compactChars, toList_render]
    exact .number hn
  | string s => exact .string s
  | @array d vs h ih =>
    have hitems := written_items hnone hnone ih true
    rw [Value.compactChars, compactItems_eq]
    exact .array hitems
  | @object d ms h ih =>
    have hmembers := written_members hnone hnone hnone ih true
    rw [Value.compactChars, compactMembers_eq]
    exact .object hmembers

/-- The form with one item to a line is a text of the document, at every level. -/
theorem written_prettyChars (h : Printable d v) (level : Nat) :
    Written (.value v) (Utf8.encode (v.prettyChars level)) := by
  have hspace : Blank (Utf8.encode [' ']) := blank_encode (by simp)
  induction h generalizing level with
  | null => exact .null
  | bool b =>
    cases b with
    | true => exact .yes
    | false => exact .no
  | number hn =>
    rw [Value.prettyChars, toList_render]
    exact .number hn
  | string s => exact .string s
  | @array d vs h ih =>
    cases vs with
    | nil => exact .array (.noItem Blank.nil)
    | cons v vs =>
      have hitems := written_items (blank_newline (level + 1)) (blank_newline level)
        (fun v hv => ih v hv (level + 1)) true
      rw [Value.prettyChars, prettyItems_eq, List.append_assoc]
      exact .array hitems
  | @object d ms h ih =>
    cases ms with
    | nil => exact .object (.noMember Blank.nil)
    | cons m ms =>
      have hmembers := written_members (blank_newline (level + 1)) hspace (blank_newline level)
        (fun m hm => ih m hm (level + 1)) true
      rw [Value.prettyChars, prettyMembers_eq, List.append_assoc]
      exact .object hmembers

/-- A document is read back from its compact form. -/
theorem parse_compact (h : Printable d v) (hd : d < 128) :
    Value.parse (Bytes.ofString v.compact) = .ok v := by
  have hwritten := written_compactChars h
  have hheight : v.height < 128 := Nat.lt_of_le_of_lt h.height_le hd
  rw [Bytes.ofString, Value.compact, String.toList_ofList,
    ← List.append_nil (Utf8.encode v.compactChars)]
  exact parse_of_written hwritten hheight Blank.nil

/-- A document is read back from the form with one item to a line, also with a line break behind
it. -/
theorem parse_pretty (h : Printable d v) (hd : d < 128) :
    Value.parse (Bytes.ofString (v.pretty ++ "\n")) = .ok v := by
  have hwritten := written_prettyChars h 0
  have hheight : v.height < 128 := Nat.lt_of_le_of_lt h.height_le hd
  have hline : Blank (Utf8.encode ['\n']) := blank_encode (by simp)
  rw [Bytes.ofString, Value.pretty, String.toList_append, String.toList_ofList,
    Utf8.encode_append]
  exact parse_of_written hwritten hheight hline

end SecretStore.Json
