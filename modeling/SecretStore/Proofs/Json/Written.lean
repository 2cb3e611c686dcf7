import SecretStore.Proofs.Json.Scalars

/-!
# Texts of documents

`Written` relates documents to the texts that a printer gives them, with any blanks between the
tokens.

The texts of documents, of the items of an array and of the members of an object are those of a
`Piece`, so that there is one relation, and one induction over it, for all three.
-/

namespace SecretStore.Json

/-! ### Blanks and separators -/

/-- Some bytes that are all blank. -/
def Blank (ws : Bytes) : Prop := ∀ b ∈ ws, isBlank b = true

theorem Blank.nil : Blank [] := nofun

theorem skipBlanks_append {ws : Bytes} (h : Blank ws) (bs : Bytes) :
    skipBlanks (ws ++ bs) = skipBlanks bs :=
  List.dropWhile_append_of_pos h

theorem skipBlanks_cons {b : UInt8} (h : isBlank b = false) (bs : Bytes) :
    skipBlanks (b :: bs) = b :: bs :=
  List.dropWhile_cons_of_neg (by simp [h])

theorem skipBlanks_of_blank {ws : Bytes} (h : Blank ws) : skipBlanks ws = [] := by
  rw [← List.append_nil ws, skipBlanks_append h]
  rfl

/-- What stands in front of an item or a member: a comma, unless it is the first one. -/
inductive Separator : Bool → Bytes → Prop
  | first {ws : Bytes} (hw : Blank ws) : Separator true ws
  | next {ws ws' : Bytes} (hw : Blank ws) (hw' : Blank ws') :
      Separator false (ws ++ byte ',' :: ws')

variable {isFirst : Bool} {ws sep bs rest : Bytes} {b : UInt8}

theorem nextItem_finished (hw : Blank ws) :
    nextItem isFirst (ws ++ byte ']' :: rest) = .ok (.finished rest) := by
  rw [nextItem, skipBlanks_append hw, skipBlanks_cons (by decide)]
  rfl

theorem nextItem_more (hs : Separator isFirst sep) (hb : isBlank b = false)
    (hend : b ≠ byte ']') : nextItem isFirst (sep ++ b :: rest) = .ok (.more (b :: rest)) := by
  cases hs with
  | first hw =>
    rw [nextItem, skipBlanks_append hw, skipBlanks_cons hb]
    simp [hend]
  | next hw hw' =>
    rw [nextItem, List.append_assoc, skipBlanks_append hw, List.cons_append,
      skipBlanks_cons (by decide)]
    have hcomma : byte ',' ≠ byte ']' := by decide
    simp [hcomma, skipBlanks_append hw', skipBlanks_cons hb, hend]

theorem nextMember_finished (hw : Blank ws) :
    nextMember isFirst (ws ++ byte '\x7d' :: rest) = .ok (.finished rest) := by
  rw [nextMember, skipBlanks_append hw, skipBlanks_cons (by decide)]
  rfl

theorem nextMember_more (hs : Separator isFirst sep) :
    nextMember isFirst (sep ++ byte '"' :: rest) = .ok (.more rest) := by
  have hquote : isBlank (byte '"') = false := by decide
  have hend : byte '"' ≠ byte '\x7d' := by decide
  cases hs with
  | first hw =>
    rw [nextMember, skipBlanks_append hw, skipBlanks_cons hquote]
    simp [hend]
  | next hw hw' =>
    rw [nextMember, List.append_assoc, skipBlanks_append hw, List.cons_append,
      skipBlanks_cons (by decide)]
    have hcomma : byte ',' ≠ byte '\x7d' := by decide
    simp [hcomma, skipBlanks_append hw', skipBlanks_cons hquote]

theorem readColon_append (hw : Blank ws) : readColon (ws ++ byte ':' :: rest) = .ok rest := by
  rw [readColon, skipBlanks_append hw, skipBlanks_cons (by decide)]
  rfl

/-! ### Texts -/

/-- A document, or what follows the bracket of an array or the brace of an object. -/
inductive Piece where
  | value (v : Value)
  | items (isFirst : Bool) (vs : List Value)
  | members (isFirst : Bool) (ms : List (String × Value))

/-- The texts of a piece. -/
inductive Written : Piece → Bytes → Prop
  | null : Written (.value .null) (Utf8.encode ['n', 'u', 'l', 'l'])
  | yes : Written (.value (.bool true)) (Utf8.encode ['t', 'r', 'u', 'e'])
  | no : Written (.value (.bool false)) (Utf8.encode ['f', 'a', 'l', 's', 'e'])
  | number {n : Nat} (hn : n ≤ maxCoefficient) :
      Written (.value (.number (.unsigned n))) (Utf8.encode (Nat.toDigits 10 n))
  | string (s : String) : Written (.value (.string s)) (Utf8.encode (quoted s))
  | array {vs : List Value} {bs : Bytes} (h : Written (.items true vs) bs) :
      Written (.value (.array vs)) (byte '[' :: bs)
  | object {ms : List (String × Value)} {bs : Bytes} (h : Written (.members true ms) bs) :
      Written (.value (.object ms)) (byte '\x7b' :: bs)
  | noItem {isFirst : Bool} {ws : Bytes} (hw : Blank ws) :
      Written (.items isFirst []) (ws ++ [byte ']'])
  | item {isFirst : Bool} {sep bs rest : Bytes} {v : Value} {vs : List Value}
      (hs : Separator isFirst sep) (hv : Written (.value v) bs)
      (hr : Written (.items false vs) rest) :
      Written (.items isFirst (v :: vs)) (sep ++ (bs ++ rest))
  | noMember {isFirst : Bool} {ws : Bytes} (hw : Blank ws) :
      Written (.members isFirst []) (ws ++ [byte '\x7d'])
  | member {isFirst : Bool} {sep ws ws' bs rest : Bytes} {name : String} {v : Value}
      {ms : List (String × Value)} (hs : Separator isFirst sep) (hw : Blank ws) (hw' : Blank ws')
      (hv : Written (.value v) bs) (hr : Written (.members false ms) rest) :
      Written (.members isFirst ((name, v) :: ms))
        (sep ++ (Utf8.encode (quoted name) ++ (ws ++ byte ':' :: (ws' ++ (bs ++ rest)))))

mutual

/-- How deep the brackets of a document nest. -/
def Value.height : Value → Nat
  | .array vs => heightItems vs + 1
  | .object ms => heightMembers ms + 1
  | _ => 0

/-- How deep the brackets of some items nest. -/
def heightItems : List Value → Nat
  | [] => 0
  | v :: vs => max v.height (heightItems vs)

/-- How deep the brackets of some members nest. -/
def heightMembers : List (String × Value) → Nat
  | [] => 0
  | (_, v) :: ms => max v.height (heightMembers ms)

end

/-- How deep the brackets of a piece nest. -/
def Piece.height : Piece → Nat
  | value v => v.height
  | items _ vs => heightItems vs
  | members _ ms => heightMembers ms

/-- A piece is read, and what remains. -/
def Piece.Reads (fuel depth : Nat) (bs rest : Bytes) : Piece → Prop
  | value v => readValueWith fuel depth bs = .ok (v, rest)
  | items isFirst vs => readItemsWith fuel depth isFirst bs = .ok (vs, rest)
  | members isFirst ms => readMembersWith fuel depth isFirst bs = .ok (ms, rest)

/-! ### How texts begin -/

theorem ne_of_isDigit {c : UInt8} (h : isDigit b = true) (hc : isDigit c = false) : b ≠ c := by
  rintro rfl
  cases h.symm.trans hc

theorem isBlank_of_isDigit (h : isDigit b = true) : isBlank b = false := by
  have h1 := ne_of_isDigit h (show isDigit 0x20 = false by decide)
  have h2 := ne_of_isDigit h (show isDigit 0x0A = false by decide)
  have h3 := ne_of_isDigit h (show isDigit 0x09 = false by decide)
  have h4 := ne_of_isDigit h (show isDigit 0x0D = false by decide)
  simp [isBlank, h1, h2, h3, h4]

/-- The text of a document begins with neither a blank nor a bracket that ends an array. -/
theorem Written.head {v : Value} (h : Written (.value v) bs) :
    ∃ b rest, bs = b :: rest ∧ isBlank b = false ∧ b ≠ byte ']' := by
  generalize hp : Piece.value v = p at h
  cases h with
  | null | yes | no => exact ⟨_, _, rfl, by decide, by decide⟩
  | @number n hn =>
    obtain ⟨b, bs, hbs, hb⟩ := exists_digit n
    exact ⟨b, bs, hbs, isBlank_of_isDigit hb, ne_of_isDigit hb (by decide)⟩
  | string s => exact ⟨_, _, encode_quoted s, by decide, by decide⟩
  | array h => exact ⟨_, _, rfl, by decide, by decide⟩
  | object h => exact ⟨_, _, rfl, by decide, by decide⟩
  | noItem | item | noMember | member => cases hp

theorem endsNumber_of_blank (hw : Blank ws) (h : EndsNumber bs) : EndsNumber (ws ++ bs) := by
  cases ws with
  | nil => exact h
  | cons b ws =>
    rintro _ ⟨⟩
    have hb : b = 0x20 ∨ b = 0x0A ∨ b = 0x09 ∨ b = 0x0D := by
      simpa [isBlank, or_assoc] using hw b List.mem_cons_self
    rcases hb with rfl | rfl | rfl | rfl <;> decide

theorem endsNumber_blank (hw : Blank ws) : EndsNumber ws := by
  rw [← List.append_nil ws]
  exact endsNumber_of_blank hw nofun

theorem endsNumber_cons (h : isDigit b = false ∧ b ≠ byte '.' ∧ isExponentMark b = false) :
    EndsNumber (b :: bs) := by
  rintro _ ⟨⟩
  exact h

/-- Behind a document that is not alone no more of a number follows. -/
theorem Separator.endsNumber (hs : Separator false sep) (bs : Bytes) : EndsNumber (sep ++ bs) := by
  cases hs with
  | next hw hw' =>
    rw [List.append_assoc]
    exact endsNumber_of_blank hw (endsNumber_cons (by decide))

theorem Written.endsNumber_items {vs : List Value} (h : Written (.items false vs) bs) :
    EndsNumber (bs ++ rest) := by
  cases h with
  | noItem hw =>
    rw [List.append_assoc]
    exact endsNumber_of_blank hw (endsNumber_cons (by decide))
  | item hs hv hr =>
    rw [List.append_assoc]
    exact hs.endsNumber _

theorem Written.endsNumber_members {ms : List (String × Value)}
    (h : Written (.members false ms) bs) : EndsNumber (bs ++ rest) := by
  cases h with
  | noMember hw =>
    rw [List.append_assoc]
    exact endsNumber_of_blank hw (endsNumber_cons (by decide))
  | member hs hw hw' hv hr =>
    rw [List.append_assoc]
    exact hs.endsNumber _

theorem Written.length_pos {p : Piece} (h : Written p bs) : 0 < bs.length := by
  cases p with
  | value v =>
    obtain ⟨b, rest, rfl, -⟩ := h.head
    exact Nat.succ_pos _
  | items isFirst vs =>
    cases h with
    | noItem hw => simp
    | item hs hv hr =>
      obtain ⟨b, rest, rfl, -⟩ := hv.head
      simp only [List.length_append, List.length_cons]
      omega
  | members isFirst ms =>
    cases h with
    | noMember hw => simp
    | member hs hw hw' hv hr =>
      simp only [List.length_append, List.length_cons]
      omega

/-! ### Reading -/

section Values

variable {fuel depth : Nat}

theorem readValueWith_blank (hw : Blank ws) :
    readValueWith fuel depth (ws ++ bs) = readValueWith fuel depth bs := by
  cases fuel with
  | zero => rfl
  | succ fuel => rw [readValueWith, readValueWith, skipBlanks_append hw]

/-- What a document may begin with, and how it is read then. -/
theorem readValueWith_cons (hb : isBlank b = false) (rest : Bytes) :
    readValueWith (fuel + 1) depth (b :: rest) =
      if b = byte 'n' then (readLiteral ['u', 'l', 'l'] rest).map (.null, ·)
      else if b = byte 't' then (readLiteral ['r', 'u', 'e'] rest).map (.bool true, ·)
      else if b = byte 'f' then (readLiteral ['a', 'l', 's', 'e'] rest).map (.bool false, ·)
      else if b = byte '-' then (readNumber true rest).map fun (n, r) => (.number n, r)
      else if isDigit b then (readNumber false (b :: rest)).map fun (n, r) => (.number n, r)
      else if b = byte '"' then (readString rest).map fun (s, r) => (.string s, r)
      else if b = byte '[' then
        if depth ≤ 1 then .error ⟨.tooDeep, rest⟩
        else (readItemsWith fuel (depth - 1) true rest).map fun (vs, r) => (.array vs, r)
      else if b = byte '\x7b' then
        if depth ≤ 1 then .error ⟨.tooDeep, rest⟩
        else (readMembersWith fuel (depth - 1) true rest).map fun (ms, r) => (.object ms, r)
      else .error ⟨.expectedValue, rest⟩ := by
  have hskip := skipBlanks_cons hb rest
  rw [readValueWith]
  split
  · next hnil => cases hskip.symm.trans hnil
  · next hcons =>
    cases hskip.symm.trans hcons
    rfl

theorem readValueWith_null : readValueWith (fuel + 1) depth (byte 'n' :: rest) =
    (readLiteral ['u', 'l', 'l'] rest).map (.null, ·) := by
  rw [readValueWith_cons (by decide), if_pos rfl]

theorem readValueWith_true : readValueWith (fuel + 1) depth (byte 't' :: rest) =
    (readLiteral ['r', 'u', 'e'] rest).map (.bool true, ·) := by
  rw [readValueWith_cons (by decide), if_neg (by decide), if_pos rfl]

theorem readValueWith_false : readValueWith (fuel + 1) depth (byte 'f' :: rest) =
    (readLiteral ['a', 'l', 's', 'e'] rest).map (.bool false, ·) := by
  rw [readValueWith_cons (by decide), if_neg (by decide), if_neg (by decide), if_pos rfl]

theorem readValueWith_minus : readValueWith (fuel + 1) depth (byte '-' :: rest) =
    (readNumber true rest).map fun (n, r) => (.number n, r) := by
  rw [readValueWith_cons (by decide), if_neg (by decide), if_neg (by decide), if_neg (by decide),
    if_pos rfl]

theorem readValueWith_digit (h : isDigit b = true) : readValueWith (fuel + 1) depth (b :: rest) =
    (readNumber false (b :: rest)).map fun (n, r) => (.number n, r) := by
  rw [readValueWith_cons (isBlank_of_isDigit h), if_neg (ne_of_isDigit h (by decide)),
    if_neg (ne_of_isDigit h (by decide)), if_neg (ne_of_isDigit h (by decide)),
    if_neg (ne_of_isDigit h (by decide)), if_pos h]

theorem readValueWith_string : readValueWith (fuel + 1) depth (byte '"' :: rest) =
    (readString rest).map fun (s, r) => (.string s, r) := by
  rw [readValueWith_cons (by decide)]
  rfl

theorem readValueWith_array (h : 1 < depth) : readValueWith (fuel + 1) depth (byte '[' :: rest) =
    (readItemsWith fuel (depth - 1) true rest).map fun (vs, r) => (.array vs, r) := by
  rw [readValueWith_cons (by decide)]
  exact if_neg (Nat.not_le.2 h)

theorem readValueWith_object (h : 1 < depth) :
    readValueWith (fuel + 1) depth (byte '\x7b' :: rest) =
      (readMembersWith fuel (depth - 1) true rest).map fun (ms, r) => (.object ms, r) := by
  rw [readValueWith_cons (by decide)]
  exact if_neg (Nat.not_le.2 h)

end Values

theorem readLiteral_append (cs : List Char) (h : cs.all (·.toNat < 0x80) = true) (rest : Bytes) :
    readLiteral cs (Utf8.encode cs ++ rest) = .ok rest := by
  induction cs with
  | nil => rfl
  | cons c cs ih =>
    obtain ⟨hc, hcs⟩ := Bool.and_eq_true_iff.1 h
    rw [Utf8.encode_cons, encodeChar_of_lt (of_decide_eq_true hc)]
    show readLiteral (c :: cs) (byte c :: (Utf8.encode cs ++ rest)) = _
    rw [readLiteral, if_pos rfl, ih hcs]

theorem nextItem_written {v : Value} (hs : Separator isFirst sep) (hv : Written (.value v) bs) :
    nextItem isFirst (sep ++ (bs ++ rest)) = .ok (.more (bs ++ rest)) := by
  obtain ⟨b, bs', rfl, hblank, hend⟩ := hv.head
  exact nextItem_more hs hblank hend

theorem nextMember_quoted {name : String} (hs : Separator isFirst sep) :
    nextMember isFirst (sep ++ (Utf8.encode (quoted name) ++ rest)) =
      .ok (.more (Utf8.encode (name.toList.flatMap escapeChar) ++ byte '"' :: rest)) := by
  rw [encode_quoted, List.cons_append, List.append_assoc, nextMember_more hs]
  rfl

end SecretStore.Json
