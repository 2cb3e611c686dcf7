import SecretStore.Text.Quoted

/-!
# Quoted texts are told apart

A character inside quotes is written as itself, as a backslash and a letter, or by its code in
braces. None of these begins another one, so a text is told by what is written for it: two texts
with the same quoted form are the same, and an error that quotes a text tells it.

* `Quoting`: the ways to write a character; `Quoting.unique`.
* `quote_inj`: texts are the same if they are written the same.
-/

namespace SecretStore.Text

/-! ### Digits of base sixteen -/

theorem digitChar_inj : ∀ n < 16, ∀ m < 16, Nat.digitChar n = Nat.digitChar m → n = m := by
  decide

theorem digitChar_ne_brace : ∀ n < 16, Nat.digitChar n ≠ '\x7d' := by decide

/-- The digits of a number are those of its sixteenth and its last one. -/
theorem hex_eq (n : Nat) :
    hex n = (if n < 16 then [] else hex (n / 16)) ++ [Nat.digitChar (n % 16)] := by
  by_cases hn : n < 16
  · rw [if_pos hn, Nat.mod_eq_of_lt hn]
    exact Nat.toDigits_of_lt_base hn
  · rw [if_neg hn]
    exact Nat.toDigits_of_base_le (by decide) (Nat.not_lt.1 hn)

theorem hex_ne_nil (n : Nat) : hex n ≠ [] := Nat.toDigits_ne_nil

/-- Numbers with the same digits are the same. -/
theorem hex_inj {n m : Nat} (h : hex n = hex m) : n = m := by
  induction n using Nat.strongRecOn generalizing m with
  | ind n ih =>
    rw [hex_eq n, hex_eq m] at h
    obtain ⟨hfront, hlast⟩ := List.append_inj' h rfl
    have hmod : n % 16 = m % 16 :=
      digitChar_inj _ (Nat.mod_lt _ (by decide)) _ (Nat.mod_lt _ (by decide))
        (List.singleton_inj.1 hlast)
    -- only a number below sixteen has no digits in front
    by_cases hn : n < 16
    · by_cases hm : m < 16
      · omega
      · rw [if_pos hn, if_neg hm] at hfront
        exact absurd hfront.symm (hex_ne_nil _)
    · by_cases hm : m < 16
      · rw [if_neg hn, if_pos hm] at hfront
        exact absurd hfront (hex_ne_nil _)
      · rw [if_neg hn, if_neg hm] at hfront
        have hdiv : n / 16 = m / 16 := ih (n / 16) (by omega) hfront
        omega

theorem brace_notMem_hex (n : Nat) : '\x7d' ∉ hex n := by
  induction n using Nat.strongRecOn with
  | ind n ih =>
    rw [hex_eq, List.mem_append, List.mem_singleton]
    rintro (hmem | hlast)
    · split at hmem
      · cases hmem
      · exact ih (n / 16) (by omega) hmem
    · exact digitChar_ne_brace _ (Nat.mod_lt _ (by decide)) hlast.symm

/-- Texts that end with their first brace. -/
theorem append_brace_inj {xs ys us vs : List Char} (hx : '\x7d' ∉ xs) (hy : '\x7d' ∉ ys)
    (h : xs ++ '\x7d' :: us = ys ++ '\x7d' :: vs) : xs = ys ∧ us = vs := by
  induction xs generalizing ys with
  | nil =>
    cases ys with
    | nil => exact ⟨rfl, (List.cons.inj h).2⟩
    | cons y ys =>
      obtain ⟨rfl, -⟩ := List.cons.inj h
      exact absurd List.mem_cons_self hy
  | cons x xs ih =>
    cases ys with
    | nil =>
      obtain ⟨rfl, -⟩ := List.cons.inj h
      exact absurd List.mem_cons_self hx
    | cons y ys =>
      obtain ⟨rfl, htail⟩ := List.cons.inj h
      obtain ⟨rfl, hrest⟩ := ih (fun hm => hx (List.mem_cons_of_mem _ hm))
        (fun hm => hy (List.mem_cons_of_mem _ hm)) htail
      exact ⟨rfl, hrest⟩

/-! ### Characters -/

/-- The letters that stand behind a backslash, and for what. -/
def letters : List (Char × Char) :=
  [('"', '"'), ('\\', '\\'), ('n', '\n'), ('r', '\r'), ('t', '\t'), ('0', '\x00')]

theorem letters_unique : ∀ p ∈ letters, ∀ q ∈ letters, p.1 = q.1 → p.2 = q.2 := by decide

theorem letters_ne_code : ∀ p ∈ letters, p.1 ≠ 'u' := by decide

/-- The ways to write a character inside quotes. -/
inductive Quoting (c : Char) : List Char → Prop
  | letter {e : Char} (he : (e, c) ∈ letters) : Quoting c ['\\', e]
  | code : Quoting c ('\\' :: 'u' :: '\x7b' :: (hex c.toNat ++ ['\x7d']))
  | self (hs : c ≠ '\\') : Quoting c [c]

theorem quoting_quoteChar (c : Char) : Quoting c (quoteChar c) := by
  unfold quoteChar
  -- six characters have a letter
  iterate 6
    split
    · next h =>
      subst h
      exact .letter (by decide)
  split
  · exact .code
  · next hslash _ _ _ _ _ => exact .self hslash

/-- What is written for a character does not begin what is written for another one. -/
theorem Quoting.unique {c c' : Char} {q q' us vs : List Char} (h : Quoting c q)
    (h' : Quoting c' q') (heq : q ++ us = q' ++ vs) : c = c' ∧ us = vs := by
  cases h with
  | @letter e he =>
    cases h' with
    | @letter e' he' =>
      obtain ⟨rfl, rest⟩ := List.cons.inj (List.cons.inj heq).2
      exact ⟨letters_unique _ he _ he' rfl, rest⟩
    | code =>
      obtain ⟨rfl, -⟩ := List.cons.inj (List.cons.inj heq).2
      exact absurd rfl (letters_ne_code _ he)
    | self hs => exact absurd (List.cons.inj heq).1.symm hs
  | code =>
    cases h' with
    | @letter e' he' =>
      obtain ⟨rfl, -⟩ := List.cons.inj (List.cons.inj heq).2
      exact absurd rfl (letters_ne_code _ he')
    | code =>
      simp only [List.cons_append, List.append_assoc, List.nil_append, List.cons.injEq,
        true_and] at heq
      obtain ⟨hdigits, hrest⟩ := append_brace_inj (brace_notMem_hex _) (brace_notMem_hex _) heq
      exact ⟨Char.toNat_inj.1 (hex_inj hdigits), hrest⟩
    | self hs => exact absurd (List.cons.inj heq).1.symm hs
  | self hs =>
    cases h' with
    | letter | code => exact absurd (List.cons.inj heq).1 hs
    | self => exact List.cons.inj heq

/-! ### Texts -/

theorem Quoting.ne_nil {c : Char} {q : List Char} (h : Quoting c q) : q ≠ [] := by
  cases h with
  | letter | code | self => exact List.cons_ne_nil _ _

theorem flatMap_quoteChar_inj {cs cs' : List Char}
    (h : cs.flatMap quoteChar = cs'.flatMap quoteChar) : cs = cs' := by
  induction cs generalizing cs' with
  | nil =>
    cases cs' with
    | nil => rfl
    | cons c' cs' =>
      rw [List.flatMap_cons] at h
      exact absurd (List.append_eq_nil_iff.1 h.symm).1 (quoting_quoteChar c').ne_nil
  | cons c cs ih =>
    cases cs' with
    | nil =>
      rw [List.flatMap_cons] at h
      exact absurd (List.append_eq_nil_iff.1 h).1 (quoting_quoteChar c).ne_nil
    | cons c' cs' =>
      rw [List.flatMap_cons, List.flatMap_cons] at h
      obtain ⟨rfl, hrest⟩ := (quoting_quoteChar c).unique (quoting_quoteChar c') h
      rw [ih hrest]

/-- A text is told by its quoted form. -/
theorem quote_inj {s s' : String} : quote s = quote s' ↔ s = s' := by
  refine ⟨fun h => ?_, congrArg quote⟩
  have hchars := String.ofList_injective h
  rw [List.append_left_inj, List.append_right_inj] at hchars
  exact String.toList_inj.1 (flatMap_quoteChar_inj hchars)

end SecretStore.Text
