import Mathlib.Data.List.DropRight
import SecretStore.Text.Slashes

/-!
# Trimming slashes

What is left of a text has no slash where it was trimmed, and all that it lacks is slashes.

* `head?_trimStart`, `eq_replicate_append_trimStart`, `trimStart_replicate_append`: the start;
* `getLast?_trimEnd`, `eq_trimEnd_append_replicate`, `trimEnd_append_replicate`: the end;
* `trimEnd_append`: what is trimmed of a text behind another one.
-/

namespace SecretStore.Slashes

theorem trimEnd_eq_rdropWhile (cs : List Char) : trimEnd cs = cs.rdropWhile (· == '/') := rfl

theorem head?_trimStart (cs : List Char) : (trimStart cs).head? ≠ some '/' := by
  intro h
  have hn := List.head?_dropWhile_not (· == '/') cs
  rw [trimStart] at h
  rw [h] at hn
  cases hn

theorem getLast?_trimEnd (cs : List Char) : (trimEnd cs).getLast? ≠ some '/' := by
  intro h
  rw [trimEnd, List.getLast?_reverse] at h
  exact head?_trimStart cs.reverse h

theorem trimEnd_isPrefix (cs : List Char) : trimEnd cs <+: cs := List.rdropWhile_prefix _ _

theorem trimStart_of_head? {cs : List Char} (h : cs.head? ≠ some '/') : trimStart cs = cs := by
  cases cs with
  | nil => rfl
  | cons c cs =>
    have hc : (c == '/') = false := by simpa using h
    rw [trimStart, List.dropWhile_cons_of_neg (by simp [hc])]

theorem trimEnd_of_getLast? {cs : List Char} (h : cs.getLast? ≠ some '/') : trimEnd cs = cs := by
  have hr : cs.reverse.head? ≠ some '/' := by rwa [List.head?_reverse]
  rw [trimEnd, show cs.reverse.dropWhile (· == '/') = cs.reverse from trimStart_of_head? hr,
    List.reverse_reverse]

theorem trimStart_replicate_append (n : Nat) (cs : List Char) :
    trimStart (List.replicate n '/' ++ cs) = trimStart cs :=
  List.dropWhile_append_of_pos fun c hc => by simp [List.eq_of_mem_replicate hc]

theorem trimEnd_append_replicate (cs : List Char) (n : Nat) :
    trimEnd (cs ++ List.replicate n '/') = trimEnd cs := by
  have h := trimStart_replicate_append n cs.reverse
  unfold trimStart at h
  unfold trimEnd
  rw [List.reverse_append, List.reverse_replicate, h]

theorem eq_replicate_append_trimStart (cs : List Char) :
    ∃ n, cs = List.replicate n '/' ++ trimStart cs := by
  induction cs with
  | nil => exact ⟨0, rfl⟩
  | cons c cs ih =>
    by_cases hc : c = '/'
    · obtain ⟨n, hn⟩ := ih
      subst hc
      refine ⟨n + 1, ?_⟩
      rw [List.replicate_succ, List.cons_append, trimStart, List.dropWhile_cons_of_pos (by simp)]
      exact congrArg _ hn
    · refine ⟨0, ?_⟩
      rw [trimStart_of_head? (by simpa using hc)]
      rfl

theorem eq_trimEnd_append_replicate (cs : List Char) :
    ∃ n, cs = trimEnd cs ++ List.replicate n '/' := by
  obtain ⟨n, hn⟩ := eq_replicate_append_trimStart cs.reverse
  refine ⟨n, ?_⟩
  have h := congrArg List.reverse hn
  rwa [List.reverse_reverse, List.reverse_append, List.reverse_replicate] at h

/-- Slashes at the end of a text reach no further than its last other character. -/
theorem trimEnd_append {cs : List Char} (h : cs.getLast? ≠ some '/') (ds : List Char) :
    trimEnd (cs ++ ds) = cs ++ trimEnd ds := by
  have hcs : cs.reverse.dropWhile (· == '/') = cs.reverse :=
    trimStart_of_head? (by rwa [List.head?_reverse])
  unfold trimEnd
  rw [List.reverse_append, List.dropWhile_append]
  split
  · next hds => rw [hcs, List.isEmpty_iff.1 hds, List.reverse_reverse, List.reverse_nil,
      List.append_nil]
  · rw [List.reverse_append, List.reverse_reverse]

end SecretStore.Slashes
