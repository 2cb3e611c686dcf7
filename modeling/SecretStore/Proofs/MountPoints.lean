import SecretStore.MountTable
import SecretStore.Proofs.Slashes

/-!
# Mount points

A mount point can be spelled with slashes around it, and `Mount.point` is what all its spellings
have in common. In a table that lists every mount point with one slash behind it, a lookup finds the
entry of the common form under every spelling.

* `Mount.Bare`: a mount point without slashes around it, `Mount.bare_point` and
  `Mount.point_append_slash`;
* `MountTable.Keyed`: the form of such a table, `MountTable.mount?_eq` and `hasEngine_iff`.
-/

namespace SecretStore

namespace Mount

open Slashes

/-- A mount point without slashes around it. -/
def Bare (s : String) : Prop := s.toList.head? ≠ some '/' ∧ s.toList.getLast? ≠ some '/'

instance (s : String) : Decidable (Bare s) := inferInstanceAs (Decidable (_ ∧ _))

/-- The common form of all spellings has no slashes around it. -/
theorem bare_point (s : String) : Bare (point s) := by
  rw [Bare, point, String.toList_ofList]
  refine ⟨fun h => head?_trimStart s.toList ?_, getLast?_trimEnd _⟩
  -- what is left after trimming the end begins as it did before
  obtain ⟨rest, hrest⟩ := trimEnd_isPrefix (trimStart s.toList)
  rw [← hrest, List.head?_append, h]
  rfl

/-- A slash behind a mount point is only a matter of spelling. -/
theorem point_append_slash {s : String} (h : Bare s) : point (s ++ "/") = s := by
  have hslash : (s ++ "/").toList = s.toList ++ ['/'] := String.toList_append
  rw [point, hslash]
  cases hs : s.toList with
  | nil =>
    rw [← String.ofList_toList (s := s), hs]
    rfl
  | cons c cs =>
    have hhead : (s.toList ++ ['/']).head? ≠ some '/' := by
      rw [hs, List.cons_append, List.head?_cons]
      have hc := h.1
      rwa [hs] at hc
    rw [← hs, trimStart_of_head? hhead, trimEnd_eq_rdropWhile, List.rdropWhile_concat_pos _ _ _ rfl,
      ← trimEnd_eq_rdropWhile, trimEnd_of_getLast? h.2, String.ofList_toList]

end Mount

namespace MountTable

variable {t t' : MountTable} {mountPoint engineType : String}

/-- Every entry is listed under a mount point with one slash behind it. -/
def Keyed (t : MountTable) : Prop :=
  ∀ name m, t.entry? name = some m → ∃ s, Mount.Bare s ∧ name = s ++ "/"

theorem mem_of_entry? {name : String} {m : Mount} (h : t.entry? name = some m) :
    (name, m) ∈ t.mounts := by
  obtain ⟨x, hx, rfl⟩ := Option.map_eq_some_iff.1 h
  have hname : x.1 = name := by simpa using List.find?_some hx
  rw [← hname]
  exact List.mem_of_find?_eq_some hx

/-- A lookup finds the entry of the common form, whatever the spelling. -/
theorem mount?_eq (h : t.Keyed) :
    t.mount? mountPoint = t.entry? (Mount.point mountPoint ++ "/") := by
  rw [mount?]
  cases he : t.entry? mountPoint with
  | none => rfl
  | some m =>
    -- a spelling that is listed as it stands is the common form with its slash
    obtain ⟨s, hs, rfl⟩ := h _ _ he
    rw [Mount.point_append_slash hs, he]

theorem hasEngine_iff (h : t.Keyed) : t.hasEngine mountPoint engineType = true ↔
    ∃ m, t.entry? (Mount.point mountPoint ++ "/") = some m ∧ m.engineType = engineType := by
  rw [hasEngine, mount?_eq h]
  cases t.entry? (Mount.point mountPoint ++ "/") with
  | none => simp
  | some m => simp

/-- What a table shows depends on its entries alone. -/
theorem hasEngine_congr (h : ∀ name, t.entry? name = t'.entry? name) :
    t.hasEngine mountPoint engineType = t'.hasEngine mountPoint engineType := by
  rw [hasEngine, hasEngine, mount?, mount?, h, h]

end MountTable

end SecretStore
