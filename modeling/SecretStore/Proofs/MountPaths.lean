import SecretStore.Proofs.MountPoints
import SecretStore.Proofs.Operations

/-!
# Mounting and looking up

An engine is mounted under the path of its mount point, and it is looked up in a listing by the
spelling of its mount point. Both take the slashes around a spelling away: `Mount.point_eq_iff` says
which spellings have a common form, and `mounting_agrees_with_lookup` that two spellings are posted
to one path exactly if no listing tells them apart.
-/

namespace SecretStore

open Interaction

/-! ### Spellings -/

namespace Mount

open Slashes

/-- Some text between slashes, of which there are as many on either side. -/
def Spells (s x : String) : Prop :=
  ∃ i j, s.toList = List.replicate i '/' ++ (x.toList ++ List.replicate j '/')

/-- The common form is what remains of a spelling without the slashes around it. -/
theorem point_eq_iff {s x : String} : point s = x ↔ Bare x ∧ Spells s x := by
  constructor
  · rintro rfl
    obtain ⟨i, hi⟩ := eq_replicate_append_trimStart s.toList
    obtain ⟨j, hj⟩ := eq_trimEnd_append_replicate (trimStart s.toList)
    refine ⟨bare_point s, i, j, ?_⟩
    rw [point, String.toList_ofList, ← hj, ← hi]
  · rintro ⟨hx, i, j, h⟩
    rw [point, h, trimStart_replicate_append]
    by_cases hnil : x.toList = []
    · -- a spelling with nothing but slashes
      have hall := trimStart_replicate_append j []
      rw [List.append_nil] at hall
      rw [hnil, List.nil_append, hall, ← String.ofList_toList (s := x), hnil]
      rfl
    · have hhead : (x.toList ++ List.replicate j '/').head? ≠ some '/' := by
        rw [List.head?_append_of_ne_nil _ hnil]
        exact hx.1
      rw [trimStart_of_head? hhead, trimEnd_append_replicate, trimEnd_of_getLast? hx.2,
        String.ofList_toList]

end Mount

/-! ### Listings -/

namespace MountTable

/-- A listing with one entry. -/
def single (name : String) (m : Mount) : MountTable := ⟨[(name, m)]⟩

theorem entry?_single (name name' : String) (m : Mount) :
    entry? (single name m) name' = if name = name' then some m else none := by
  by_cases h : name = name' <;> simp [single, entry?, h]

theorem keyed_single {s : String} (h : Mount.Bare s) (m : Mount) : (single (s ++ "/") m).Keyed := by
  intro name m' he
  rw [entry?_single] at he
  split at he
  · next hn => exact ⟨s, h, hn.symm⟩
  · cases he

/-- Spellings without a common form are told apart by a listing. -/
theorem point_eq_of_mount?_eq {m m' : String}
    (h : ∀ t : MountTable, t.Keyed → t.mount? m = t.mount? m') :
    Mount.point m = Mount.point m' := by
  by_contra hne
  have hkeyed := keyed_single (Mount.bare_point m) ⟨"kv", ""⟩
  have hlookup := h _ hkeyed
  have hkeys : Mount.point m ++ "/" ≠ Mount.point m' ++ "/" := by
    intro hk
    exact hne (by simpa [String.toList_append, ← String.toList_inj] using hk)
  rw [mount?_eq hkeyed, mount?_eq hkeyed, entry?_single, entry?_single, if_pos rfl,
    if_neg hkeys] at hlookup
  cases hlookup

end MountTable

namespace Client

/-- The paths that an operation asks for. -/
def pathsOf (op : Operation α) (answer : Request → σ → Reply × σ) (s : σ) : List String :=
  (op.run.run answer s).exchanges.map fun x => x.1.path

theorem pathsOf_mount {σ : Type} (token m operation : String) (spec : MountSpec)
    (answer : Request → σ → Reply × σ) (s : σ) :
    pathsOf (mount token m spec operation) answer s = [mountPath m] := by
  obtain ⟨reply, hx, -⟩ :=
    transcript_mount.1 (transcript_run answer (mount token m spec operation).run s)
  rw [pathsOf, hx]
  rfl

theorem mountPath_inj {m m' : String} :
    mountPath m = mountPath m' ↔ Mount.point m = Mount.point m' := by
  simp [mountPath, ← String.toList_inj, String.toList_append]

/-- **Mounting and looking up identify the same mounts.** Whatever is mounted with which token, and
whatever the executor answers: two spellings are posted to one path exactly if they find the same
entry in every listing that writes each mount point with one slash behind it. What stands behind
`/v1/sys/mounts/` in the path is the spelling without the slashes around it; with one slash behind
it, it is the name of the entry that decides whether an engine is mounted there, and the name under
which any listing is searched when it has no entry for the spelling itself. -/
theorem mounting_agrees_with_lookup {σ : Type} (token operation : String) (spec : MountSpec)
    (answer : Request → σ → Reply × σ) (s : σ) :
    let posted := fun m => pathsOf (mount token m spec operation) answer s
    (∀ m m', posted m = posted m' ↔
      ∀ t : MountTable, t.Keyed → t.mount? m = t.mount? m') ∧
    ∀ m, ∃ x, posted m = ["/v1/sys/mounts/" ++ x] ∧ Mount.Bare x ∧ Mount.Spells m x ∧
      (∀ (t : MountTable) (engineType : String), t.Keyed →
        (t.hasEngine m engineType = true ↔
          ∃ e, t.entry? (x ++ "/") = some e ∧ e.engineType = engineType)) ∧
      ∀ t : MountTable, t.mount? m =
        match t.entry? m with
        | some e => some e
        | none => t.entry? (x ++ "/") := by
  intro posted
  have hposted (m) : posted m = [mountPath m] := pathsOf_mount token m operation spec answer s
  constructor
  · intro m m'
    rw [hposted, hposted, List.singleton_inj, mountPath_inj]
    constructor
    · intro h t ht
      rw [MountTable.mount?_eq ht, MountTable.mount?_eq ht, h]
    · exact MountTable.point_eq_of_mount?_eq
  · intro m
    obtain ⟨hbare, hspells⟩ := Mount.point_eq_iff.1 (rfl : Mount.point m = Mount.point m)
    refine ⟨Mount.point m, hposted m, hbare, hspells, ?_, fun t => rfl⟩
    intro t engineType ht
    exact MountTable.hasEngine_iff ht

end Client

end SecretStore
