import SecretStore.Proofs.MountPaths
import SecretStore.Proofs.Percent

/-!
# Paths of policies

A policy is installed under its name, which stands in the path as one segment. Whatever the name is,
the segment has none of the characters that mean something in an address, and the bytes of the name
can be read back from it. So no two names share a path.

* `Percent.IsSegment`: the texts that segments are made of, `Percent.isSegment_segment`.
* `Percent.segment_injective`: a name is told by its segment.
* `policy_path_reversible`: the paths that policies are installed under.
-/

namespace SecretStore

open Interaction

/-! ### Segments -/

namespace Percent

/-- A character that stands for itself: a letter or digit, or one of four marks. -/
def IsUnreserved (c : Char) : Prop := c.isAlphanum = true ∨ c ∈ ['-', '.', '_', '~']

instance : DecidablePred IsUnreserved := fun _ => inferInstanceAs (Decidable (_ ∨ _))

/-- A digit of base sixteen in upper case. -/
def IsUpperHex (c : Char) : Prop := c.isDigit = true ∨ 'A' ≤ c ∧ c ≤ 'F'

instance : DecidablePred IsUpperHex := fun _ => inferInstanceAs (Decidable (_ ∨ _))

/-- Characters that stand for themselves, and escapes in upper case. -/
inductive IsSegment : List Char → Prop
  | nil : IsSegment []
  | plain {c : Char} {cs : List Char} (hc : IsUnreserved c) (h : IsSegment cs) : IsSegment (c :: cs)
  | escape {a b : Char} {cs : List Char} (ha : IsUpperHex a) (hb : IsUpperHex b)
      (h : IsSegment cs) : IsSegment ('%' :: a :: b :: cs)

theorem isUpperHex_upperHexDigit : ∀ n < 16, IsUpperHex (Number.upperHexDigit n) := by decide

theorem isUnreserved_ofNat :
    ∀ n < 0x80, unreserved n.toUInt8 = true → IsUnreserved (Char.ofNat n) := by
  decide

theorem isSegment_encode (bs : Bytes) : IsSegment (encode unreserved bs) := by
  induction bs with
  | nil => exact .nil
  | cons b bs ih =>
    cases hb : unreserved b with
    | true =>
      rw [encode_cons_of_keep hb]
      refine .plain (isUnreserved_ofNat b.toNat (unreserved_iff hb).1 ?_) ih
      rwa [show b.toNat.toUInt8 = b from UInt8.ofNat_toNat]
    | false =>
      have hlt := b.toNat_lt
      rw [encode_cons_of_not_keep hb]
      exact .escape (isUpperHex_upperHexDigit _ (by omega)) (isUpperHex_upperHexDigit _ (by omega))
        ih

theorem isSegment_segment (s : String) : IsSegment (segment s).toList := by
  rw [segment, String.toList_ofList]
  exact isSegment_encode _

/-- What is neither a percent sign nor of these characters is in no segment. -/
theorem IsSegment.not_mem {cs : List Char} (h : IsSegment cs) {c : Char} (hc : c ≠ '%')
    (hu : ¬IsUnreserved c) (hx : ¬IsUpperHex c) : c ∉ cs := by
  induction h with
  | nil => exact List.not_mem_nil
  | plain hd _ ih =>
    rw [List.mem_cons, not_or]
    exact ⟨fun he => hu (he ▸ hd), ih⟩
  | escape ha hb _ ih =>
    simp only [List.mem_cons, not_or]
    exact ⟨hc, fun he => hx (he ▸ ha), fun he => hx (he ▸ hb), ih⟩

theorem segment_injective {s t : String} (h : segment s = segment t) : s = t := by
  have hbytes : Bytes.ofString s = Bytes.ofString t := by rw [← decode_segment, h, decode_segment]
  have hread := congrArg Bytes.toString? hbytes
  rwa [Bytes.toString?_ofString, Bytes.toString?_ofString, Option.some.injEq] at hread

end Percent

/-! ### Paths -/

namespace Client

variable {σ τ : Type}

theorem pathsOf_installPolicy (token name document : String) (answer : Request → σ → Reply × σ)
    (s : σ) : pathsOf (installPolicy token name document) answer s = [policyPath name] := by
  obtain ⟨reply, hx, -⟩ := transcript_installPolicy.1
    (transcript_run answer (installPolicy token name document).run s)
  rw [pathsOf, hx]
  rfl

theorem policyPath_inj {name name' : String} :
    policyPath name = policyPath name' ↔ name = name' := by
  constructor
  · intro h
    exact Percent.segment_injective ((String.append_right_inj _).1 h)
  · exact congrArg policyPath

/-- **Policy names are escaped reversibly.** Whatever the executor answers, a policy is installed
with one request, whose path is that of the policies with one segment behind it. The segment is made
of letters, digits, four marks and escapes in upper case only, so no name reaches beyond it, and it
is read back as the bytes of the name. Hence, whoever installs them with which document, two
policies have one path exactly if they have one name. -/
theorem policy_path_reversible (answer : Request → σ → Reply × σ) (s : σ)
    (answer' : Request → τ → Reply × τ) (t : τ) (token token' document document' : String) :
    (∀ name, ∃ text : String,
      pathsOf (installPolicy token name document) answer s = ["/v1/sys/policies/acl/" ++ text] ∧
      Percent.IsSegment text.toList ∧
      (∀ c ∈ ['/', '?', '#', ' '], c ∉ text.toList) ∧
      Percent.decode text.toList = Bytes.ofString name) ∧
    ∀ name name', pathsOf (installPolicy token name document) answer s =
      pathsOf (installPolicy token' name' document') answer' t ↔ name = name' := by
  constructor
  · intro name
    have hsegment := Percent.isSegment_segment name
    refine ⟨Percent.segment name, pathsOf_installPolicy .., hsegment, fun c hc => ?_,
      Percent.decode_segment name⟩
    have hother : c ≠ '%' ∧ ¬Percent.IsUnreserved c ∧ ¬Percent.IsUpperHex c := by
      simp only [List.mem_cons, List.not_mem_nil, or_false] at hc
      rcases hc with rfl | rfl | rfl | rfl <;> decide
    exact hsegment.not_mem hother.1 hother.2.1 hother.2.2
  · intro name name'
    rw [pathsOf_installPolicy, pathsOf_installPolicy, List.singleton_inj, policyPath_inj]

/-- A name that looks like an escape is escaped itself. -/
example : policyPath "a/b%20é" = "/v1/sys/policies/acl/a%2Fb%2520%C3%A9" := by decide +kernel

end Client

end SecretStore
