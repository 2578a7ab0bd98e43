import ClarityWire.Proofs.Ranges
import ClarityWire.Value.Signature

/-!
# Type signatures and ranges

The type signature of a value is that of the value with no ranges: ranges do not show in it.
-/

namespace ClarityWire.Value

private theorem signatureOnto_wrapped (wrapper : Wrapper) {body other : ClarityValue}
    (h : ∀ out, signatureOnto out body.value = signatureOnto out other.value) (out : String) :
    signatureOnto out (wrapper.value body) = signatureOnto out (wrapper.value other) := by
  obtain ⟨body, span⟩ := body
  obtain ⟨other, span'⟩ := other
  cases wrapper <;> simp [Wrapper.value, signatureOnto, h]

private theorem fieldSignaturesOnto_map {f : ClarityValue → ClarityValue}
    {fields : Fields ClarityValue}
    (h : ∀ field ∈ fields, ∀ out,
      signatureOnto out (f field.2).value = signatureOnto out field.2.value) (out : String) :
    fieldSignaturesOnto out (fields.map fun field => (field.1, f field.2)) =
      fieldSignaturesOnto out fields := by
  induction fields generalizing out with
  | nil => rfl
  | cons field rest ih =>
    obtain ⟨hfield, hrest⟩ := List.forall_mem_cons.mp h
    simp [fieldSignaturesOnto, hfield, ih hrest]

private theorem signatureOnto_rebuild (value : Value) (onSpan : Option Span → Option Span)
    (out : String) : signatureOnto out (value.rebuild onSpan id) = signatureOnto out value := by
  induction value generalizing out with
  | atom value a htree =>
    cases value <;> rw [tree] at htree <;> cases htree <;> simp [rebuild]
  | wrapped wrapper body ih =>
    rw [rebuild_wrapped]
    exact signatureOnto_wrapped wrapper ih out
  | list items ih =>
    rw [rebuild_list]
    cases items with
    | nil => rfl
    | cons item rest =>
      have hitem := ih item (List.mem_cons_self ..)
      simp [signatureOnto, ClarityValue.rebuild, hitem]
  | tuple fields ih =>
    rw [rebuild_tuple, signatureOnto, signatureOnto]
    rw [fieldSignaturesOnto_map ih]

/-- Ranges do not show in a type signature. -/
theorem signature_erase (value : Value) : value.erase.signature = value.signature :=
  signatureOnto_rebuild value _ ""

end ClarityWire.Value
