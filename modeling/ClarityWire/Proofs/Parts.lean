import ClarityWire.Value.Parts

/-!
# Values and the values inside them

What holds of a value and carries over from a value to those directly inside it holds of all parts.
-/

namespace ClarityWire

namespace Value

/-- The values directly inside a value. -/
def children : Value → List ClarityValue
  | .responseOk body => [body]
  | .responseErr body => [body]
  | .optionalSome body => [body]
  | .list items => items
  | .tuple fields => fields.map (·.2)
  | _ => []

private theorem sizeOf_value_lt (node : ClarityValue) : sizeOf node.value < sizeOf node := by
  cases node
  simp only [Spanned.mk.sizeOf_spec]
  omega

theorem sizeOf_child_lt {value : Value} {child : ClarityValue} (h : child ∈ value.children) :
    sizeOf child.value < sizeOf value := by
  have hchild := sizeOf_value_lt child
  cases value <;> simp only [children, List.mem_singleton, List.not_mem_nil, List.mem_map] at h
  case responseOk | responseErr | optionalSome =>
    subst h
    simp only [responseOk.sizeOf_spec, responseErr.sizeOf_spec, optionalSome.sizeOf_spec]
    omega
  case list items =>
    have hlt := List.sizeOf_lt_of_mem h
    rw [list.sizeOf_spec]
    omega
  case tuple fields =>
    obtain ⟨⟨name, node⟩, hfield, rfl⟩ := h
    have hlt := List.sizeOf_lt_of_mem hfield
    rw [Prod.mk.sizeOf_spec] at hlt
    simp only at hchild ⊢
    rw [tuple.sizeOf_spec]
    omega

/-- Induction over a value, with the hypothesis for every value directly inside. -/
@[elab_as_elim]
theorem inductionOnChildren {motive : Value → Prop}
    (step : ∀ value, (∀ child ∈ value.children, motive child.value) → motive value)
    (value : Value) : motive value :=
  step value fun child _ => inductionOnChildren step child.value
termination_by sizeOf value
decreasing_by exact sizeOf_child_lt ‹_›

end Value

namespace ClarityValue

private theorem itemParts_eq (depth : Nat) (items : List ClarityValue) :
    itemParts depth items = items.flatMap (partsFrom depth) := by
  induction items with
  | nil => rfl
  | cons item rest ih => rw [itemParts, ih, List.flatMap_cons]

private theorem fieldParts_eq (depth : Nat) (fields : List (ClarityName × ClarityValue)) :
    fieldParts depth fields = (fields.map (·.2)).flatMap (partsFrom depth) := by
  induction fields with
  | nil => rfl
  | cons field rest ih => rw [fieldParts, ih, List.map_cons, List.flatMap_cons]

/-- The parts of a value are itself and the parts of the values directly inside it. -/
theorem partsFrom_eq (depth : Nat) (node : ClarityValue) :
    partsFrom depth node =
      (depth, node) :: node.value.children.flatMap (partsFrom (depth + 1)) := by
  obtain ⟨value, span⟩ := node
  rw [partsFrom]
  cases value <;> simp [innerParts, Value.children, itemParts_eq, fieldParts_eq]

/-- What carries over to the values directly inside carries over to all parts. -/
theorem forall_partsFrom {P : Nat → ClarityValue → Prop}
    (hstep : ∀ depth node, P depth node → ∀ child ∈ node.value.children, P (depth + 1) child)
    {depth : Nat} {node : ClarityValue} (h : P depth node) :
    ∀ part ∈ partsFrom depth node, P part.1 part.2 := by
  obtain ⟨value, span⟩ := node
  induction value using Value.inductionOnChildren generalizing depth span with
  | step value ih =>
    intro part hpart
    rw [partsFrom_eq] at hpart
    rcases List.mem_cons.mp hpart with rfl | hpart
    · exact h
    · obtain ⟨child, hchild, hinner⟩ := List.mem_flatMap.mp hpart
      apply ih child hchild child.span (hstep _ _ h child hchild) part
      exact hinner

end ClarityValue

namespace Value

/-- Whether something holds of a value and of all values inside it. -/
def Everywhere (P : Value → Prop) (value : Value) : Prop :=
  ∀ part ∈ ClarityValue.parts (.bare value), P part.2.value

instance (P : Value → Prop) [DecidablePred P] (value : Value) : Decidable (value.Everywhere P) :=
  inferInstanceAs (Decidable (∀ part ∈ ClarityValue.parts (.bare value), P part.2.value))

private theorem forall_partsFrom_congr (P : Value → Prop) (value : Value) (depth other : Nat)
    (span otherSpan : Option Span)
    (h : ∀ part ∈ ClarityValue.partsFrom depth ⟨value, span⟩, P part.2.value) :
    ∀ part ∈ ClarityValue.partsFrom other ⟨value, otherSpan⟩, P part.2.value := by
  induction value using inductionOnChildren generalizing depth other span otherSpan with
  | step value ih =>
    rw [ClarityValue.partsFrom_eq] at h ⊢
    intro part hpart
    rcases List.mem_cons.mp hpart with rfl | hpart
    · exact h (depth, ⟨value, span⟩) (List.mem_cons_self ..)
    · obtain ⟨child, hchild, hinner⟩ := List.mem_flatMap.mp hpart
      apply ih child hchild (depth + 1) (other + 1) child.span child.span _ part hinner
      intro inner hmem
      apply h inner
      apply List.mem_cons_of_mem
      exact List.mem_flatMap.mpr ⟨child, hchild, hmem⟩

/-- Something holds everywhere in a value if it holds there and everywhere in those inside. -/
theorem everywhere_iff {P : Value → Prop} {value : Value} :
    value.Everywhere P ↔ P value ∧ ∀ child ∈ value.children, child.value.Everywhere P := by
  simp only [Everywhere, ClarityValue.parts, ClarityValue.partsFrom_eq 0 (.bare value),
    List.forall_mem_cons, List.forall_mem_flatMap]
  apply and_congr Iff.rfl
  apply forall₂_congr
  intro child _
  constructor
  · exact forall_partsFrom_congr P child.value 1 0 child.span none
  · exact forall_partsFrom_congr P child.value 0 1 none child.span

end Value

end ClarityWire
