import ClarityWire.Proofs.ValueTree

/-!
# Recorded ranges

A value can be rebuilt with other ranges or with its strings split otherwise. Comparison looks
through ranges, and the value that is read of a tree at one offset is the value that is read of it
at another with the ranges moved.
-/

namespace ClarityWire

namespace Value

mutual

/-- The value with every range inside it and every UTF-8 string replaced. -/
def rebuild (onSpan : Option Span → Option Span) (onText : List Bytes → List Bytes) :
    Value → Value
  | .responseOk ⟨body, span⟩ => .responseOk ⟨rebuild onSpan onText body, onSpan span⟩
  | .responseErr ⟨body, span⟩ => .responseErr ⟨rebuild onSpan onText body, onSpan span⟩
  | .optionalSome ⟨body, span⟩ => .optionalSome ⟨rebuild onSpan onText body, onSpan span⟩
  | .list items => .list (rebuildItems onSpan onText items)
  | .tuple fields => .tuple (rebuildFields onSpan onText fields)
  | .utf8 groups => .utf8 (onText groups)
  | value => value

def rebuildItems (onSpan : Option Span → Option Span) (onText : List Bytes → List Bytes) :
    List (Spanned Value) → List (Spanned Value)
  | [] => []
  | ⟨item, span⟩ :: rest =>
    ⟨rebuild onSpan onText item, onSpan span⟩ :: rebuildItems onSpan onText rest

def rebuildFields (onSpan : Option Span → Option Span) (onText : List Bytes → List Bytes) :
    List (ClarityName × Spanned Value) → List (ClarityName × Spanned Value)
  | [] => []
  | (name, ⟨field, span⟩) :: rest =>
    (name, ⟨rebuild onSpan onText field, onSpan span⟩) :: rebuildFields onSpan onText rest

end

/-- The value with no ranges. -/
def erase (value : Value) : Value :=
  value.rebuild (fun _ => none) id

/-- The value with no ranges and with every UTF-8 string split into its scalars. -/
def resplit (value : Value) : Value :=
  value.rebuild (fun _ => none) fun groups => Utf8.scalars groups.flatten

end Value

/-- The value with its range and those inside it, and every UTF-8 string, replaced. -/
def ClarityValue.rebuild (onSpan : Option Span → Option Span) (onText : List Bytes → List Bytes)
    (node : ClarityValue) : ClarityValue :=
  ⟨node.value.rebuild onSpan onText, onSpan node.span⟩

namespace Value

variable {onSpan : Option Span → Option Span} {onText : List Bytes → List Bytes}

theorem rebuild_wrapped (wrapper : Wrapper) (body : ClarityValue) :
    (wrapper.value body).rebuild onSpan onText = wrapper.value (body.rebuild onSpan onText) := by
  obtain ⟨value, span⟩ := body
  cases wrapper <;> simp only [Wrapper.value, rebuild, ClarityValue.rebuild]

theorem rebuild_list (items : List ClarityValue) :
    (Value.list items).rebuild onSpan onText =
      .list (items.map (ClarityValue.rebuild onSpan onText)) := by
  rw [rebuild]
  congr 1
  induction items with
  | nil => rfl
  | cons item rest ih => rw [rebuildItems, ih, List.map_cons, ClarityValue.rebuild]

theorem rebuild_tuple (fields : Fields ClarityValue) :
    (Value.tuple fields).rebuild onSpan onText =
      .tuple (fields.map fun field => (field.1, field.2.rebuild onSpan onText)) := by
  rw [rebuild]
  congr 1
  induction fields with
  | nil => rfl
  | cons field rest ih => rw [rebuildFields, ih, List.map_cons, ClarityValue.rebuild]

/-- Rebuilding twice is rebuilding once. -/
theorem rebuild_rebuild (value : Value) (onSpan' : Option Span → Option Span)
    (onText' : List Bytes → List Bytes) :
    (value.rebuild onSpan onText).rebuild onSpan' onText' =
      value.rebuild (fun span => onSpan' (onSpan span)) fun groups => onText' (onText groups) := by
  induction value with
  | atom value a h =>
    cases value <;> rw [tree] at h <;> cases h <;> simp only [rebuild]
  | wrapped wrapper body ih =>
    simp only [rebuild_wrapped, ClarityValue.rebuild, ih]
  | list items ih =>
    rw [rebuild_list, rebuild_list, rebuild_list, List.map_map]
    congr 1
    apply List.map_congr_left
    intro item hitem
    simp only [Function.comp_apply, ClarityValue.rebuild, ih item hitem]
  | tuple fields ih =>
    rw [rebuild_tuple, rebuild_tuple, rebuild_tuple, List.map_map]
    congr 1
    apply List.map_congr_left
    intro field hfield
    simp only [Function.comp_apply, ClarityValue.rebuild, ih field hfield]

/-- Ranges are not written. -/
theorem tree_rebuild (value : Value) : (value.rebuild onSpan id).tree = value.tree := by
  induction value with
  | atom value a h =>
    cases value <;> rw [tree] at h <;> cases h <;> simp only [rebuild, tree, id_eq]
  | wrapped wrapper body ih =>
    rw [rebuild_wrapped, tree_wrapped, tree_wrapped, ClarityValue.rebuild, ih]
  | list items ih =>
    rw [rebuild_list, tree_list, tree_list, List.map_map]
    congr 1
    apply List.map_congr_left
    intro item hitem
    exact ih item hitem
  | tuple fields ih =>
    rw [rebuild_tuple, tree_tuple, tree_tuple, List.map_map]
    congr 1
    apply List.map_congr_left
    intro field hfield
    exact congrArg (Prod.mk field.1) (ih field hfield)

theorem toBytes_erase (value : Value) : value.erase.toBytes = value.toBytes := by
  rw [toBytes_eq, toBytes_eq, erase, tree_rebuild]

/-! ## Equal parts make equal wholes -/

theorem erase_wrapped_of_eq (wrapper : Wrapper) {body other : ClarityValue}
    (h : body.value.erase = other.value.erase) :
    (wrapper.value body).erase = (wrapper.value other).erase := by
  rw [erase, erase, rebuild_wrapped, rebuild_wrapped]
  exact congrArg (fun value => wrapper.value ⟨value, none⟩) h

theorem erase_list_of_forall₂ {items others : List ClarityValue}
    (h : List.Forall₂ (fun item other => item.value.erase = other.value.erase) items others) :
    (Value.list items).erase = (Value.list others).erase := by
  rw [erase, erase, rebuild_list, rebuild_list]
  congr 1
  induction h with
  | nil => rfl
  | cons hitem _ ih =>
    rw [List.map_cons, List.map_cons, ih]
    congr 1
    exact congrArg (Spanned.mk · none) hitem

theorem erase_tuple_of_forall₂ {fields others : Fields ClarityValue}
    (h : List.Forall₂
      (fun field other => field.1 = other.1 ∧ field.2.value.erase = other.2.value.erase)
      fields others) :
    (Value.tuple fields).erase = (Value.tuple others).erase := by
  rw [erase, erase, rebuild_tuple, rebuild_tuple]
  congr 1
  induction h with
  | nil => rfl
  | cons hfield _ ih =>
    rw [List.map_cons, List.map_cons, ih, hfield.1]
    congr 2
    exact congrArg (Spanned.mk · none) hfield.2

/-! ## Comparison -/

private theorem sameItems_iff (items others : List ClarityValue)
    (h : ∀ item ∈ items, ∀ other, same item.value other = true ↔ item.value.erase = other.erase) :
    sameItems items others = true ↔
      items.map (ClarityValue.rebuild (fun _ => none) id) =
        others.map (ClarityValue.rebuild (fun _ => none) id) := by
  induction items generalizing others with
  | nil => cases others <;> simp [sameItems]
  | cons item rest ih =>
    obtain ⟨hitem, hrest⟩ := List.forall_mem_cons.mp h
    cases others with
    | nil => simp [sameItems]
    | cons other others =>
      simp [sameItems, hitem, ih others hrest, erase, ClarityValue.rebuild]

private theorem sameFields_iff (fields others : Fields ClarityValue)
    (h : ∀ field ∈ fields, ∀ other,
      same field.2.value other = true ↔ field.2.value.erase = other.erase) :
    sameFields fields others = true ↔
      fields.map (fun field => (field.1, field.2.rebuild (fun _ => none) id)) =
        others.map fun other => (other.1, other.2.rebuild (fun _ => none) id) := by
  induction fields generalizing others with
  | nil => cases others <;> simp [sameFields]
  | cons field rest ih =>
    obtain ⟨hfield, hrest⟩ := List.forall_mem_cons.mp h
    cases others with
    | nil => simp [sameFields]
    | cons other others =>
      simp [sameFields, hfield, ih others hrest, erase, ClarityValue.rebuild, and_assoc]

/-- Two values are the same exactly when they are equal once no ranges are left. -/
theorem same_iff (value other : Value) : same value other = true ↔ value.erase = other.erase := by
  induction value generalizing other with
  | atom value a h =>
    cases value <;> rw [tree] at h <;> cases h <;> cases other <;> simp [same, erase, rebuild]
  | wrapped wrapper body ih =>
    obtain ⟨body, _⟩ := body
    cases wrapper <;> cases other
    case responseOk.responseOk other | responseErr.responseErr other |
        optionalSome.optionalSome other =>
      obtain ⟨other, _⟩ := other
      simpa [Wrapper.value, same, erase, rebuild] using ih other
    all_goals simp [Wrapper.value, same, erase, rebuild]
  | list items ih =>
    cases other
    case list others =>
      rw [same, sameItems_iff items others ih, erase, erase, rebuild_list, rebuild_list,
        Value.list.injEq]
    all_goals simp [same, erase, rebuild]
  | tuple fields ih =>
    cases other
    case tuple others =>
      rw [same, sameFields_iff fields others ih, erase, erase, rebuild_tuple, rebuild_tuple,
        Value.tuple.injEq]
    all_goals simp [same, erase, rebuild]

end Value

/-! ## Values of trees -/

namespace WireTree

private theorem erase_atom (a : Atom) : a.value.erase = a.value := by
  cases a <;> simp only [Value.erase, Atom.value, Value.rebuild, id_eq]

/-- Without its ranges, what is read of a tree is the value of the tree. -/
theorem erase_located (tree : WireTree) (capture : Bool) (offset : Nat) :
    (tree.located capture offset).value.erase = tree.value := by
  induction tree generalizing offset with
  | atom a =>
    rw [located, value, located]
    exact erase_atom a
  | wrapped wrapper body ih =>
    rw [located, Value.erase, Value.rebuild_wrapped, value_wrapped, ← ih (offset + 1)]
    rfl
  | list items ih =>
    rw [located, Value.erase, Value.rebuild_list, value_list, locatedItems_eq, map_placed]
    congr 1
    apply placed_eq_map
    intro item hitem offset
    rw [← ih item hitem offset]
    rfl
  | tuple entries ih =>
    rw [located, Value.erase, Value.rebuild_tuple, value_tuple, locatedEntries_eq,
      ← Fields.sort_map, map_placed]
    congr 2
    apply placed_eq_map
    intro entry hentry offset
    rw [valueEntry, ← ih entry hentry (offset + entry.1.wireBytes.length)]
    rfl

/-- The comparison of the program is equality where no ranges are recorded. -/
theorem value_beq_iff (tree other : WireTree) :
    (tree.value == other.value) = true ↔ tree.value = other.value := by
  have herase (tree : WireTree) : tree.value.erase = tree.value := tree.erase_located false 0
  change Value.same tree.value other.value = true ↔ tree.value = other.value
  rw [Value.same_iff, herase, herase]

end WireTree

end ClarityWire
