import ClarityWire.Proofs.Capture
import ClarityWire.Proofs.Signatures
import ClarityWire.Proofs.Spelling
import ClarityWire.Proofs.Summaries

/-!
# What ranges do not change

Comparison looks through ranges at every depth, and so does everything else that can be asked of a
value: its text, its type signature, its type, its bytes and its summaries. Reading the same bytes
at two places gives values that differ in nothing but their ranges.
-/

namespace ClarityWire

namespace Value

theorem children_erase (value : Value) :
    value.erase.children = value.children.map ClarityValue.withoutRanges := by
  rw [erase]
  cases value
  case responseOk body | responseErr body | optionalSome body =>
    cases body
    rfl
  case list items =>
    rw [rebuild_list]
    rfl
  case tuple fields =>
    rw [rebuild_tuple, children, children, List.map_map, List.map_map]
    rfl
  all_goals rfl

/-! ## Summaries -/

theorem typeTag_erase (value : Value) : value.erase.typeTag = value.typeTag := by
  rw [erase]
  cases value <;> simp only [rebuild, typeTag]

theorem headMembers_erase (value : Value) : value.erase.headMembers = value.headMembers := by
  rw [headMembers, render, renderLimited_erase, toHex, toBytes_erase, typeTag_erase]
  rfl

theorem summary_true_eq_of_contentMembers {value : Value}
    (h : value.erase.contentMembers = value.contentMembers) :
    value.erase.summary true = value.summary true := by
  rw [summary, summary, if_pos rfl, if_pos rfl, headMembers_erase, h]

theorem contentMembers_erase (value : Value) :
    value.erase.contentMembers = value.contentMembers := by
  induction value with
  | atom value a htree =>
    cases value <;> rw [tree] at htree <;> cases htree <;> rfl
  | wrapped wrapper body ih =>
    rw [erase, rebuild_wrapped, contentMembers_wrapped, contentMembers_wrapped]
    exact congrArg (fun json => [("value", json)]) (summary_true_eq_of_contentMembers ih)
  | list items ih =>
    rw [erase, rebuild_list, contentMembers, contentMembers, itemSummaries_eq, itemSummaries_eq,
      List.map_map]
    congr 3
    apply List.map_congr_left
    intro item hitem
    exact summary_true_eq_of_contentMembers (ih item hitem)
  | tuple fields ih =>
    rw [erase, rebuild_tuple, contentMembers, contentMembers, fieldSummaries_eq, fieldSummaries_eq,
      Fields.byText, Fields.byText, List.map_map]
    congr 3
    apply List.map_congr_left
    intro field hfield
    exact congrArg (Prod.mk field.1.text) (summary_true_eq_of_contentMembers (ih field hfield))

/-- Ranges do not show in a summary, deep or not. -/
theorem summary_erase (value : Value) (deep : Bool) :
    value.erase.summary deep = value.summary deep := by
  rw [summary, summary, headMembers_erase, contentMembers_erase]

/-! ## All that can be asked -/

/-- Whether two values answer alike whatever is asked of them, ranges apart. -/
structure LooksLike (value other : Value) : Prop where
  renderLimited_eq : ∀ limit?, value.renderLimited limit? = other.renderLimited limit?
  signature_eq : value.signature = other.signature
  typeTag_eq : value.typeTag = other.typeTag
  /-- Every writer is written the same bytes, and these are counted alike. -/
  encoder_eq : value.encoder = other.encoder
  toBytes_eq : value.toBytes = other.toBytes
  summary_eq : ∀ deep, value.summary deep = other.summary deep

theorem looksLike_of_erase_eq {value other : Value} (h : value.erase = other.erase) :
    value.LooksLike other where
  renderLimited_eq limit? := by rw [← renderLimited_erase value, h, renderLimited_erase]
  signature_eq := by rw [← signature_erase value, h, signature_erase]
  typeTag_eq := by rw [← typeTag_erase value, h, typeTag_erase]
  encoder_eq := by
    have htree : value.tree = other.tree := by
      rw [← tree_rebuild value, ← erase, h, erase, tree_rebuild]
    rw [encoder_eq, encoder_eq, htree]
  toBytes_eq := by rw [← toBytes_erase value, h, toBytes_erase]
  summary_eq deep := by rw [← summary_erase value, h, summary_erase]

end Value

namespace ClarityValue

/-- No range is left at any depth. -/
theorem span_of_mem_parts_withoutRanges (node : ClarityValue) :
    ∀ part ∈ node.withoutRanges.parts, part.2.span = none := by
  have hall : ∀ part ∈ node.withoutRanges.parts,
      ∃ inner : ClarityValue, part.2 = inner.withoutRanges := by
    apply forall_partsFrom (P := fun _ part => ∃ inner : ClarityValue, part = inner.withoutRanges)
    · rintro depth part ⟨inner, rfl⟩ child hchild
      change child ∈ inner.value.erase.children at hchild
      rw [Value.children_erase] at hchild
      obtain ⟨other, -, rfl⟩ := List.mem_map.mp hchild
      exact ⟨other, rfl⟩
    · exact ⟨node, rfl⟩
  intro part hpart
  obtain ⟨inner, hinner⟩ := hall part hpart
  rw [hinner]
  rfl

theorem withoutRanges_eq_iff {node other : ClarityValue} :
    node.withoutRanges = other.withoutRanges ↔ node.value.erase = other.value.erase := by
  constructor
  · intro h
    exact congrArg Spanned.value h
  · intro h
    exact congrArg Spanned.bare h

/-- What decodes by itself is read anywhere, with the range of where it stands. -/
theorem read_framed {encoding : Bytes} {value : Value}
    (h : Value.decoder.decode encoding = .ok value) (front back : Bytes) :
    ∃ node last, read true (Cursor.ofBuffer (front ++ encoding ++ back) front.length) =
        .ok (node, last) ∧
      node.span = some ⟨front.length, front.length + encoding.length⟩ ∧
        node.value.erase = value := by
  obtain ⟨tree, hfail, rfl, rfl⟩ := Value.decode_eq_ok_iff_tree.mp h
  refine ⟨tree.located true front.length, ⟨back, front.length + tree.bytes.length⟩, ?_,
    tree.span_located front.length, tree.erase_located true front.length⟩
  apply run_decoder_eq_ok_iff.mpr
  refine ⟨tree, hfail, ?_, rfl, rfl⟩
  rw [Cursor.ofBuffer, List.append_assoc, List.drop_left]

/-- **Ranges do not count.** Two values compare equal exactly if they are equal once no part of
either has a range, and then they look the same. What decodes by itself is read in front of and
behind anything, with ranges of where it stands, and any two readings of it compare equal. -/
theorem beq_upToRanges :
    (∀ node : ClarityValue, ∀ part ∈ node.withoutRanges.parts, part.2.span = none) ∧
    (∀ node other : ClarityValue,
      ((node == other) = true ↔ node.withoutRanges = other.withoutRanges) ∧
        ((node == other) = true → node.value.LooksLike other.value)) ∧
    ∀ (encoding : Bytes) (value : Value), Value.decoder.decode encoding = .ok value →
      ∀ front back front' back' : Bytes, ∃ node last node' last',
        read true (Cursor.ofBuffer (front ++ encoding ++ back) front.length) = .ok (node, last) ∧
        read true (Cursor.ofBuffer (front' ++ encoding ++ back') front'.length) =
          .ok (node', last') ∧
        node.span = some ⟨front.length, front.length + encoding.length⟩ ∧
        node'.span = some ⟨front'.length, front'.length + encoding.length⟩ ∧
          (node == node') = true := by
  have hbeq (node other : ClarityValue) :
      (node == other) = true ↔ node.value.erase = other.value.erase :=
    Value.same_iff node.value other.value
  refine ⟨span_of_mem_parts_withoutRanges, ?_, ?_⟩
  · intro node other
    rw [hbeq, withoutRanges_eq_iff]
    exact ⟨Iff.rfl, Value.looksLike_of_erase_eq⟩
  · intro encoding value h front back front' back'
    obtain ⟨node, last, hread, hspan, hvalue⟩ := read_framed h front back
    obtain ⟨node', last', hread', hspan', hvalue'⟩ := read_framed h front' back'
    refine ⟨node, last, node', last', hread, hread', hspan, hspan', ?_⟩
    rw [hbeq, hvalue, hvalue']

/-- The optional that holds true, read at the start of a buffer and behind two other bytes. -/
theorem beq_upToRanges_someTrue :
    ∃ node last node' last', read true (Cursor.ofBuffer [0x0a, 0x03] 0) = .ok (node, last) ∧
      read true (Cursor.ofBuffer [0xee, 0xff, 0x0a, 0x03, 0x0b] 2) = .ok (node', last') ∧
        node.span = some ⟨0, 2⟩ ∧ node'.span = some ⟨2, 4⟩ ∧ (node == node') = true ∧
          node.withoutRanges = node'.withoutRanges ∧ node.value.LooksLike node'.value ∧
            (0, node.withoutRanges) ∈ node.withoutRanges.parts ∧
              ∀ part ∈ node.withoutRanges.parts, part.2.span = none := by
  have hdecode : Value.decoder.decode [0x0a, 0x03] = .ok (.optionalSome (.bare (.bool true))) := by
    rfl
  obtain ⟨node, last, node', last', hread, hread', hspan, hspan', hbeq⟩ :=
    beq_upToRanges.2.2 [0x0a, 0x03] _ hdecode [] [] [0xee, 0xff] [0x0b]
  obtain ⟨hranges, hlooks⟩ := beq_upToRanges.2.1 node node'
  have hself : (0, node.withoutRanges) ∈ node.withoutRanges.parts := by
    rw [parts, partsFrom_eq]
    exact List.mem_cons_self ..
  exact ⟨node, last, node', last', hread, hread', hspan, hspan', hbeq, hranges.mp hbeq,
    hlooks hbeq, hself, beq_upToRanges.1 node⟩

end ClarityValue

end ClarityWire
