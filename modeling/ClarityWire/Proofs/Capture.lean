import ClarityWire.Proofs.Spans

/-!
# Recording ranges

Reading with ranges recorded and reading without go through the same bytes to the same end. Without,
the value is the other one with its ranges taken out; with them, no part is left without a range.
-/

namespace ClarityWire

/-- The value with no ranges, its own included. -/
def ClarityValue.withoutRanges (node : ClarityValue) : ClarityValue :=
  node.rebuild (fun _ => none) id

namespace Decoder

variable {α β : Type} {d : Decoder α} {d' : Decoder β} {f : α → β} {bytes : Bytes}

theorem decode_of_error {e : WireError} (h : d.decodeFront bytes = .error e) :
    d.decode bytes = .error e := by
  rw [decode, h]

theorem decode_of_ok {value : α} {count : Nat} (h : d.decodeFront bytes = .ok (value, count)) :
    d.decode bytes = if count = bytes.length then .ok value else .error .trailingBytes := by
  rw [decode, h]

theorem decode_map (h : d'.decodeFront bytes = (d.decodeFront bytes).map (Prod.map f id)) :
    d'.decode bytes = (d.decode bytes).map f := by
  cases hfront : d.decodeFront bytes with
  | error e =>
    rw [hfront] at h
    rw [decode_of_error h, decode_of_error hfront]
    rfl
  | ok read =>
    obtain ⟨value, count⟩ := read
    have h : d'.decodeFront bytes = .ok (f value, count) := by rw [h, hfront]; rfl
    rw [decode_of_ok h, decode_of_ok hfront]
    split <;> rfl

end Decoder

namespace ClarityValue

theorem read_false (cursor : Cursor) :
    read false cursor = (read true cursor).map (Prod.map withoutRanges id) := by
  have hshifted : Decoder.Shifted 0 withoutRanges (Decoder.nested true maxValueDepth)
      (Decoder.nested false maxValueDepth) := Decoder.nested_shifted (fun _ _ => rfl) maxValueDepth
  rw [read, read, run_decoder, run_decoder]
  exact hshifted cursor

theorem beq_withoutRanges (node : ClarityValue) : (node == node.withoutRanges) = true := by
  change Value.same node.value node.value.erase = true
  rw [Value.same_iff, Value.erase, Value.erase, Value.rebuild_rebuild]
  rfl

/-- Whether a part has a range is the same for all parts that are read together. -/
theorem span_of_mem_parts {capture : Bool} {cursor last : Cursor} {node : ClarityValue}
    (h : read capture cursor = .ok (node, last)) :
    ∀ part ∈ node.parts, ∃ start stop, part.2.span = spanAt capture start stop := by
  obtain ⟨tree, -, -, -, rfl⟩ := run_decoder_eq_ok_iff.mp h
  -- every part is read of a tree, and a tree has a range wherever it stands
  have htrees : ∀ part ∈ parts (tree.located capture cursor.offset),
      ∃ (inner : WireTree) (offset : Nat), part.2 = inner.located capture offset := by
    apply forall_partsFrom
      (P := fun _ node => ∃ (inner : WireTree) (offset : Nat), node = inner.located capture offset)
    · rintro depth node ⟨tree, offset, rfl⟩ child hchild
      obtain ⟨inner, -, front, -, -, rfl⟩ := WireTree.exists_of_mem_children hchild
      exact ⟨inner, offset + front.length, rfl⟩
    · exact ⟨tree, cursor.offset, rfl⟩
  intro part hpart
  obtain ⟨inner, offset, hinner⟩ := htrees part hpart
  exact ⟨offset, offset + inner.bytes.length, by rw [hinner, inner.span_located]⟩

/-! ## Decoding whole byte strings -/

theorem decodeFront_plain (bytes : Bytes) :
    plainDecoder.decodeFront bytes =
      ((decoder true).decodeFront bytes).map (Prod.map withoutRanges id) := by
  have hread := read_false (Cursor.ofBuffer bytes 0)
  rw [read, read] at hread
  rw [Decoder.decodeFront, run_plainDecoder_zero, hread, Decoder.decodeFront]
  cases (decoder true).run (Cursor.ofBuffer bytes 0) <;> rfl

theorem decodeFront_value (bytes : Bytes) :
    Value.decoder.decodeFront bytes =
      ((decoder true).decodeFront bytes).map
        (Prod.map (fun node => node.withoutRanges.value) id) := by
  have hread := read_false (Cursor.ofBuffer bytes 0)
  rw [read, read] at hread
  rw [Decoder.decodeFront, Value.run_decoder, hread, Decoder.decodeFront]
  cases (decoder true).run (Cursor.ofBuffer bytes 0) <;> rfl

theorem ofBytesCaptured_eq (bytes : Bytes) :
    ofBytesCaptured bytes = (decoder true).decode bytes := by
  rw [ofBytesCaptured, read, Decoder.decode, Decoder.decodeFront]
  cases (decoder true).run (Cursor.ofBuffer bytes 0) <;> rfl

/-- **Recording ranges changes nothing else.** From any position of a buffer, reading with ranges
and reading without fail alike, or stop at the same place with values that are equal up to ranges,
where all parts of the one have ranges and no part of the other has. Decoding a whole byte string
does the same three ways: it fails if reading fails, or if bytes are left, or gives one value. -/
theorem read_upToRanges :
    (∀ (buffer : Bytes) (position : Nat),
      (∃ e, read true (Cursor.ofBuffer buffer position) = .error e ∧
        read false (Cursor.ofBuffer buffer position) = .error e) ∨
      ∃ captured plain last, read true (Cursor.ofBuffer buffer position) = .ok (captured, last) ∧
        read false (Cursor.ofBuffer buffer position) = .ok (plain, last) ∧
          (captured == plain) = true ∧ (∀ part ∈ captured.parts, part.2.span.isSome) ∧
            ∀ part ∈ plain.parts, part.2.span = none) ∧
    ∀ bytes : Bytes,
      (∃ e, Value.decoder.decodeFront bytes = .error e ∧ ofBytesCaptured bytes = .error e ∧
        plainDecoder.decode bytes = .error e ∧ Value.decoder.decode bytes = .error e) ∨
      (∃ value count, Value.decoder.decodeFront bytes = .ok (value, count) ∧ count < bytes.length ∧
        ofBytesCaptured bytes = .error .trailingBytes ∧
          plainDecoder.decode bytes = .error .trailingBytes ∧
            Value.decoder.decode bytes = .error .trailingBytes) ∨
      ∃ captured plain, ofBytesCaptured bytes = .ok captured ∧
        plainDecoder.decode bytes = .ok plain ∧ Value.decoder.decode bytes = .ok plain.value ∧
          (captured == plain) = true := by
  constructor
  · intro buffer position
    have hplain := read_false (Cursor.ofBuffer buffer position)
    cases hread : read true (Cursor.ofBuffer buffer position) with
    | error e =>
      rw [hread] at hplain
      exact .inl ⟨e, rfl, hplain⟩
    | ok read =>
      obtain ⟨node, last⟩ := read
      rw [hread] at hplain
      refine .inr ⟨node, node.withoutRanges, last, rfl, hplain, beq_withoutRanges node, ?_, ?_⟩
      · intro part hpart
        obtain ⟨start, stop, hspan⟩ := span_of_mem_parts hread part hpart
        rw [hspan]
        rfl
      · intro part hpart
        obtain ⟨start, stop, hspan⟩ := span_of_mem_parts hplain part hpart
        exact hspan
  · intro bytes
    have hplain := Decoder.decode_map (decodeFront_plain bytes)
    have hvalue := Decoder.decode_map (decodeFront_value bytes)
    have hfront := decodeFront_value bytes
    rw [ofBytesCaptured_eq, hplain, hvalue, hfront]
    cases hread : (decoder true).decodeFront bytes with
    | error e =>
      rw [Decoder.decode_of_error hread]
      exact .inl ⟨e, rfl, rfl, rfl, rfl⟩
    | ok read =>
      obtain ⟨node, count⟩ := read
      rw [hread] at hfront
      obtain ⟨tree, rest, -, hbytes, hcount, -⟩ := Value.decodeFront_eq_ok_iff_tree.mp hfront
      have hle : count ≤ bytes.length := by
        rw [hbytes, List.length_append, ← hcount]
        exact Nat.le_add_right _ _
      rw [Decoder.decode_of_ok hread]
      by_cases hall : count = bytes.length
      · rw [if_pos hall]
        exact .inr (.inr ⟨node, node.withoutRanges, rfl, rfl, rfl, beq_withoutRanges node⟩)
      · rw [if_neg hall]
        exact .inr (.inl ⟨node.withoutRanges.value, count, rfl, by omega, rfl, rfl, rfl⟩)

end ClarityValue

end ClarityWire
