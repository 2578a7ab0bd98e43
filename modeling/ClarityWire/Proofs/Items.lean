import ClarityWire.Item
import ClarityWire.Proofs.Spans
import ClarityWire.Proofs.RoundTrip

/-!
# Items of every type

Whatever its type, an item is written at once and in front of whatever else it is read back from
its bytes. A value is, if it keeps to the limits and holds its strings scalar by scalar; with ranges
recorded, the range of every part selects what is written of that part.
-/

namespace ClarityWire

namespace Value

/-- Whether no part of a value is nested too deep and none is too long. -/
def WithinLimits (value : Value) : Prop :=
  ∀ part ∈ ClarityValue.parts (.bare value),
    part.1 ≤ maxValueDepth ∧ part.2.value.size ≤ maxValueSize

instance (value : Value) : Decidable value.WithinLimits :=
  inferInstanceAs (Decidable (∀ part ∈ ClarityValue.parts (.bare value), _))

/-- Whether a value that was built in order comes back from its bytes as it is. -/
structure RoundTrips (value : Value) : Prop where
  ordered : value.Ordered
  withinLimits : value.WithinLimits
  scalar : value.Scalar

theorem textFailure?_of_splitByScalars {value : Value} (h : value.SplitByScalars) :
    value.textFailure? = none := by
  cases value with
  | utf8 groups =>
    obtain ⟨text, rfl⟩ := Utf8.exists_text_of_groups h
    exact if_pos ⟨text, rfl⟩
  | _ => rfl

theorem RoundTrips.firstFailure? {value : Value} (h : value.RoundTrips) :
    value.firstFailure? = none := by
  rw [Value.firstFailure?, failureFrom?, List.findSome?_eq_none_iff]
  intro part hpart
  obtain ⟨hdepth, hsize⟩ := h.withinLimits part hpart
  rw [check?, WireTree.depthFailure?_eq_none_iff.mpr hdepth,
    WireTree.sizeFailure?_eq_none_iff.mpr hsize,
    textFailure?_of_splitByScalars (h.scalar part hpart)]
  rfl

theorem RoundTrips.failure?_tree {value : Value} (h : value.RoundTrips) :
    value.tree.failure? 0 = none := by
  rw [Value.failure?_tree h.ordered 0 none]
  exact h.firstFailure?

theorem RoundTrips.same_located {value : Value} (h : value.RoundTrips) (capture : Bool)
    (offset : Nat) : same (value.tree.located capture offset).value value = true := by
  rw [same_iff, WireTree.erase_located, value_tree h.ordered, resplit_eq_erase_iff]
  exact h.scalar

/-- The fields of a value that was built in order are written in ascending order. -/
theorem ascending_tree {value : Value} (h : value.Ordered) : value.tree.Ascending := by
  induction value with
  | atom value a htree =>
    rw [htree]
    exact .atom a
  | wrapped wrapper body ih =>
    rw [tree_wrapped]
    exact .wrapped (ih (Ordered.child h (by simp [children_wrapped])))
  | list items ih =>
    rw [tree_list]
    apply WireTree.Ascending.list
    intro item hitem
    obtain ⟨node, hnode, rfl⟩ := List.mem_map.mp hitem
    exact ih node hnode (Ordered.child h hnode)
  | tuple fields ih =>
    rw [tree_tuple]
    apply WireTree.Ascending.tuple
    · rw [Fields.ascending_iff_names, List.map_map]
      exact Fields.ascending_iff_names.mp (ordered_iff.mp h).1
    · intro entry hentry
      obtain ⟨field, hfield, rfl⟩ := List.mem_map.mp hentry
      exact ih field hfield (Ordered.child h (List.mem_map_of_mem hfield))

end Value

namespace WireTree

theorem Ascending.of_mem_children {tree inner : WireTree} (h : tree.Ascending)
    (hinner : inner ∈ tree.children) : inner.Ascending := by
  cases h with
  | atom a => cases hinner
  | wrapped hbody => exact List.mem_singleton.mp hinner ▸ hbody
  | list hitems => exact hitems inner hinner
  | tuple _ hentries =>
    obtain ⟨entry, hentry, rfl⟩ := List.mem_map.mp hinner
    exact hentries entry hentry

/-- What is read of a tree in ascending order is written as that tree again. -/
theorem toBytes_located {tree : WireTree} {depth : Nat} (h : tree.failure? depth = none)
    (hasc : tree.Ascending) (offset : Nat) :
    (tree.located true offset).value.toBytes = tree.bytes := by
  rw [← Value.toBytes_erase, erase_located, toBytes_value_eq_iff h,
    keysAscending_bytes_iff (representable_of_failure? h)]
  exact hasc

/-- The range of every part of what is read of a tree in ascending order selects what is written of
that part. -/
theorem bytes?_of_mem_parts {tree : WireTree} (h : tree.failure? 0 = none) (hasc : tree.Ascending)
    (front back : Bytes) : ∀ part ∈ (tree.located true front.length).parts,
      part.2.bytes? (front ++ tree.bytes ++ back) = some part.2.value.toBytes := by
  have hparts : ∀ part ∈ (tree.located true front.length).parts,
      ∃ (inner : WireTree) (before after : Bytes), inner.failure? part.1 = none ∧
        inner.Ascending ∧ front ++ tree.bytes ++ back = before ++ inner.bytes ++ after ∧
          part.2 = inner.located true before.length := by
    apply ClarityValue.forall_partsFrom
      (P := fun depth node => ∃ (inner : WireTree) (before after : Bytes),
        inner.failure? depth = none ∧ inner.Ascending ∧
          front ++ tree.bytes ++ back = before ++ inner.bytes ++ after ∧
            node = inner.located true before.length)
    · rintro depth node ⟨outer, before, after, hfail, hasc, hbytes, rfl⟩ child hchild
      obtain ⟨inner, hinner, first, last, houter, rfl⟩ := exists_of_mem_children hchild
      refine ⟨inner, before ++ first, last ++ after, failure?_of_mem_children hfail hinner,
        hasc.of_mem_children hinner, ?_, ?_⟩
      · rw [hbytes, houter]
        simp only [List.append_assoc]
      · rw [List.length_append]
    · exact ⟨tree, front, back, h, hasc, rfl, rfl⟩
  intro part hpart
  obtain ⟨inner, before, after, hfail, hasc, hbytes, hnode⟩ := hparts part hpart
  rw [hbytes, hnode, toBytes_located hfail hasc, Spanned.bytes?, span_located]
  exact Bytes.slice?_append before inner.bytes after

end WireTree

namespace WireType

/-! ## Writing -/

private theorem eq_writeCounted_toBytes {e : Encoder Nat} {bytes : Bytes}
    (h : e = Encoder.writeCounted bytes) : e = Encoder.writeCounted e.toBytes := by
  rw [h, Encoder.toBytes_writeCounted]

/-- An item of any type is written at once. -/
theorem encoder_eq (type : WireType) (item : type.Item) :
    type.encoder item = Encoder.writeCounted (type.toBytes item) := by
  cases type with
  | byte => exact eq_writeCounted_toBytes (Encoder.byte_eq item)
  | word32 => exact eq_writeCounted_toBytes (Encoder.word32_eq item)
  | uint128 => exact eq_writeCounted_toBytes (Encoder.word128_eq item)
  | int128 => exact eq_writeCounted_toBytes (Encoder.word128_eq item)
  | hash160 => exact eq_writeCounted_toBytes (Encoder.block_eq item)
  | stacksAddress => exact eq_writeCounted_toBytes (Encoder.stacksAddress_eq item)
  | clarityName => exact eq_writeCounted_toBytes (Encoder.name_eq item)
  | contractName => exact eq_writeCounted_toBytes (Encoder.name_eq item)
  | value => exact eq_writeCounted_toBytes (Value.encoder_eq item)
  | clarityValue => exact eq_writeCounted_toBytes (Value.encoder_eq (Spanned.value item))

/-! ## Reading back -/

/-- Whether an item comes back from its bytes as it is, which all do that are no values. -/
def RoundTrips : (type : WireType) → type.Item → Prop
  | .value, item => Value.RoundTrips item
  | .clarityValue, item => Value.RoundTrips (Spanned.value item)
  | _, _ => True

/-- Equality of items, recorded ranges aside. -/
def Same : (type : WireType) → type.Item → type.Item → Prop
  | .value, item, other => Value.same item other = true
  | .clarityValue, item, other => Value.same (Spanned.value item) (Spanned.value other) = true
  | _, item, other => item = other

end WireType

/-- A value that comes back is read from its bytes wherever they stand. -/
theorem ClarityValue.decoder_answers {value : Value} (h : value.RoundTrips) (capture : Bool)
    (offset : Nat) : (decoder capture).Answers offset value.toBytes
      (.ok (value.tree.located capture offset)) := by
  intro rest
  have hrun := run_decoder_bytes (WireTree.representable_of_failure? h.failure?_tree) capture rest
    offset
  rw [h.failure?_tree, ← Value.toBytes_eq] at hrun
  exact hrun

theorem ClarityValue.plainDecoder_answers {value : Value} (h : value.RoundTrips) (offset : Nat) :
    plainDecoder.Answers offset value.toBytes (.ok (value.tree.located false offset)) := by
  intro rest
  have hanswer := decoder_answers h false 0 rest
  rw [WireTree.located_false] at hanswer
  have hstop : 0 + value.toBytes.length + offset = offset + value.toBytes.length := by omega
  rw [run_plainDecoder, hanswer, WireTree.located_false, ← hstop]
  rfl

namespace WireType

private theorem exists_of_answers {type : WireType} {item : type.Item} {offset : Nat}
    {bytes : Bytes} (hencoder : type.encoder item = Encoder.writeCounted bytes)
    {read : type.Item} (hread : type.decoder.Answers offset bytes (.ok read))
    (hsame : type.Same read item) :
    ∃ read, type.decoder.Answers offset (type.toBytes item) (.ok read) ∧ type.Same read item := by
  rw [toBytes, hencoder, Encoder.toBytes_writeCounted]
  exact ⟨read, hread, hsame⟩

/-- An item that comes back is read from its bytes wherever they stand. -/
theorem decoder_answers {type : WireType} {item : type.Item} (h : type.RoundTrips item)
    (offset : Nat) : ∃ read, type.decoder.Answers offset (type.toBytes item) (.ok read) ∧
      type.Same read item := by
  cases type with
  | byte =>
    exact exists_of_answers (Encoder.byte_eq item) (Decoder.byte_answers item offset) rfl
  | word32 =>
    exact exists_of_answers (Encoder.word32_eq item) (Decoder.word32_answers item offset) rfl
  | uint128 =>
    exact exists_of_answers (Encoder.word128_eq item) (Decoder.word128_answers item offset) rfl
  | int128 =>
    exact exists_of_answers (Encoder.word128_eq item) (Decoder.word128_answers item offset) rfl
  | hash160 =>
    exact exists_of_answers (Encoder.block_eq item) (Decoder.block_answers item offset) rfl
  | stacksAddress =>
    exact exists_of_answers (Encoder.stacksAddress_eq item)
      (Decoder.stacksAddress_answers item offset) rfl
  | clarityName =>
    exact exists_of_answers (Encoder.name_eq item) (Decoder.name_answers item offset) rfl
  | contractName =>
    exact exists_of_answers (Encoder.name_eq item) (Decoder.name_answers item offset) rfl
  | value =>
    have hanswer := ClarityValue.plainDecoder_answers h offset
    exact ⟨_, hanswer.map Spanned.value, Value.RoundTrips.same_located h false offset⟩
  | clarityValue =>
    have hanswer := ClarityValue.plainDecoder_answers h offset
    exact ⟨_, hanswer, Value.RoundTrips.same_located h false offset⟩

end WireType

end ClarityWire
