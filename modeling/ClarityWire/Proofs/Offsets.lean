import ClarityWire.Proofs.Fields
import ClarityWire.Proofs.Ranges

/-!
# Reading further on

A decoder may ask for its position and record it, but what else it reads and whether it fails
depends on the bytes alone. Read the same bytes further on, and the value is the same with its
ranges moved as far.
-/

namespace ClarityWire

/-- The range moved by a distance. -/
def Span.shift (distance : Nat) (span : Span) : Span :=
  ⟨span.start + distance, span.stop + distance⟩

/-- The value with every range inside it moved. -/
def Value.shift (distance : Nat) (value : Value) : Value :=
  value.rebuild (Option.map (Span.shift distance)) id

/-- The value with its range and every range inside it moved. -/
def ClarityValue.shift (distance : Nat) (node : ClarityValue) : ClarityValue :=
  ⟨node.value.shift distance, node.span.map (Span.shift distance)⟩

namespace Decoder

variable {α β γ δ : Type} {distance : Nat}

/-- The second decoder, run on the same bytes further on, fails as the first does, or stops as much
further on with what the first has read, changed. -/
def Shifted (distance : Nat) (change : α → β) (d : Decoder α) (d' : Decoder β) : Prop :=
  ∀ input : Cursor, d'.run (input.shift distance) =
    (d.run input).map fun (value, last) => (change value, last.shift distance)

theorem Shifted.done {change : α → β} (value : α) :
    Shifted distance change (.done value) (.done (change value)) := by
  intro input
  rfl

theorem Shifted.fail {change : α → β} (e : WireError) :
    Shifted distance change (.fail e) (.fail e) := by
  intro input
  rfl

theorem Shifted.position :
    Shifted distance (· + distance) (.position .done) (.position .done) := by
  intro input
  rfl

theorem Shifted.bind {change : α → β} {change' : γ → δ} {d : Decoder α} {d' : Decoder β}
    {f : α → Decoder γ} {f' : β → Decoder δ} (hd : Shifted distance change d d')
    (hf : ∀ value, Shifted distance change' (f value) (f' (change value))) :
    Shifted distance change' (d >>= f) (d' >>= f') := by
  intro input
  rw [run_andThen, run_andThen, hd input]
  cases d.run input with
  | error e => rfl
  | ok read => exact hf read.1 read.2

theorem Shifted.map {change : α → β} {change' : γ → δ} {d : Decoder α} {d' : Decoder β}
    {f : α → γ} {f' : β → δ} (hd : Shifted distance change d d')
    (hf : ∀ value, f' (change value) = change' (f value)) :
    Shifted distance change' (f <$> d) (f' <$> d') := by
  rw [map_eq_pure_bind, map_eq_pure_bind]
  apply hd.bind
  intro value
  rw [hf]
  exact .done (f value)

theorem Shifted.take {size : Nat} {next : Block size → Decoder α}
    (h : ∀ block, Shifted distance id (next block) (next block)) :
    Shifted distance id (.take size next) (.take size next) := by
  rintro ⟨bytes, offset⟩
  rcases Cursor.starts_or_short size bytes with ⟨block, rest, rfl⟩ | hshort
  · have hnext := h block ⟨rest, offset + size⟩
    rw [Cursor.shift, Nat.add_right_comm] at hnext
    rw [Cursor.shift, run_take_append, run_take_append, hnext]
  · rw [Cursor.shift, run_take_eq_error next hshort, run_take_eq_error next hshort]
    rfl

/-! ## Items of a fixed layout -/

theorem block_shifted (size : Nat) : Shifted distance id (block size) (block size) :=
  .take .done

theorem number_shifted (width : Nat) : Shifted distance id (number width) (number width) :=
  .take fun _ => .done _

theorem byte_shifted : Shifted distance id byte byte :=
  (number_shifted 1).map fun _ => rfl

theorem word128_shifted : Shifted distance id word128 word128 :=
  (number_shifted 16).map fun _ => rfl

theorem length_shifted : Shifted distance id Decoder.length Decoder.length := by
  apply (number_shifted 4).bind
  intro n
  rw [id_eq]
  split
  · exact .done n
  · exact .fail _

theorem limited_shifted (size : Nat) : Shifted distance id (limited size) (limited size) := by
  have hblock : Shifted distance id (Subtype.val <$> block size) (Subtype.val <$> block size) :=
    (block_shifted size).map fun _ => rfl
  intro input
  rw [run_limited, run_limited]
  exact hblock input

theorem sizedBytes_shifted : Shifted distance id sizedBytes sizedBytes :=
  length_shifted.bind limited_shifted

theorem stacksAddress_shifted : Shifted distance id stacksAddress stacksAddress :=
  byte_shifted.bind fun _ => (block_shifted 20).map fun _ => rfl

theorem name_shifted (kind : NameKind) : Shifted distance id (name kind) (name kind) := by
  apply (number_shifted 1).bind
  intro n
  rw [id_eq]
  split
  · apply (block_shifted n).bind
    intro block
    rw [id_eq]
    split
    · next text htext =>
      cases Name.ofString kind (String.ofList text) with
      | error e => exact .fail _
      | ok name => exact .done name
    · exact .fail _
  · exact .fail _

theorem replicate_shifted {change : α → β} {d : Decoder α} {d' : Decoder β}
    (h : Shifted distance change d d') (count : Nat) :
    Shifted distance (List.map change) (replicate count d) (replicate count d') := by
  induction count with
  | zero => exact .done []
  | succ count ih =>
    rw [replicate_succ, replicate_succ]
    apply h.bind
    intro item
    exact ih.map fun _ => rfl

/-! ## Values -/

variable {onSpan : Option Span → Option Span} {child child' : Decoder ClarityValue}

/-- The field with every range replaced. -/
def rebuildField (onSpan : Option Span → Option Span) (field : ClarityName × ClarityValue) :
    ClarityName × ClarityValue :=
  (field.1, field.2.rebuild onSpan id)

private theorem ofList_rebuild (entries : List (ClarityName × ClarityValue)) :
    Fields.ofList (entries.map (rebuildField onSpan)) =
      (Fields.ofList entries).map (List.map (rebuildField onSpan)) := by
  have hnames : (entries.map (rebuildField onSpan)).map (·.1) = entries.map (·.1) := List.map_map
  rw [Fields.ofList_eq, Fields.ofList_eq, hnames]
  cases Fields.repeated? (entries.map (·.1)) with
  | some name => rfl
  | none => exact congrArg Except.ok (Fields.sort_map (ClarityValue.rebuild onSpan id) entries)

private theorem rebuild_body (wrapper : Wrapper) (body : ClarityValue) :
    wrapper.value (body.rebuild onSpan id) = (wrapper.value body).rebuild onSpan id :=
  (Value.rebuild_wrapped wrapper body).symm

theorem field_shifted (h : Shifted distance (ClarityValue.rebuild onSpan id) child child') :
    Shifted distance (rebuildField onSpan) (field child) (field child') :=
  (name_shifted .clarity).bind fun _ => h.map fun _ => rfl

theorem content_shifted (h : Shifted distance (ClarityValue.rebuild onSpan id) child child')
    (tag : TypeTag) :
    Shifted distance (Value.rebuild onSpan id) (content child tag) (content child' tag) := by
  cases tag with
  | int => exact word128_shifted.map fun _ => rfl
  | uint => exact word128_shifted.map fun _ => rfl
  | buffer => exact sizedBytes_shifted.map fun _ => rfl
  | boolTrue => exact .done _
  | boolFalse => exact .done _
  | principal => exact stacksAddress_shifted.map fun _ => rfl
  | contract =>
    apply stacksAddress_shifted.bind
    intro issuer
    apply (name_shifted .clarity).bind
    intro name
    exact .done _
  | responseOk => exact h.map (rebuild_body .responseOk)
  | responseErr => exact h.map (rebuild_body .responseErr)
  | optionalNone => exact .done _
  | optionalSome => exact h.map (rebuild_body .optionalSome)
  | list =>
    apply length_shifted.bind
    intro count
    apply (replicate_shifted h count).map
    intro items
    exact (Value.rebuild_list items).symm
  | tuple =>
    apply length_shifted.bind
    intro count
    apply (replicate_shifted (field_shifted h) count).bind
    intro entries
    rw [ofList_rebuild]
    cases Fields.ofList entries with
    | error name => exact .fail _
    | ok fields =>
      have htuple : Value.tuple (fields.map (rebuildField onSpan)) =
          (Value.tuple fields).rebuild onSpan id := (Value.rebuild_tuple fields).symm
      have hdone : Shifted distance (Value.rebuild onSpan id) (.done (.tuple fields))
          (.done ((Value.tuple fields).rebuild onSpan id)) := .done _
      rw [← htuple] at hdone
      exact hdone
  | ascii => exact sizedBytes_shifted.map fun _ => rfl
  | utf8 =>
    apply sizedBytes_shifted.bind
    intro bytes
    rw [id_eq]
    split
    · next value hvalue =>
      rw [Value.ofUtf8?, Option.map_eq_some_iff] at hvalue
      obtain ⟨text, -, rfl⟩ := hvalue
      exact .done (Value.ofText text)
    · exact .fail _

/-- Reading a value, with ranges recorded or not, when what one run records becomes what the other
does. -/
theorem node_shifted {capture capture' : Bool}
    (hspan : ∀ start stop, onSpan (spanAt capture start stop) =
      spanAt capture' (start + distance) (stop + distance))
    (h : Shifted distance (ClarityValue.rebuild onSpan id) child child') :
    Shifted distance (ClarityValue.rebuild onSpan id) (node capture child)
      (node capture' child') := by
  apply Shifted.position.bind
  intro start
  apply byte_shifted.bind
  intro byte
  rw [id_eq]
  split
  · exact .fail _
  · next tag htag =>
    apply (content_shifted h tag).bind
    intro value
    apply Shifted.position.bind
    intro stop
    have hnode : (⟨value.rebuild onSpan id, spanAt capture' (start + distance) (stop + distance)⟩ :
        ClarityValue) = ClarityValue.rebuild onSpan id ⟨value, spanAt capture start stop⟩ := by
      rw [← hspan]
      rfl
    have hdone : Shifted distance (ClarityValue.rebuild onSpan id)
        (.done ⟨value, spanAt capture start stop⟩)
        (.done (ClarityValue.rebuild onSpan id ⟨value, spanAt capture start stop⟩)) := .done _
    rw [← hnode] at hdone
    exact hdone

theorem nested_shifted {capture capture' : Bool}
    (hspan : ∀ start stop, onSpan (spanAt capture start stop) =
      spanAt capture' (start + distance) (stop + distance)) (levels : Nat) :
    Shifted distance (ClarityValue.rebuild onSpan id) (nested capture levels)
      (nested capture' levels) := by
  induction levels with
  | zero => exact node_shifted hspan (.fail _)
  | succ levels ih => exact node_shifted hspan ih

end Decoder

/-- Reading at a position of a buffer is reading the buffer from there on, with the ranges moved. -/
theorem ClarityValue.read_ofBuffer (buffer : Bytes) (position : Nat) :
    read true (Cursor.ofBuffer buffer position) =
      (read true (Cursor.ofBuffer (buffer.drop position) 0)).map
        fun (node, last) => (node.shift position, last.shift position) := by
  have hshifted : Decoder.Shifted position (shift position) (Decoder.nested true maxValueDepth)
      (Decoder.nested true maxValueDepth) :=
    Decoder.nested_shifted (fun _ _ => rfl) maxValueDepth
  have hread := hshifted (Cursor.ofBuffer (buffer.drop position) 0)
  have hcursor : (Cursor.ofBuffer (buffer.drop position) 0).shift position =
      Cursor.ofBuffer buffer position := by
    rw [Cursor.ofBuffer, List.drop_zero, Cursor.shift, Nat.zero_add, Cursor.ofBuffer]
  rw [hcursor, ← run_decoder, ← run_decoder] at hread
  exact hread

end ClarityWire
