import ClarityWire.Item
import ClarityWire.Proofs.Reading

/-!
# What decoders ask for

A decoder asks for its bytes piece by piece, and whatever stands behind the last of them makes no
difference to it. None reports the end of the input while there is more of it: that error means that
more bytes were asked for than there are, whether the source notices or the decoder.
-/

namespace ClarityWire

namespace Decoder

variable {α β : Type}

/-- How many bytes a decoder asks for on an input, whether they are there or not. -/
def needed : Decoder α → Cursor → Nat
  | .done _, _ => 0
  | .fail _, _ => 0
  | .take count next, input =>
    match input.take count with
    | .ok (block, rest) => count + (next block).needed rest
    | .error _ => count
  | .upTo limit next, input =>
    match input.take limit with
    | .ok (block, rest) => limit + (next block.1).needed rest
    | .error _ => limit
  | .position next, input => (next input.offset).needed input

/-- The decoder reads on with `count` bytes, or else the end of the input is reported, be it by the
source or by the decoder that has got fewer. -/
inductive Demands : Decoder α → (count : Nat) → (Block count → Decoder α) → Prop where
  | take {count : Nat} (next : Block count → Decoder α) : Demands (.take count next) count next
  | upTo {limit : Nat} (next : Bytes → Decoder α)
    (h : ∀ bytes, bytes.length ≠ limit → next bytes = .fail .unexpectedEof) :
    Demands (.upTo limit next) limit fun block => next block.1

/-- The decoder reports the end of the input only where a demand for bytes is not met. -/
inductive LeavesEnd : Decoder α → Prop where
  | done (value : α) : LeavesEnd (.done value)
  | fail {e : WireError} (h : e ≠ .unexpectedEof) : LeavesEnd (.fail e)
  | demand {d : Decoder α} {count : Nat} {next : Block count → Decoder α}
    (hd : d.Demands count next) (h : ∀ block, LeavesEnd (next block)) : LeavesEnd d
  | position {next : Nat → Decoder α} (h : ∀ offset, LeavesEnd (next offset)) :
    LeavesEnd (.position next)

/-! ## The bytes asked for -/

@[simp] theorem needed_take_append {count : Nat} (next : Block count → Decoder α)
    (block : Block count) (rest : Bytes) (offset : Nat) :
    (Decoder.take count next).needed ⟨block.1 ++ rest, offset⟩ =
      count + (next block).needed ⟨rest, offset + count⟩ := by
  simp [needed]

theorem needed_take_short {count : Nat} (next : Block count → Decoder α) {bytes : Bytes}
    (h : bytes.length < count) (offset : Nat) :
    (Decoder.take count next).needed ⟨bytes, offset⟩ = count := by
  simp [needed, Cursor.take_eq_error h]

theorem le_needed_take {count : Nat} (next : Block count → Decoder α) (input : Cursor) :
    count ≤ (Decoder.take count next).needed input := by
  rw [needed]
  split
  · exact Nat.le_add_right _ _
  · exact Nat.le_refl _

theorem Demands.run_eq {σ : Type} [ByteSource σ] [LawfulSource σ] {d : Decoder α} {count : Nat}
    {next : Block count → Decoder α} (hd : d.Demands count next) (source : σ) :
    d.run source = (Decoder.take count next).run source := by
  cases hd with
  | take => rfl
  | upTo _ h => exact run_upTo_eq_take h source

theorem Demands.needed_eq {d : Decoder α} {count : Nat} {next : Block count → Decoder α}
    (hd : d.Demands count next) (input : Cursor) :
    d.needed input = (Decoder.take count next).needed input := by
  cases hd with
  | take => rfl
  | upTo => rw [needed, needed]

theorem LeavesEnd.offset_eq_of_run_eq_ok {d : Decoder α} (hd : d.LeavesEnd) {input last : Cursor}
    {value : α} (h : d.run input = .ok (value, last)) :
    last.offset = input.offset + d.needed input := by
  induction hd generalizing input with
  | done _ => cases h; rfl
  | fail _ => cases h
  | @demand d count next hd _ ih =>
    rw [hd.run_eq] at h
    rw [hd.needed_eq]
    obtain ⟨bytes, offset⟩ := input
    rcases Cursor.starts_or_short count bytes with ⟨block, rest, rfl⟩ | hshort
    · rw [run_take_append] at h
      rw [needed_take_append, ih block h, Nat.add_assoc]
    · rw [run_take_eq_error next hshort] at h
      cases h
  | position next ih => exact ih _ h

/-- The end of the input is reported when more bytes are asked for than there are. -/
theorem LeavesEnd.run_ne_unexpectedEof_iff {d : Decoder α} (hd : d.LeavesEnd) (input : Cursor) :
    d.run input ≠ .error .unexpectedEof ↔ d.needed input ≤ input.rest.length := by
  induction hd generalizing input with
  | done value => simp [run, needed]
  | fail h => simpa [run, needed] using h
  | @demand d count next hd _ ih =>
    rw [hd.run_eq, hd.needed_eq]
    obtain ⟨bytes, offset⟩ := input
    rcases Cursor.starts_or_short count bytes with ⟨block, rest, rfl⟩ | hshort
    · rw [run_take_append, needed_take_append, ih, List.length_append, block.2,
        Nat.add_le_add_iff_left]
    · simp [run_take_eq_error next hshort, needed_take_short next hshort, hshort]
  | position _ ih => exact ih _ input

private theorem LeavesEnd.run_congr {d : Decoder α} (hd : d.LeavesEnd) {front a : Bytes}
    {offset : Nat} (b : Bytes) (h : d.needed ⟨front ++ a, offset⟩ ≤ front.length) :
    ((d.run (⟨front ++ b, offset⟩ : Cursor)).map fun (value, last) => (value, last.offset)) =
      (d.run (⟨front ++ a, offset⟩ : Cursor)).map fun (value, last) => (value, last.offset) := by
  induction hd generalizing front offset with
  | done _ => rfl
  | fail _ => rfl
  | @demand d count next hd _ ih =>
    rw [hd.needed_eq] at h
    rw [hd.run_eq, hd.run_eq]
    rcases Cursor.starts_or_short count front with ⟨block, rest, rfl⟩ | hshort
    · simp only [List.append_assoc, needed_take_append, List.length_append, block.2,
        Nat.add_le_add_iff_left] at h
      simpa using ih block h
    · have hcount := le_needed_take next ⟨front ++ a, offset⟩
      omega
  | position next ih => exact ih offset h

theorem LeavesEnd.decodeFront_congr {d : Decoder α} (hd : d.LeavesEnd) {front a : Bytes} (b : Bytes)
    (h : d.needed (Cursor.ofBuffer (front ++ a) 0) ≤ front.length) :
    d.decodeFront (front ++ b) = d.decodeFront (front ++ a) :=
  hd.run_congr b h

theorem LeavesEnd.needed_of_decodeFront {d : Decoder α} (hd : d.LeavesEnd) {bytes : Bytes}
    {value : α} {count : Nat} (h : d.decodeFront bytes = .ok (value, count)) :
    d.needed (Cursor.ofBuffer bytes 0) = count := by
  rw [decodeFront] at h
  cases hrun : d.run (Cursor.ofBuffer bytes 0) with
  | error e => rw [hrun] at h; cases h
  | ok read =>
    rw [hrun] at h
    cases h
    rw [hd.offset_eq_of_run_eq_ok hrun, Cursor.ofBuffer, Nat.zero_add]

theorem LeavesEnd.decodeFront_ne_unexpectedEof {d : Decoder α} (hd : d.LeavesEnd) {bytes : Bytes}
    (h : d.needed (Cursor.ofBuffer bytes 0) ≤ bytes.length) :
    d.decodeFront bytes ≠ .error .unexpectedEof := by
  have hrun := (hd.run_ne_unexpectedEof_iff (Cursor.ofBuffer bytes 0)).mpr h
  rw [decodeFront]
  cases hread : d.run (Cursor.ofBuffer bytes 0) with
  | error e => simpa [Except.map, hread] using hrun
  | ok read => simp [Except.map]

/-! ## The end of the input -/

theorem Demands.bind {d : Decoder α} {count : Nat} {next : Block count → Decoder α}
    (hd : d.Demands count next) (f : α → Decoder β) :
    (d >>= f).Demands count fun block => next block >>= f := by
  cases hd with
  | take => exact .take _
  | upTo next h =>
    refine .upTo (fun bytes => next bytes >>= f) fun bytes hshort => ?_
    rw [h bytes hshort]
    rfl

theorem Demands.counted {d : Decoder α} {count : Nat} {next : Block count → Decoder α}
    (hd : d.Demands count next) (offset : Nat) :
    (d.counted offset).Demands count fun block =>
      (next block).counted (offset + block.1.length) := by
  cases hd with
  | take => exact .take _
  | upTo next h =>
    refine .upTo (fun bytes => (next bytes).counted (offset + bytes.length)) fun bytes hshort => ?_
    rw [h bytes hshort]
    rfl

theorem LeavesEnd.bind {d : Decoder α} {f : α → Decoder β} (hd : d.LeavesEnd)
    (hf : ∀ value, (f value).LeavesEnd) : (d >>= f).LeavesEnd := by
  induction hd with
  | done value => exact hf value
  | fail h => exact .fail h
  | demand hd _ ih => exact .demand (hd.bind f) ih
  | position _ ih => exact .position ih

theorem LeavesEnd.counted {d : Decoder α} (hd : d.LeavesEnd) (offset : Nat) :
    (d.counted offset).LeavesEnd := by
  induction hd generalizing offset with
  | done value => exact .done value
  | fail h => exact .fail h
  | demand hd _ ih => exact .demand (hd.counted offset) fun block => ih block _
  | position _ ih => exact ih offset offset

theorem LeavesEnd.map {d : Decoder α} (f : α → β) (hd : d.LeavesEnd) : (f <$> d).LeavesEnd := by
  rw [map_eq_pure_bind]
  exact hd.bind fun value => .done (f value)

theorem LeavesEnd.replicate {d : Decoder α} (hd : d.LeavesEnd) (count : Nat) :
    (Decoder.replicate count d).LeavesEnd := by
  induction count with
  | zero => exact .done []
  | succ count ih =>
    rw [replicate_succ]
    exact hd.bind fun item => ih.map (item :: ·)

theorem block_leavesEnd (size : Nat) : (block size).LeavesEnd :=
  .demand (.take _) .done

theorem number_leavesEnd (width : Nat) : (number width).LeavesEnd :=
  .demand (.take _) fun _ => .done _

theorem limited_leavesEnd (size : Nat) : (limited size).LeavesEnd := by
  refine .demand (.upTo _ fun bytes h => if_neg h) fun block => ?_
  rw [if_pos block.2]
  exact .done block.1

theorem byte_leavesEnd : byte.LeavesEnd :=
  (number_leavesEnd 1).map _

theorem word128_leavesEnd : word128.LeavesEnd :=
  (number_leavesEnd 16).map _

theorem length_leavesEnd : Decoder.length.LeavesEnd := by
  apply (number_leavesEnd 4).bind
  intro n
  split
  · exact .done n
  · exact .fail nofun

theorem sizedBytes_leavesEnd : sizedBytes.LeavesEnd :=
  length_leavesEnd.bind limited_leavesEnd

theorem stacksAddress_leavesEnd : stacksAddress.LeavesEnd :=
  byte_leavesEnd.bind fun _ => (block_leavesEnd 20).map _

theorem name_leavesEnd (kind : NameKind) : (name kind).LeavesEnd := by
  apply (number_leavesEnd 1).bind
  intro n
  split
  · apply (block_leavesEnd n).bind
    intro block
    split
    · next text htext =>
      cases Name.ofString kind (String.ofList text) with
      | error e => exact .fail nofun
      | ok name => exact .done name
    · exact .fail nofun
  · exact .fail nofun

theorem field_leavesEnd {child : Decoder ClarityValue} (h : child.LeavesEnd) :
    (field child).LeavesEnd :=
  (name_leavesEnd .clarity).bind fun _ => h.map _

theorem content_leavesEnd {child : Decoder ClarityValue} (h : child.LeavesEnd) (tag : TypeTag) :
    (content child tag).LeavesEnd := by
  cases tag with
  | int => exact word128_leavesEnd.map _
  | uint => exact word128_leavesEnd.map _
  | buffer => exact sizedBytes_leavesEnd.map _
  | boolTrue => exact .done _
  | boolFalse => exact .done _
  | principal => exact stacksAddress_leavesEnd.map _
  | contract =>
    exact stacksAddress_leavesEnd.bind fun _ => (name_leavesEnd .clarity).bind fun _ => .done _
  | responseOk => exact h.map _
  | responseErr => exact h.map _
  | optionalNone => exact .done _
  | optionalSome => exact h.map _
  | list => exact length_leavesEnd.bind fun count => (h.replicate count).map _
  | tuple =>
    apply length_leavesEnd.bind
    intro count
    apply ((field_leavesEnd h).replicate count).bind
    intro entries
    split
    · exact .done _
    · exact .fail nofun
  | ascii => exact sizedBytes_leavesEnd.map _
  | utf8 =>
    apply sizedBytes_leavesEnd.bind
    intro bytes
    split
    · exact .done _
    · exact .fail nofun

theorem node_leavesEnd (capture : Bool) {child : Decoder ClarityValue} (h : child.LeavesEnd) :
    (node capture child).LeavesEnd := by
  apply LeavesEnd.position
  intro start
  apply byte_leavesEnd.bind
  intro byte
  split
  · exact .fail nofun
  · next tag htag =>
    apply (content_leavesEnd h tag).bind
    intro value
    exact .position fun stop => .done _

theorem nested_leavesEnd (capture : Bool) (levels : Nat) : (nested capture levels).LeavesEnd := by
  induction levels with
  | zero => exact node_leavesEnd capture (.fail nofun)
  | succ levels ih => exact node_leavesEnd capture ih

end Decoder

theorem ClarityValue.plainDecoder_leavesEnd : plainDecoder.LeavesEnd :=
  (Decoder.nested_leavesEnd false maxValueDepth).counted 0

theorem WireType.decoder_leavesEnd (type : WireType) : type.decoder.LeavesEnd := by
  cases type with
  | byte => exact Decoder.byte_leavesEnd
  | word32 => exact (Decoder.number_leavesEnd 4).map _
  | uint128 => exact Decoder.word128_leavesEnd
  | int128 => exact Decoder.word128_leavesEnd
  | hash160 => exact Decoder.block_leavesEnd 20
  | stacksAddress => exact Decoder.stacksAddress_leavesEnd
  | clarityName => exact Decoder.name_leavesEnd .clarity
  | contractName => exact Decoder.name_leavesEnd .contract
  | value => exact ClarityValue.plainDecoder_leavesEnd.map _
  | clarityValue => exact ClarityValue.plainDecoder_leavesEnd

end ClarityWire
