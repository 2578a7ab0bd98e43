import ClarityWire.Proofs.Items

/-!
# Records

A record is a sequence of items of any types, written one after another to one writer and read one
after another through one cursor. A value in a record may be read with ranges recorded, and these
are positions in the whole buffer, whatever stands in front of the record.
-/

namespace ClarityWire

/-- How an item of a record is read: plainly, or as a value with ranges recorded on demand. -/
inductive Slot where
  | plain (type : WireType)
  | embedded (capture : Bool)

namespace Slot

def type : Slot → WireType
  | plain type => type
  | embedded _ => .clarityValue

def decoder : (slot : Slot) → Decoder slot.type.Item
  | plain type => type.decoder
  | embedded capture => ClarityValue.decoder capture

/-- Whether an item that was read between two positions of a buffer tells so. The range of a
captured value is the one between the positions, and every range in it selects what is written of
the part it belongs to. -/
def RangesMatch (buffer : Bytes) (start stop : Nat) : (slot : Slot) → slot.type.Item → Prop
  | plain _, _ => True
  | embedded capture, node =>
    Spanned.span node = spanAt capture start stop ∧
      (capture = true → ∀ part ∈ ClarityValue.parts node,
        part.2.bytes? buffer = some part.2.value.toBytes)

end Slot

/-- An item together with how it is read. -/
structure Entry where
  slot : Slot
  item : slot.type.Item

namespace Entry

/-- What is written of an item. -/
def bytes (entry : Entry) : Bytes :=
  entry.slot.type.toBytes entry.item

/-- Writes items one after another and keeps the counts that come back. -/
def writeAll : List Entry → Encoder (List Nat)
  | [] => return []
  | ⟨slot, item⟩ :: rest => do
    let count ← slot.type.encoder item
    let counts ← writeAll rest
    return count :: counts

/-- Reads items one after another through one cursor and keeps where each read left it. -/
def readAll : List Slot → Cursor → Except WireError (List (Entry × Cursor))
  | [], _ => return []
  | slot :: rest, cursor => do
    let (item, next) ← slot.decoder.run cursor
    let entries ← readAll rest next
    return (⟨slot, item⟩, next) :: entries

/-- Whether the second item is what was read, between two positions of a buffer, of the first. -/
inductive Delivered (buffer : Bytes) (start stop : Nat) : Entry → Entry → Prop
  | item {slot : Slot} {written read : slot.type.Item} (same : slot.type.Same read written)
      (ranges : slot.RangesMatch buffer start stop read) :
      Delivered buffer start stop ⟨slot, written⟩ ⟨slot, read⟩

/-- Whether reading delivers the written items in order, each where the one before it ends, and
advances over each by the count that writing it gave. -/
inductive InStep (buffer : Bytes) : Nat → List Entry → List Nat → List (Entry × Cursor) → Prop
  | done (position : Nat) : InStep buffer position [] [] []
  | step {position count : Nat} {written read : Entry} {entries : List Entry} {counts : List Nat}
      {reads : List (Entry × Cursor)}
      (delivered : Delivered buffer position (position + count) written read)
      (rest : InStep buffer (position + count) entries counts reads) :
      InStep buffer position (written :: entries) (count :: counts)
        ((read, Cursor.ofBuffer buffer (position + count)) :: reads)

theorem exists_delivered (entry : Entry) (h : entry.slot.type.RoundTrips entry.item)
    (before after : Bytes) :
    ∃ read, entry.slot.decoder.Answers before.length entry.bytes (.ok read) ∧
      Delivered (before ++ entry.bytes ++ after) before.length (before.length + entry.bytes.length)
        entry ⟨entry.slot, read⟩ := by
  obtain ⟨slot, item⟩ := entry
  cases slot with
  | plain type =>
    obtain ⟨read, hread, hsame⟩ := WireType.decoder_answers h before.length
    exact ⟨read, hread, .item hsame trivial⟩
  | embedded capture =>
    have hvalue : (Spanned.value item).RoundTrips := h
    have htree := Value.toBytes_eq (Spanned.value item)
    have hread := ClarityValue.decoder_answers hvalue capture before.length
    refine ⟨_, hread, .item (hvalue.same_located capture before.length) ⟨?_, ?_⟩⟩
    · rw [WireTree.span_located, ← htree]
      rfl
    · rintro rfl
      have hparts := WireTree.bytes?_of_mem_parts hvalue.failure?_tree
        (Value.ascending_tree hvalue.ordered) before after
      rw [← htree] at hparts
      exact hparts

theorem run_writeAll_cons {entry : Entry} {rest : List Entry} {before after : Bytes}
    {counts : List Nat} (h : (writeAll rest).run ⟨(before ++ entry.bytes).toArray, none⟩ =
      .ok counts ⟨after.toArray, none⟩) :
    (writeAll (entry :: rest)).run ⟨before.toArray, none⟩ =
      .ok (entry.bytes.length :: counts) ⟨after.toArray, none⟩ := by
  have hbuffer : before.toArray ++ entry.bytes = (before ++ entry.bytes).toArray := by simp
  rw [← hbuffer] at h
  rw [writeAll, WireType.encoder_eq]
  change writeAll rest ⟨before.toArray ++ entry.bytes, none⟩ = _ at h
  change EStateM.bind (writeAll rest) _ ⟨before.toArray ++ entry.bytes, none⟩ = _
  rw [EStateM.bind, h]
  rfl

theorem readAll_cons {slot : Slot} {rest : List Slot} {read : slot.type.Item} {front : Bytes}
    {buffer : Bytes} {position : Nat} {reads : List (Entry × Cursor)}
    (hread : slot.decoder.Answers position front (.ok read))
    (hfront : ∃ after, buffer.drop position = front ++ after)
    (h : readAll rest (Cursor.ofBuffer buffer (position + front.length)) = .ok reads) :
    readAll (slot :: rest) (Cursor.ofBuffer buffer position) =
      .ok ((⟨slot, read⟩, Cursor.ofBuffer buffer (position + front.length)) :: reads) := by
  obtain ⟨after, hdrop⟩ := hfront
  have hnext : Cursor.ofBuffer buffer (position + front.length) =
      ⟨after, position + front.length⟩ := by
    rw [Cursor.ofBuffer, ← List.drop_drop, hdrop, List.drop_left]
  rw [hnext] at h ⊢
  rw [Cursor.ofBuffer, hdrop, readAll, hread after]
  change (readAll rest ⟨after, position + front.length⟩ >>= _) = _
  rw [h]
  rfl

/-- A record that was written is read back item by item, whatever stands before it and after it. -/
theorem readAll_writeAll (record : List Entry)
    (h : ∀ entry ∈ record, entry.slot.type.RoundTrips entry.item) (before after : Bytes) :
    ∃ counts reads,
      (writeAll record).run ⟨before.toArray, none⟩ =
          .ok counts ⟨(before ++ record.flatMap bytes).toArray, none⟩ ∧
        readAll (record.map slot)
            (Cursor.ofBuffer (before ++ record.flatMap bytes ++ after) before.length) = .ok reads ∧
          InStep (before ++ record.flatMap bytes ++ after) before.length record counts reads := by
  induction record generalizing before with
  | nil =>
    refine ⟨[], [], ?_, rfl, .done _⟩
    rw [List.flatMap_nil, List.append_nil]
    rfl
  | cons entry rest ih =>
    obtain ⟨hentry, hrest⟩ := List.forall_mem_cons.mp h
    obtain ⟨read, hread, hdelivered⟩ :=
      exists_delivered entry hentry before (rest.flatMap bytes ++ after)
    obtain ⟨counts, reads, hwrites, hreads, hsteps⟩ := ih hrest (before ++ entry.bytes)
    simp only [List.flatMap_cons, List.append_assoc, List.length_append]
      at hwrites hreads hdelivered hsteps ⊢
    refine ⟨entry.bytes.length :: counts, _, run_writeAll_cons hwrites, ?_, .step hdelivered hsteps⟩
    exact readAll_cons hread ⟨_, List.drop_left⟩ hreads

/-- A call of a contract with two arguments, the first a tuple with a field of two scalars. -/
def contractCall : List Entry :=
  [⟨.plain .stacksAddress, (⟨0xff, ⟨List.replicate 20 0x11, rfl⟩⟩ : StacksAddress)⟩,
    ⟨.plain .contractName, (⟨"pox-4", by decide⟩ : ContractName)⟩,
    ⟨.plain .clarityName, (⟨"stack-stx", by decide⟩ : ClarityName)⟩,
    ⟨.plain .word32, (2 : UInt32)⟩,
    ⟨.embedded true, Spanned.bare (.tuple
      [(⟨"memo", by decide⟩, .bare (.utf8 [[0xe2, 0x9c, 0x93], [0x21]])),
        (⟨"tries", by decide⟩, .bare (.list [.bare (.uint 1), .bare .optionalNone]))])⟩,
    ⟨.plain .value, Value.bool true⟩]

theorem readAll_writeAll_contractCall :
    ∃ counts reads,
      (writeAll contractCall).run ⟨#[0xaa], none⟩ =
          .ok counts ⟨([0xaa] ++ contractCall.flatMap bytes).toArray, none⟩ ∧
        readAll (contractCall.map slot)
            (Cursor.ofBuffer ([0xaa] ++ contractCall.flatMap bytes ++ [0xbb]) 1) = .ok reads ∧
          InStep ([0xaa] ++ contractCall.flatMap bytes ++ [0xbb]) 1 contractCall counts reads := by
  apply readAll_writeAll contractCall _ [0xaa] [0xbb]
  simp only [contractCall, List.forall_mem_cons]
  refine ⟨trivial, trivial, trivial, trivial, ⟨by decide, by decide, ?_⟩,
    ⟨by decide, by decide, ?_⟩, List.forall_mem_nil _⟩
  all_goals exact (Value.resplit_beq_iff _).mp (by decide)

end Entry

end ClarityWire
