import ClarityWire.Proofs.Items

/-!
# Writers that fill up

An item is put together from many writes, and any of them may be the one for which there is no more
room. All the same a writer is left with the front of the item, as long as the room was, and the
count of an item that fits is the number of its bytes.
-/

namespace ClarityWire

namespace Encoder

variable (bytes : Bytes) (written : Array UInt8) {room : Nat}

/-! ## Writing at once -/

theorem run_writeCounted_unlimited : (writeCounted bytes).run ⟨written, none⟩ =
    .ok bytes.length ⟨written ++ bytes, none⟩ := rfl

theorem run_writeCounted_of_fits (h : bytes.length ≤ room) :
    (writeCounted bytes).run ⟨written, some room⟩ =
      .ok bytes.length ⟨written ++ bytes, some (room - bytes.length)⟩ := by
  have hwrite : write bytes ⟨written, some room⟩ =
      .ok () ⟨written ++ bytes, some (room - bytes.length)⟩ := by
    simp [write, List.take_of_length_le h]
  change EStateM.bind (write bytes) (fun _ => pure bytes.length) _ = _
  rw [EStateM.bind, hwrite]
  rfl

theorem run_writeCounted_of_short (h : room < bytes.length) :
    (writeCounted bytes).run ⟨written, some room⟩ =
      .error (.io Writer.fullError) ⟨written ++ bytes.take room, some 0⟩ := by
  have hlength : (bytes.take room).length = room := List.length_take_of_le h.le
  have hwrite : write bytes ⟨written, some room⟩ =
      .error (.io Writer.fullError) ⟨written ++ bytes.take room, some 0⟩ := by
    simp only [write, hlength, if_neg h.ne, Nat.sub_self]
  change EStateM.bind (write bytes) (fun _ => pure bytes.length) _ = _
  rw [EStateM.bind, hwrite]

end Encoder

namespace WireType

/-- **The count of an item is the number of its bytes, and a full writer holds their front.** An
item of any type that is written behind whatever else is appended whole and counted if there is room
for it, and otherwise fills the room with its first bytes and fails. -/
theorem encoder_keepsFront (type : WireType) (item : type.Item) (written : Array UInt8) :
    (type.encoder item).run ⟨written, none⟩ =
        .ok (type.toBytes item).length ⟨written ++ type.toBytes item, none⟩ ∧
      ∀ room, (type.encoder item).run ⟨written, some room⟩ =
        if (type.toBytes item).length ≤ room then
          .ok (type.toBytes item).length
            ⟨written ++ type.toBytes item, some (room - (type.toBytes item).length)⟩
        else
          .error (.io Writer.fullError) ⟨written ++ (type.toBytes item).take room, some 0⟩ := by
  rw [encoder_eq]
  refine ⟨Encoder.run_writeCounted_unlimited _ written, ?_⟩
  intro room
  by_cases h : (type.toBytes item).length ≤ room
  · rw [if_pos h]
    exact Encoder.run_writeCounted_of_fits _ written h
  · rw [if_neg h]
    exact Encoder.run_writeCounted_of_short _ written (Nat.lt_of_not_le h)

end WireType

end ClarityWire
