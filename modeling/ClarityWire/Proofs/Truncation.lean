import ClarityWire.Proofs.Demand

/-!
# Cutting bytes off and adding some

The answer of a decoder is settled by the bytes that it asks for. With one of them missing it can
only report the end of the input, and bytes behind them change nothing.
-/

namespace ClarityWire

namespace Decoder

variable {α : Type} {d : Decoder α}

/-- Whether an input starts with all bytes asked for can be told from its start. -/
theorem LeavesEnd.needed_le_length_iff (hd : d.LeavesEnd) (front rest : Bytes) (offset : Nat) :
    d.needed ⟨front ++ rest, offset⟩ ≤ front.length ↔ d.needed ⟨front, offset⟩ ≤ front.length := by
  induction hd generalizing front offset with
  | done _ => simp [needed]
  | fail _ => simp [needed]
  | @demand d count next hd _ ih =>
    rw [hd.needed_eq, hd.needed_eq]
    rcases Cursor.starts_or_short count front with ⟨block, middle, rfl⟩ | hshort
    · simpa [block.2] using ih block middle (offset + count)
    · have hwhole := le_needed_take next ⟨front ++ rest, offset⟩
      have hfront := le_needed_take next ⟨front, offset⟩
      omega
  | position _ ih => exact ih offset front offset

/-- The start of an input is answered as all of it, or by the end of the input if a byte asked for
is not there. -/
theorem LeavesEnd.decodeFront_front (hd : d.LeavesEnd) (front rest : Bytes) :
    d.decodeFront front =
      if d.needed (Cursor.ofBuffer (front ++ rest) 0) ≤ front.length then
        d.decodeFront (front ++ rest)
      else .error .unexpectedEof := by
  split
  · next h =>
    have hcongr := hd.decodeFront_congr [] h
    rwa [List.append_nil] at hcongr
  · next h =>
    have hfront : ¬ d.needed (Cursor.ofBuffer front 0) ≤ (Cursor.ofBuffer front 0).rest.length :=
      fun hle => h ((hd.needed_le_length_iff front rest 0).mpr hle)
    have hrun : d.run (Cursor.ofBuffer front 0) = .error .unexpectedEof := by
      by_contra hne
      exact hfront ((hd.run_ne_unexpectedEof_iff _).mp hne)
    rw [decodeFront, hrun]
    rfl

theorem LeavesEnd.decodeFront_append (hd : d.LeavesEnd) {front : Bytes}
    (h : d.decodeFront front ≠ .error .unexpectedEof) (rest : Bytes) :
    d.decodeFront (front ++ rest) = d.decodeFront front := by
  rw [hd.decodeFront_front front rest] at h ⊢
  split
  · rfl
  · next hneeded =>
    rw [if_neg hneeded] at h
    exact absurd rfl h

theorem LeavesEnd.decodeFront_take_eq_error (hd : d.LeavesEnd) {bytes : Bytes} {value : α}
    {count size : Nat} (h : d.decodeFront bytes = .ok (value, count)) (hsize : size < count) :
    d.decodeFront (bytes.take size) = .error .unexpectedEof := by
  have hlength : (bytes.take size).length ≤ size := List.length_take_le ..
  rw [hd.decodeFront_front (bytes.take size) (bytes.drop size), List.take_append_drop,
    hd.needed_of_decodeFront h, if_neg (by omega)]

end Decoder

namespace WireType

/-- **What is answered once is answered for good.** An item and every failure but the end of the
input are answered the same with any bytes behind them, and an item of which bytes are cut off is
always answered by the end of the input. -/
theorem decodeFront_settled (type : WireType) (bytes : Bytes) :
    (∀ item count, type.decoder.decodeFront bytes = .ok (item, count) →
        (∀ more, type.decoder.decodeFront (bytes ++ more) = .ok (item, count)) ∧
          ∀ size < count, type.decoder.decodeFront (bytes.take size) = .error .unexpectedEof) ∧
      ∀ e, type.decoder.decodeFront bytes = .error e → e ≠ .unexpectedEof →
        ∀ more, type.decoder.decodeFront (bytes ++ more) = .error e := by
  have hd := type.decoder_leavesEnd
  refine ⟨fun item count h => ⟨fun more => ?_, fun size hsize => ?_⟩, fun e h he more => ?_⟩
  · rw [hd.decodeFront_append (by simp [h]), h]
  · exact hd.decodeFront_take_eq_error h hsize
  · rw [hd.decodeFront_append (by simp [h, he]), h]

/-- A list of a truth value and of nothing, with one byte behind it. -/
def listAndMore : Bytes := [0x0b, 0, 0, 0, 2, 0x03, 0x09, 0xff]

/-- A tuple with two fields of one name. -/
def repeatedField : Bytes := [0x0c, 0, 0, 0, 2, 1, 0x61, 0x03, 1, 0x61, 0x04]

theorem decodeFront_settled_list :
    (∀ more, value.decoder.decodeFront (listAndMore ++ more) =
        .ok (Value.ofItems [.bool true, .optionalNone], 7)) ∧
      (∀ size < 7, value.decoder.decodeFront (listAndMore.take size) = .error .unexpectedEof) ∧
        ∀ more, value.decoder.decodeFront (repeatedField ++ more) =
          .error (.duplicateKey ⟨"a", by decide⟩) := by
  obtain ⟨hmore, hcut⟩ := (decodeFront_settled .value listAndMore).1
    (Value.ofItems [.bool true, .optionalNone]) 7 (by rfl)
  refine ⟨hmore, hcut, ?_⟩
  exact (decodeFront_settled .value repeatedField).2 _ (by rfl) nofun

end WireType

end ClarityWire
