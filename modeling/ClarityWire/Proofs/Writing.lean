import ClarityWire.Wire.Fixed

/-!
# Writing one item after another

Writing two byte strings one after another is writing them as one, also when the room runs out in
either. So an encoder that is put together from writes behaves as a single counted write, whatever
the writer, and what it writes is told by a byte string.
-/

namespace ClarityWire

/-- The bytes of a name behind its length. -/
def Name.wireBytes {kind : NameKind} (name : Name kind) : Bytes :=
  UInt8.ofNat name.bytes.length :: name.bytes

/-- The bytes of an address. -/
def StacksAddress.wireBytes (address : StacksAddress) : Bytes :=
  address.version :: address.hash.1

/-- A byte string behind its length in four bytes. -/
def Bytes.sized (bytes : Bytes) : Bytes :=
  Bytes.ofNat 4 bytes.length ++ bytes

namespace Encoder

private theorem buffer_append (buffer : Array UInt8) (a b : Bytes) :
    buffer ++ (a ++ b) = buffer ++ a ++ b := by
  apply Array.toList_inj.mp
  rw [Array.toList_appendList, Array.toList_appendList, Array.toList_appendList, List.append_assoc]

theorem write_append (a b : Bytes) : write (a ++ b) = (do write a; write b) := by
  funext ⟨buffer, room⟩
  change write (a ++ b) ⟨buffer, room⟩ = EStateM.bind (write a) (fun _ => write b) ⟨buffer, room⟩
  cases room with
  | none => simp only [write, EStateM.bind, buffer_append]
  | some room =>
    by_cases ha : a.length ≤ room
    · -- the first part fits, and the second finds the room that it leaves
      have htake : (a ++ b).take room = a ++ b.take (room - a.length) := by
        rw [List.take_append, List.take_of_length_le ha]
      have hfront : a.take room = a := List.take_of_length_le ha
      have hroom : room - (a.length + (b.take (room - a.length)).length) =
          room - a.length - (b.take (room - a.length)).length := by omega
      simp only [write, EStateM.bind, htake, hfront, if_true, List.length_append,
        Nat.add_left_cancel_iff, buffer_append, hroom]
    · -- the first part fills the writer, and the second is never reached
      have htake : (a ++ b).take room = a.take room := List.take_append_of_le_length (by omega)
      have hlen : (a.take room).length = room := List.length_take_of_le (by omega)
      have hshort : ¬ room = a.length := by omega
      have hshort' : ¬ room = a.length + b.length := by omega
      simp only [write, EStateM.bind, htake, hlen, hshort, hshort', if_false, List.length_append]

theorem writeCounted_eq (bytes : Bytes) :
    writeCounted bytes = (fun _ => bytes.length) <$> write bytes := by
  rw [map_eq_pure_bind]
  rfl

/-! The width that an encoder returns without counting is the length of what it writes. -/

theorem number_eq (width n : Nat) : number width n = writeCounted (Bytes.ofNat width n) := by
  rw [number, writeCounted, Bytes.length_ofNat]

theorem block_eq {size : Nat} (block : Block size) :
    Encoder.block block = writeCounted block.1 := by
  rw [Encoder.block, writeCounted, block.2]

theorem byte_eq (value : UInt8) : byte value = writeCounted [value] := by
  have hvalue : Bytes.ofNat 1 value.toNat = [value] := by
    simp [Bytes.ofNat]
  rw [byte, number_eq, hvalue]

/-- A counted write, added to the bytes counted so far. -/
def countFrom (count : Nat) (bytes : Bytes) : Encoder Nat :=
  (count + ·) <$> writeCounted bytes

theorem countFrom_zero (bytes : Bytes) : countFrom 0 bytes = writeCounted bytes := by
  simp [countFrom]

private theorem write_nil : write [] = pure () := by
  funext ⟨buffer, room⟩
  have hbuffer : buffer ++ ([] : Bytes) = buffer := by
    apply Array.toList_inj.mp
    rw [Array.toList_appendList, List.append_nil]
  change write [] ⟨buffer, room⟩ = EStateM.Result.ok () ⟨buffer, room⟩
  cases room <;> simp [write, hbuffer]

theorem countFrom_nil (count : Nat) : countFrom count [] = pure count := by
  rw [countFrom, writeCounted_eq, write_nil]
  rfl

theorem writeCounted_bind_countFrom (count : Nat) (a b : Bytes) :
    (do let n ← writeCounted a; countFrom (count + n) b) = countFrom count (a ++ b) := by
  simp only [countFrom, writeCounted_eq, write_append, List.length_append, bind_map_left, map_bind,
    Functor.map_map, Nat.add_assoc]

/-- Two writes in a row whose counts are added up are one write. -/
theorem writeCounted_append (a b : Bytes) :
    (do let m ← writeCounted a; let n ← writeCounted b; return m + n) = writeCounted (a ++ b) := by
  have h := writeCounted_bind_countFrom 0 a b
  rw [countFrom_zero] at h
  simpa only [countFrom, Nat.zero_add, map_eq_pure_bind] using h

theorem toBytes_writeCounted (bytes : Bytes) : (writeCounted bytes).toBytes = bytes := by
  change (#[] ++ bytes : Array UInt8).toList = bytes
  rw [Array.toList_appendList]
  rfl

/-! ## Items of a fixed layout -/

theorem length_eq (n : Nat) : length n = writeCounted (Bytes.ofNat 4 n) :=
  number_eq 4 n

theorem word32_eq (value : UInt32) : word32 value = writeCounted (Bytes.ofNat 4 value.toNat) :=
  number_eq 4 value.toNat

theorem word128_eq (bits : BitVec 128) : word128 bits = writeCounted (Bytes.ofNat 16 bits.toNat) :=
  number_eq 16 bits.toNat

theorem sizedBytes_eq (bytes : Bytes) : sizedBytes bytes = writeCounted bytes.sized := by
  rw [sizedBytes, length_eq, writeCounted_append, Bytes.sized]

theorem stacksAddress_eq (address : StacksAddress) :
    stacksAddress address = writeCounted address.wireBytes := by
  rw [stacksAddress, byte_eq, block_eq, writeCounted_append]
  rfl

theorem name_eq {kind : NameKind} (name : Name kind) :
    Encoder.name name = writeCounted name.wireBytes := by
  rw [Encoder.name, number_eq, writeCounted_append]
  rfl

end Encoder

end ClarityWire
