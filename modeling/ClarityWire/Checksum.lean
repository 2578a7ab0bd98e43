import ClarityWire.Hash.Sha256
import ClarityWire.Hex

/-!
# Checksums

Four bytes that guard a payload. The text codecs take the function that computes them as a
parameter, since nothing they do depends on which one it is; addresses use the first four bytes of
the twofold SHA-256.
-/

namespace ClarityWire

/-- The four bytes of a checksum. -/
structure Checksum where
  byte0 : UInt8
  byte1 : UInt8
  byte2 : UInt8
  byte3 : UInt8
  deriving DecidableEq, Repr

namespace Checksum

/-- The number of bytes in a checksum. -/
def size : Nat := 4

/-- The first four bytes of a longer string; missing bytes count as zero. -/
def ofBytes (bytes : Bytes) : Checksum :=
  ⟨bytes.getD 0 0, bytes.getD 1 0, bytes.getD 2 0, bytes.getD 3 0⟩

def toBytes (sum : Checksum) : Bytes :=
  [sum.byte0, sum.byte1, sum.byte2, sum.byte3]

@[simp] theorem ofBytes_toBytes (sum : Checksum) : ofBytes sum.toBytes = sum := rfl

/-- The first four bytes of the twofold SHA-256 of the data. -/
def sha256d (data : Bytes) : Checksum :=
  ofBytes (Sha256.hashTwice data)

/-- Splits a byte string into a payload and the checksum at its end. -/
def split? (bytes : Bytes) : Option (Bytes × Checksum) :=
  if size ≤ bytes.length then
    some (bytes.take (bytes.length - size), ofBytes (bytes.drop (bytes.length - size)))
  else
    none

@[simp] theorem length_toBytes (sum : Checksum) : sum.toBytes.length = size := rfl

theorem toBytes_ofBytes {bytes : Bytes} (h : bytes.length = size) :
    (ofBytes bytes).toBytes = bytes := by
  match bytes, h with
  | [_, _, _, _], _ => rfl

/-- What is split is a payload with a checksum behind it. -/
theorem split?_eq_some_iff {bytes payload : Bytes} {sum : Checksum} :
    split? bytes = some (payload, sum) ↔ bytes = payload ++ sum.toBytes := by
  rw [split?]
  constructor
  · intro h
    split at h
    · next hsize =>
      have hlength : (bytes.drop (bytes.length - size)).length = size := by
        rw [List.length_drop]
        omega
      obtain ⟨rfl, rfl⟩ := Prod.mk.inj (Option.some.inj h)
      rw [toBytes_ofBytes hlength, List.take_append_drop]
    · cases h
  · rintro rfl
    have hlength : (payload ++ sum.toBytes).length - size = payload.length := by simp
    rw [hlength, if_pos (by simp), List.take_left, List.drop_left, ofBytes_toBytes]

/-- What is not split has fewer bytes than a checksum. -/
theorem split?_eq_none_iff {bytes : Bytes} : split? bytes = none ↔ bytes.length < size := by
  rw [split?]
  split
  · next h => exact iff_of_false nofun (Nat.not_lt.mpr h)
  · next h => exact iff_of_true rfl (Nat.not_le.mp h)

/-- The bytes in hexadecimal between brackets, separated by commas. -/
def render (sum : Checksum) : String :=
  "[" ++ String.intercalate ", " (sum.toBytes.map fun byte => Hex.encode [byte]) ++ "]"

end Checksum

end ClarityWire
