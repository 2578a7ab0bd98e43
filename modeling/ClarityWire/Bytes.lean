/-!
# Byte strings

Everything on the wire is a list of bytes. Numbers are written most significant byte first, at a
fixed width, and byte strings are ordered lexicographically.
-/

namespace ClarityWire

/-- A byte string. -/
abbrev Bytes := List UInt8

namespace Bytes

/-- The number a byte string denotes, most significant byte first. -/
def toNat (bytes : Bytes) : Nat :=
  bytes.foldl (fun n byte => n * 256 + byte.toNat) 0

/-- The lowest `width` bytes of a number, most significant first. -/
def ofNat : (width : Nat) → (n : Nat) → Bytes
  | 0, _ => []
  | width + 1, n => UInt8.ofNat (n >>> (8 * width)) :: ofNat width n

@[simp] theorem length_ofNat (width n : Nat) : (ofNat width n).length = width := by
  induction width with
  | zero => rfl
  | succ width ih => simp [ofNat, ih]

/-- Lexicographic order: the first differing byte decides, and a proper beginning comes first. -/
def compare : Bytes → Bytes → Ordering :=
  List.compareLex Ord.compare

/-- How many zero bytes stand in front. -/
def leadingZeros (bytes : Bytes) : Nat :=
  (bytes.takeWhile (· == 0)).length

/-- The bytes of `start ≤ i < stop`, or nothing when that is no range inside the string. -/
def slice? (bytes : Bytes) (start stop : Nat) : Option Bytes :=
  if start ≤ stop ∧ stop ≤ bytes.length then
    some ((bytes.drop start).take (stop - start))
  else
    none

end Bytes

/-- A byte string of a known length. -/
abbrev Block (size : Nat) := { bytes : Bytes // bytes.length = size }

/-- The twenty bytes that an account's key or script hashes to. -/
abbrev Hash160 := Block 20

end ClarityWire
