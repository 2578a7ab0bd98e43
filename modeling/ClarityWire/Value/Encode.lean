import ClarityWire.Value.Basic
import ClarityWire.Wire.Fixed

/-!
# Values to bytes

A value is written as the byte of its type, then its content: integers in sixteen bytes, byte
strings, lists and tuples behind their length, the bodies of optionals and responses as they are.
No limit is enforced on writing.
-/

namespace ClarityWire

/-- Writes the groups of a string one after another, added to the bytes counted so far. -/
def Encoder.groups (count : Nat) : List Bytes → Encoder Nat
  | [] => return count
  | group :: rest => do
    let n ← writeCounted group
    groups (count + n) rest

namespace Value

mutual

/-- Writes a value and counts its bytes. -/
def encoder : Value → Encoder Nat
  | .int bits => do
    let tag ← Encoder.byte TypeTag.int.toByte
    let body ← Encoder.word128 bits
    return tag + body
  | .uint bits => do
    let tag ← Encoder.byte TypeTag.uint.toByte
    let body ← Encoder.word128 bits
    return tag + body
  | .buffer bytes => do
    let tag ← Encoder.byte TypeTag.buffer.toByte
    let body ← Encoder.sizedBytes bytes
    return tag + body
  | .bool true => Encoder.byte TypeTag.boolTrue.toByte
  | .bool false => Encoder.byte TypeTag.boolFalse.toByte
  | .principal address => do
    let tag ← Encoder.byte TypeTag.principal.toByte
    let body ← Encoder.stacksAddress address
    return tag + body
  | .contract id => do
    let tag ← Encoder.byte TypeTag.contract.toByte
    let issuer ← Encoder.stacksAddress id.issuer
    let name ← Encoder.name id.name
    return tag + (issuer + name)
  | .responseOk ⟨body, _⟩ => do
    let tag ← Encoder.byte TypeTag.responseOk.toByte
    let body ← encoder body
    return tag + body
  | .responseErr ⟨body, _⟩ => do
    let tag ← Encoder.byte TypeTag.responseErr.toByte
    let body ← encoder body
    return tag + body
  | .optionalNone => Encoder.byte TypeTag.optionalNone.toByte
  | .optionalSome ⟨body, _⟩ => do
    let tag ← Encoder.byte TypeTag.optionalSome.toByte
    let body ← encoder body
    return tag + body
  | .list items => do
    let tag ← Encoder.byte TypeTag.list.toByte
    let header ← Encoder.length items.length
    encodeItems (tag + header) items
  | .tuple fields => do
    let tag ← Encoder.byte TypeTag.tuple.toByte
    let header ← Encoder.length fields.length
    encodeFields (tag + header) fields
  | .ascii bytes => do
    let tag ← Encoder.byte TypeTag.ascii.toByte
    let body ← Encoder.sizedBytes bytes
    return tag + body
  | .utf8 groups => do
    let tag ← Encoder.byte TypeTag.utf8.toByte
    let header ← Encoder.length ((groups.map List.length).foldl (· + ·) 0)
    Encoder.groups (tag + header) groups

/-- Writes list items one after another, added to the bytes counted so far. -/
def encodeItems (count : Nat) : List (Spanned Value) → Encoder Nat
  | [] => return count
  | ⟨item, _⟩ :: rest => do
    let n ← encoder item
    encodeItems (count + n) rest

/-- Writes tuple fields one after another, added to the bytes counted so far. -/
def encodeFields (count : Nat) : List (ClarityName × Spanned Value) → Encoder Nat
  | [] => return count
  | (name, ⟨field, _⟩) :: rest => do
    let key ← Encoder.name name
    let n ← encoder field
    encodeFields (count + key + n) rest

end

/-- The bytes of a value. -/
def toBytes (value : Value) : Bytes :=
  value.encoder.toBytes

/-- The bytes of a value in hexadecimal. -/
def toHex (value : Value) : String :=
  Hex.encode value.toBytes

end Value

end ClarityWire
