import ClarityWire.Value.Basic
import ClarityWire.Wire.Cursor
import ClarityWire.Wire.Fixed

/-!
# Bytes to values

The byte of a type says what follows. The parts of optionals, responses, lists and tuples are
values one level deeper, and below the deepest level allowed the attempt to read one fails before
any of its bytes are read. Tuple fields come in any order and are sorted once all are read; only
then a repeated name is noticed.
-/

namespace ClarityWire

/-- Reads one named field of a tuple. -/
def Decoder.field (child : Decoder ClarityValue) : Decoder (ClarityName × ClarityValue) := do
  let name ← Decoder.name .clarity
  let value ← child
  return (name, value)

/-- Reads the content of a value of a known type, given how to read the values inside it. -/
def Decoder.content (child : Decoder ClarityValue) : TypeTag → Decoder Value
  | .int => Value.int <$> Decoder.word128
  | .uint => Value.uint <$> Decoder.word128
  | .buffer => Value.buffer <$> Decoder.sizedBytes
  | .boolTrue => .done (.bool true)
  | .boolFalse => .done (.bool false)
  | .principal => Value.principal <$> Decoder.stacksAddress
  | .contract => do
    let issuer ← Decoder.stacksAddress
    let name ← Decoder.name .clarity
    return .contract ⟨issuer, name⟩
  | .responseOk => Value.responseOk <$> child
  | .responseErr => Value.responseErr <$> child
  | .optionalNone => .done .optionalNone
  | .optionalSome => Value.optionalSome <$> child
  | .list => do
    let count ← Decoder.length
    let items ← Decoder.replicate count child
    return .list items
  | .tuple => do
    let count ← Decoder.length
    let entries ← Decoder.replicate count (Decoder.field child)
    match Fields.ofList entries with
    | .ok fields => return .tuple fields
    | .error name => .fail (.duplicateKey name)
  | .ascii => Value.ascii <$> Decoder.sizedBytes
  | .utf8 => do
    let bytes ← Decoder.sizedBytes
    match Value.ofUtf8? bytes with
    | some value => return value
    | none => .fail .invalidUtf8

/-- Reads a value, given how to read the values inside it, and records its range if asked to. -/
def Decoder.node (capture : Bool) (child : Decoder ClarityValue) : Decoder ClarityValue := do
  let start ← Decoder.position .done
  let byte ← Decoder.byte
  match TypeTag.ofByte? byte with
  | none => .fail (.badTypeTag byte)
  | some tag =>
    let value ← Decoder.content child tag
    let stop ← Decoder.position .done
    return ⟨value, if capture then some ⟨start, stop⟩ else none⟩

/-- Reads a value that may hold values nested `levels` deep. -/
def Decoder.nested (capture : Bool) : (levels : Nat) → Decoder ClarityValue
  | 0 => Decoder.node capture (.fail (.depthExceeded maxValueDepth))
  | levels + 1 => Decoder.node capture (Decoder.nested capture levels)

namespace ClarityValue

/-- Reads a value with positions counted from that of the source on, recording the range of each
part if asked to. -/
def decoder (capture : Bool) : Decoder ClarityValue :=
  .position fun start => (Decoder.nested capture maxValueDepth).counted start

/-- Reads a value with positions counted from zero on, and records none. -/
def plainDecoder : Decoder ClarityValue :=
  (Decoder.nested false maxValueDepth).counted 0

/-- Reads a value from the position of a cursor. -/
def read (capture : Bool) (cursor : Cursor) : Except WireError (ClarityValue × Cursor) :=
  (decoder capture).run cursor

/-- Reads a value that takes up a whole byte string, recording ranges. -/
def ofBytesCaptured (bytes : Bytes) : Except WireError ClarityValue :=
  match read true (Cursor.ofBuffer bytes 0) with
  | .error e => .error e
  | .ok (value, cursor) =>
    if cursor.offset = bytes.length then .ok value else .error .trailingBytes

end ClarityValue

namespace Value

/-- The UTF-8 string of some bytes, or the failure of bytes that are ill-formed. -/
def ofUtf8 (bytes : Bytes) : Except WireError Value :=
  match ofUtf8? bytes with
  | some value => .ok value
  | none => .error .invalidUtf8

/-- Reads a value. -/
def decoder : Decoder Value :=
  Spanned.value <$> ClarityValue.plainDecoder

end Value

end ClarityWire
