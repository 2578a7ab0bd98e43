import ClarityWire.Wire.Decoder

/-!
# Cursors

A position in a buffer. Reading from a cursor is what decoding a byte string means: from its start,
either up to wherever the item ends or with the demand that nothing is left.
-/

namespace ClarityWire

/-- A position in a buffer, with the bytes from there on. -/
structure Cursor where
  rest : Bytes
  offset : Nat
  deriving DecidableEq, Repr

namespace Cursor

/-- The cursor at a position of a buffer, which may lie past its end. -/
def ofBuffer (buffer : Bytes) (offset : Nat) : Cursor :=
  ⟨buffer.drop offset, offset⟩

/-- The next bytes, if there are that many. -/
def take (count : Nat) (cursor : Cursor) : Except WireError (Block count × Cursor) :=
  let front := cursor.rest.take count
  if h : front.length = count then
    .ok (⟨front, h⟩, ⟨cursor.rest.drop count, cursor.offset + count⟩)
  else
    .error .unexpectedEof

/-- The next bytes, as many as there are up to a limit. -/
def upTo (limit : Nat) (cursor : Cursor) : Except WireError (Bytes × Cursor) :=
  let front := cursor.rest.take limit
  .ok (front, ⟨cursor.rest.drop limit, cursor.offset + front.length⟩)

@[simp] theorem take_append {count : Nat} (block : Block count) (rest : Bytes) (offset : Nat) :
    take count ⟨block.1 ++ rest, offset⟩ = .ok (block, ⟨rest, offset + count⟩) := by
  obtain ⟨bytes, rfl⟩ := block
  simp [take]

theorem take_eq_error {count : Nat} {bytes : Bytes} (h : bytes.length < count) (offset : Nat) :
    take count ⟨bytes, offset⟩ = .error .unexpectedEof := by
  have hshort : (bytes.take count).length ≠ count := by
    rw [List.length_take]
    omega
  exact dif_neg hshort

theorem starts_or_short (count : Nat) (bytes : Bytes) :
    (∃ (block : Block count) (rest : Bytes), bytes = block.1 ++ rest) ∨ bytes.length < count := by
  by_cases h : count ≤ bytes.length
  · exact .inl ⟨⟨bytes.take count, List.length_take_of_le h⟩, bytes.drop count,
      (List.take_append_drop ..).symm⟩
  · exact .inr (Nat.not_le.mp h)

instance : ByteSource Cursor where
  take := take
  upTo := upTo
  position := Cursor.offset

end Cursor

namespace Decoder

variable {α : Type}

@[simp] theorem run_take_append {count : Nat} (next : Block count → Decoder α)
    (block : Block count) (rest : Bytes) (offset : Nat) :
    (Decoder.take count next).run (⟨block.1 ++ rest, offset⟩ : Cursor) =
      (next block).run (⟨rest, offset + count⟩ : Cursor) := by
  simp [run, ByteSource.take]

theorem run_take_eq_error {count : Nat} (next : Block count → Decoder α) {bytes : Bytes}
    (h : bytes.length < count) (offset : Nat) :
    (Decoder.take count next).run (⟨bytes, offset⟩ : Cursor) = .error .unexpectedEof := by
  simp [run, ByteSource.take, Cursor.take_eq_error h]

/-- Reads an item from the front of a byte string and counts the bytes it takes up. -/
def decodeFront (d : Decoder α) (bytes : Bytes) : Except WireError (α × Nat) :=
  (d.run (Cursor.ofBuffer bytes 0)).map fun (value, cursor) => (value, cursor.offset)

/-- Reads an item that takes up a whole byte string. -/
def decode (d : Decoder α) (bytes : Bytes) : Except WireError α :=
  match d.decodeFront bytes with
  | .error e => .error e
  | .ok (value, consumed) =>
    if consumed = bytes.length then .ok value else .error .trailingBytes

/-- Reads an item that takes up a whole byte string given in hexadecimal. -/
def decodeHex (d : Decoder α) (text : String) : Except WireError α :=
  match Hex.decode text with
  | .ok bytes => d.decode bytes
  | .error e => .error (.hex e)

end Decoder

end ClarityWire
