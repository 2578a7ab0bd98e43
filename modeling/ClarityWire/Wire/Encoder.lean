import ClarityWire.Wire.Error

/-!
# Encoders

An encoder appends an item to a writer and counts the bytes. A writer may have room for only so
many; what does not fit fails, and the part that fits stays written.
-/

namespace ClarityWire

/-- The bytes written so far and the room that is left, if it is limited. -/
structure Writer where
  buffer : Array UInt8
  room : Option Nat

/-- An action on a writer that may fail; the writer it leaves is kept even then. -/
abbrev Encoder (α : Type) := EStateM WireError Writer α

namespace Writer

/-- An empty writer with room for everything, or for a given number of bytes. -/
def empty (room : Option Nat) : Writer := ⟨#[], room⟩

/-- What is reported when bytes do not fit. -/
def fullError : IoError := ⟨.writeZero, "failed to write whole buffer"⟩

def bytes (w : Writer) : Bytes :=
  w.buffer.toList

end Writer

namespace Encoder

/-- Appends bytes, as many as fit. -/
def write (bytes : Bytes) : Encoder Unit := fun w =>
  match w with
  | ⟨buffer, none⟩ => .ok () ⟨buffer ++ bytes, none⟩
  | ⟨buffer, some room⟩ =>
    let fitting := bytes.take room
    let w := ⟨buffer ++ fitting, some (room - fitting.length)⟩
    if fitting.length = bytes.length then .ok () w else .error (.io Writer.fullError) w

/-- Appends bytes and counts them. -/
def writeCounted (bytes : Bytes) : Encoder Nat := do
  write bytes
  return bytes.length

/-- The bytes an encoder writes when there is room for all of them. -/
def toBytes (e : Encoder Nat) : Bytes :=
  match e.run (Writer.empty none) with
  | .ok _ w => w.bytes
  | .error _ w => w.bytes

/-- The outcome of an encoder on a fresh writer, and what the writer then holds. -/
def runWithRoom (e : Encoder Nat) (room : Option Nat) : Except WireError Nat × Bytes :=
  match e.run (Writer.empty room) with
  | .ok count w => (.ok count, w.bytes)
  | .error error w => (.error error, w.bytes)

end Encoder

end ClarityWire
