import ClarityWire.Address.Stacks
import ClarityWire.Wire.Decoder
import ClarityWire.Wire.Encoder

/-!
# Items of a fixed layout

Numbers have a fixed width and are written most significant byte first, so a signed number is its
two's complement. An address is its version byte and its hash, whatever the version. A name is
preceded by its length in one byte. Longer byte strings are preceded by their length in four bytes,
which is held to a limit on reading before any of the bytes are read; then no more bytes are taken
than there are, and whether they are all there is checked afterwards.
-/

namespace ClarityWire

namespace Decoder

/-- Reads a number of a given width in bytes. -/
def number (width : Nat) : Decoder Nat :=
  .take width fun block => .done (Bytes.toNat block.1)

def byte : Decoder UInt8 :=
  UInt8.ofNat <$> number 1

def word32 : Decoder UInt32 :=
  UInt32.ofNat <$> number 4

def word128 : Decoder (BitVec 128) :=
  BitVec.ofNat 128 <$> number 16

/-- Reads a byte string of a known length. -/
def block (size : Nat) : Decoder (Block size) :=
  .take size .done

/-- Reads a length and refuses one over the limit. -/
def length : Decoder Nat := do
  let announced ← number 4
  if announced ≤ maxValueSize then return announced
  else .fail (.oversized announced maxValueSize)

/-- Reads a byte string behind its length. -/
def sizedBytes : Decoder Bytes := do
  let announced ← length
  limited announced

/-- Reads an address of any version. -/
def stacksAddress : Decoder StacksAddress := do
  let version ← byte
  let hash ← block 20
  return ⟨version, hash⟩

/-- Reads a name behind its length. A length out of bounds is refused before the name is read. -/
def name (kind : NameKind) : Decoder (Name kind) := do
  let announced ← number 1
  if kind.allowsLength announced then
    let bytes ← block announced
    match Utf8.decode? bytes.1 with
    | some text => ofExcept ((Name.ofString kind (String.ofList text)).mapError .invalidName)
    | none => .fail (.invalidName (.invalidName kind (Utf8.decodeLossy bytes.1)))
  else
    .fail (.invalidName (.badLength kind announced))

end Decoder

namespace Encoder

/-- Writes the lowest bytes of a number and returns its width. -/
def number (width n : Nat) : Encoder Nat := do
  write (Bytes.ofNat width n)
  return width

def byte (value : UInt8) : Encoder Nat :=
  number 1 value.toNat

def word32 (value : UInt32) : Encoder Nat :=
  number 4 value.toNat

def word128 (value : BitVec 128) : Encoder Nat :=
  number 16 value.toNat

/-- Writes a byte string of a known length and returns that length. -/
def block {size : Nat} (block : Block size) : Encoder Nat := do
  write block.1
  return size

/-- Writes a length. -/
def length (n : Nat) : Encoder Nat :=
  number 4 n

/-- Writes a byte string behind its length. -/
def sizedBytes (bytes : Bytes) : Encoder Nat := do
  let header ← length bytes.length
  let body ← writeCounted bytes
  return header + body

/-- Writes an address. -/
def stacksAddress (address : StacksAddress) : Encoder Nat := do
  let version ← byte address.version
  let hash ← block address.hash
  return version + hash

/-- Writes a name behind its length. -/
def name {kind : NameKind} (name : Name kind) : Encoder Nat := do
  let header ← number 1 name.bytes.length
  let body ← writeCounted name.bytes
  return header + body

end Encoder

end ClarityWire
