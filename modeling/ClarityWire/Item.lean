import ClarityWire.Value.Decode
import ClarityWire.Value.Encode

/-!
# Wire types

All types of items that can be written and read, as one closed set, so that what holds of every one
of them can be said once.
-/

namespace ClarityWire

inductive WireType where
  | byte
  | word32
  | uint128
  | int128
  | hash160
  | stacksAddress
  | clarityName
  | contractName
  | value
  | clarityValue
  deriving DecidableEq, Repr

namespace WireType

/-- The items of a type. A signed number is held as its two's complement. -/
def Item : WireType → Type
  | byte => UInt8
  | word32 => UInt32
  | uint128 => BitVec 128
  | int128 => BitVec 128
  | hash160 => Hash160
  | stacksAddress => StacksAddress
  | clarityName => ClarityName
  | contractName => ContractName
  | value => Value
  | clarityValue => ClarityValue

/-- Reads an item of a type. -/
def decoder : (type : WireType) → Decoder type.Item
  | byte => Decoder.byte
  | word32 => Decoder.word32
  | uint128 => Decoder.word128
  | int128 => Decoder.word128
  | hash160 => Decoder.block 20
  | stacksAddress => Decoder.stacksAddress
  | clarityName => Decoder.name .clarity
  | contractName => Decoder.name .contract
  | value => Value.decoder
  | clarityValue => ClarityValue.plainDecoder

/-- Writes an item of a type and counts its bytes. -/
def encoder : (type : WireType) → type.Item → Encoder Nat
  | byte, item => Encoder.byte item
  | word32, item => Encoder.word32 item
  | uint128, item => Encoder.word128 item
  | int128, item => Encoder.word128 item
  | hash160, item => Encoder.block item
  | stacksAddress, item => Encoder.stacksAddress item
  | clarityName, item => Encoder.name item
  | contractName, item => Encoder.name item
  | value, item => Value.encoder item
  | clarityValue, item => Value.encoder (Spanned.value item)

/-- The bytes of an item. -/
def toBytes (type : WireType) (item : type.Item) : Bytes :=
  (type.encoder item).toBytes

end WireType

end ClarityWire
