import ClarityWire.Checksum
import ClarityWire.Radix
import ClarityWire.Text.Quoted

/-!
# Base 58

A byte string is read as a number, most significant byte first, and written in base 58. Leading
zero bytes do not show in the number, so each of them is written as one leading `1`, the digit
zero. The checked form appends a checksum of the payload before it is written.
-/

namespace ClarityWire.Base58

/-- The digits in ascending order. `0`, `O`, `I` and `l` are left out. -/
def alphabet : String :=
  "123456789ABCDEFGHJKLMNPQRSTUVWXYZabcdefghijkmnopqrstuvwxyz"

def symbols : List Char :=
  alphabet.toList

/-- The character of a digit. -/
def symbol (digit : Nat) : Char :=
  symbols.getD digit '1'

def digitTable : Radix.DigitTable :=
  .ofEntries symbols.zipIdx

/-- The digit of a character. -/
def digit? (c : Char) : Option Nat :=
  digitTable.digit? c

/-- Why a text is not base 58, or does not carry its checksum. -/
inductive Error where
  /-- A character that is no digit. -/
  | invalidCharacter (c : Char)
  /-- The checksum of the payload differs from the one that the text carries. -/
  | checksumMismatch (computed carried : Checksum)
  /-- The text has fewer bytes than a checksum. -/
  | tooShort (length : Nat)
  deriving DecidableEq, Repr

def Error.message : Error → String
  | .invalidCharacter c => "invalid base58 character " ++ Text.quoteChar c
  | .checksumMismatch computed carried =>
    "base58ck checksum " ++ carried.render ++ " does not match computed checksum " ++
      computed.render
  | .tooShort length =>
    "base58ck data of length " ++ toString length ++ " is too short for a checksum"

/-- The base 58 characters of a byte string. -/
def encodeChars (bytes : Bytes) : List Char :=
  let zeros := Bytes.leadingZeros bytes
  let digits := Radix.convert 256 58 ((bytes.drop zeros).map UInt8.toNat)
  List.replicate zeros (symbol 0) ++ digits.reverse.map symbol

/-- The base 58 text of a byte string. -/
def encode (bytes : Bytes) : String :=
  String.ofList (encodeChars bytes)

/-- Reads base 58 characters. The first character that is no digit is reported. -/
def decodeChars (text : List Char) : Except Error Bytes :=
  match text.find? fun c => (digit? c).isNone with
  | some c => .error (.invalidCharacter c)
  | none =>
    let digits := text.filterMap digit?
    let zeros := (digits.takeWhile (· == 0)).length
    let bytes := Radix.convert 58 256 (digits.drop zeros)
    .ok (List.replicate zeros 0 ++ bytes.reverse.map UInt8.ofNat)

/-- Reads base 58 text. -/
def decode (text : String) : Except Error Bytes :=
  decodeChars text.toList

/-- The base 58 text of a payload followed by its checksum. -/
def encodeCheck (checksum : Bytes → Checksum) (payload : Bytes) : String :=
  encode (payload ++ (checksum payload).toBytes)

/-- Reads base 58 text that ends in a checksum, which is verified and left out. -/
def decodeCheck (checksum : Bytes → Checksum) (text : String) : Except Error Bytes :=
  match decode text with
  | .error e => .error e
  | .ok bytes =>
    match Checksum.split? bytes with
    | none => .error (.tooShort bytes.length)
    | some (payload, carried) =>
      let computed := checksum payload
      if computed = carried then .ok payload else .error (.checksumMismatch computed carried)

end ClarityWire.Base58
