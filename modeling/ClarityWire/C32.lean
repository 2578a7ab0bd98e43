import ClarityWire.Checksum
import ClarityWire.Radix
import ClarityWire.Text.Quoted

/-!
# c32

Bytes are packed into digits of five bits, starting from the last byte, so that the digits spell
the bytes as one number in base 32. Zero digits in front say nothing about that number: they are
dropped, and each leading zero byte is written as one leading `0` instead.

Reading takes letters of either case, and takes `O` for `0` and `I` and `L` for `1`.

The checked form puts a version digit in front of the packed payload and checksum; the checksum
covers version and payload. An address puts one more character, `S`, in front of that.
-/

namespace ClarityWire.C32

/-- The digits in ascending order. `I`, `L`, `O` and `U` are left out. -/
def alphabet : String :=
  "0123456789ABCDEFGHJKMNPQRSTVWXYZ"

def symbols : List Char :=
  alphabet.toList

/-- The character in front of an address. -/
def addressLead : Char := 'S'

/-- Versions are single digits, so they stay below this. -/
def versionLimit : Nat := 32

/-- The character of a digit. -/
def symbol (digit : Nat) : Char :=
  symbols.getD digit '0'

/-- A character of the alphabet in either case. -/
def bothCases (entry : Char × Nat) : List (Char × Nat) :=
  if entry.1.isUpper then [entry, (entry.1.toLower, entry.2)] else [entry]

/-- Characters that are taken for digits they look like. -/
def lookAlikes : List (Char × Nat) :=
  [('O', 0), ('o', 0), ('L', 1), ('l', 1), ('I', 1), ('i', 1)]

def digitTable : Radix.DigitTable :=
  .ofEntries (symbols.zipIdx.flatMap bothCases ++ lookAlikes)

/-- The digit of a character in any of its spellings. -/
def digit? (c : Char) : Option Nat :=
  digitTable.digit? c

/-- Why a text is not c32, or does not carry its checksum, or why a version has no c32 form. -/
inductive Error where
  /-- A character outside ASCII, or one that is no digit. -/
  | invalidCharacter (c : Char)
  /-- The checksum of version and payload differs from the one that the text carries. -/
  | checksumMismatch (computed carried : Checksum)
  /-- The text or its bytes are too few to carry version and checksum. -/
  | tooShort (length : Nat)
  /-- The version is not a single digit. -/
  | invalidVersion (version : UInt8)
  deriving DecidableEq, Repr

def Error.message : Error → String
  | .invalidCharacter c => "invalid c32 character " ++ Text.quoteChar c
  | .checksumMismatch computed carried =>
    "c32check checksum " ++ carried.render ++ " does not match computed checksum " ++
      computed.render
  | .tooShort length => "c32 input of length " ++ toString length ++ " is too short"
  | .invalidVersion version =>
    "invalid c32 version " ++ toString version.toNat ++ ", must be below 32"

/-! ## Regrouping bits -/

/-- A regrouping under way, from the least significant end: the units already complete, most
significant first, and the bits left over, as a number of `bits` bits. -/
structure Packing where
  units : List Nat
  carry : Nat
  bits : Nat
  deriving DecidableEq, Repr

/-- Nothing regrouped yet. -/
def Packing.empty : Packing := ⟨[], 0, 0⟩

/-- Takes in one more byte and completes one digit, or two when five bits are left over. -/
def Packing.pushByte (byte : UInt8) (p : Packing) : Packing :=
  let low := byte.toNat % (1 <<< (5 - p.bits))
  let units := ((low <<< p.bits) + p.carry) :: p.units
  let bits := p.bits + 3
  let carry := byte.toNat >>> (8 - bits)
  if 5 ≤ bits then ⟨carry % 32 :: units, carry >>> 5, bits - 5⟩ else ⟨units, carry, bits⟩

/-- Takes in one more digit and completes a byte when eight bits are there. -/
def Packing.pushDigit (digit : Nat) (p : Packing) : Packing :=
  let carry := p.carry + (digit <<< p.bits)
  let bits := p.bits + 5
  if 8 ≤ bits then ⟨carry % 256 :: p.units, carry >>> 8, bits - 8⟩ else ⟨p.units, carry, bits⟩

/-- All units without zeros in front, the bits left over making the most significant one. -/
def Packing.finish (p : Packing) : List Nat :=
  (if 0 < p.bits then p.carry :: p.units else p.units).dropWhile (· == 0)

/-! ## Plain form -/

/-- The c32 characters of a byte string. -/
def encodeChars (bytes : Bytes) : List Char :=
  let digits := (bytes.foldr Packing.pushByte Packing.empty).finish
  List.replicate (Bytes.leadingZeros bytes) (symbol 0) ++ digits.map symbol

/-- The c32 text of a byte string. -/
def encode (bytes : Bytes) : String :=
  String.ofList (encodeChars bytes)

def isAscii (c : Char) : Bool :=
  c.toNat < 128

/-- Refuses text with a character outside ASCII and reports the first one. -/
def requireAscii (text : List Char) : Except Error Unit :=
  match text.find? fun c => !isAscii c with
  | some c => .error (.invalidCharacter c)
  | none => .ok ()

/-- The digits of a text. Of the characters that are none, the last is reported. -/
def digitValues (text : List Char) : Except Error (List Nat) :=
  match text.reverse.find? fun c => (digit? c).isNone with
  | some c => .error (.invalidCharacter c)
  | none => .ok (text.filterMap digit?)

/-- The bytes that digits stand for. -/
def packDigits (digits : List Nat) : Bytes :=
  let bytes := (digits.foldr Packing.pushDigit Packing.empty).finish
  let zeros := (digits.takeWhile (· == 0)).length
  List.replicate zeros 0 ++ bytes.map UInt8.ofNat

/-- Reads c32 characters. -/
def decodeChars (text : List Char) : Except Error Bytes := do
  requireAscii text
  let digits ← digitValues text
  return packDigits digits

/-- Reads c32 text. -/
def decode (text : String) : Except Error Bytes :=
  decodeChars text.toList

/-! ## Checked form -/

/-- The checked text of a version and a payload, behind a character of the caller's choice. -/
def encodeCheck (checksum : Bytes → Checksum) (version : UInt8) (payload : Bytes) (lead : Char) :
    Except Error String :=
  if version.toNat < versionLimit then
    let body := payload ++ (checksum (version :: payload)).toBytes
    .ok (String.ofList (lead :: symbol version.toNat :: encodeChars body))
  else
    .error (.invalidVersion version)

/-- Reads checked characters, with no character of the caller's in front. -/
def decodeCheckChars (checksum : Bytes → Checksum) (text : List Char) :
    Except Error (UInt8 × Bytes) := do
  requireAscii text
  match text with
  | versionChar :: body@(_ :: _) =>
    match digit? versionChar with
    | none => throw (.invalidCharacter versionChar)
    | some digit =>
      let version := UInt8.ofNat digit
      let bytes ← decodeChars body
      match Checksum.split? bytes with
      | none => throw (.tooShort bytes.length)
      | some (payload, carried) =>
        let computed := checksum (version :: payload)
        if computed = carried then return (version, payload)
        else throw (.checksumMismatch computed carried)
  | _ => throw (.tooShort text.length)

/-- Reads checked text, with no character of the caller's in front. -/
def decodeCheck (checksum : Bytes → Checksum) (text : String) : Except Error (UInt8 × Bytes) :=
  decodeCheckChars checksum text.toList

/-! ## Addresses -/

/-- The address text of a version and a payload. -/
def encodeAddress (checksum : Bytes → Checksum) (version : UInt8) (payload : Bytes) :
    Except Error String :=
  encodeCheck checksum version payload addressLead

/-- Reads address text. The character in front may be any ASCII character. -/
def decodeAddress (checksum : Bytes → Checksum) (text : String) : Except Error (UInt8 × Bytes) := do
  let chars := text.toList
  requireAscii chars
  if chars.length ≤ 5 then throw (.tooShort chars.length)
  else decodeCheckChars checksum (chars.drop 1)

end ClarityWire.C32
