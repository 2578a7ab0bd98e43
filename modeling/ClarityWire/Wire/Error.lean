import ClarityWire.Hex
import ClarityWire.Name

/-!
# Wire errors

Everything that can go wrong between values and bytes. An end of input that a source reports as an
error counts as a truncated item, like an end it merely runs into.
-/

namespace ClarityWire

/-- The most bytes or elements a length may announce. -/
def maxValueSize : Nat := 1048576

/-- The deepest a value may be nested in optionals, responses, lists and tuples. -/
def maxValueDepth : Nat := 16

/-- The kinds of transport failures that are told apart. -/
inductive IoErrorKind where
  | unexpectedEof
  | writeZero
  | other
  deriving DecidableEq, Repr

/-- A failure of the source or the sink. -/
structure IoError where
  kind : IoErrorKind
  message : String
  deriving DecidableEq, Repr

inductive WireError where
  /-- The source or the sink failed. -/
  | io (error : IoError)
  /-- The input ends inside an item. -/
  | unexpectedEof
  /-- A length is over the limit. -/
  | oversized (requested limit : Nat)
  /-- Values are nested too deep. -/
  | depthExceeded (limit : Nat)
  /-- No type of value starts with this byte. -/
  | badTypeTag (byte : UInt8)
  /-- A name failed its check. -/
  | invalidName (error : NameError)
  /-- A tuple has two fields of this name. -/
  | duplicateKey (name : ClarityName)
  /-- The bytes of a UTF-8 string are ill-formed. -/
  | invalidUtf8
  /-- Bytes are left after the item. -/
  | trailingBytes
  /-- The input was given in hexadecimal and is none. -/
  | hex (error : Hex.Error)
  deriving DecidableEq

namespace WireError

/-- The wire error of a transport failure. -/
def ofIo (error : IoError) : WireError :=
  if error.kind = .unexpectedEof then .unexpectedEof else .io error

def message : WireError → String
  | .io e => "I/O error: " ++ e.message
  | .unexpectedEof => "unexpected EOF"
  | .oversized requested limit =>
    "oversized vector allocation: requested " ++ toString requested ++ ", maximum " ++
      toString limit
  | .depthExceeded limit => "value nesting exceeds maximum depth " ++ toString limit
  | .badTypeTag byte => "bad type prefix: 0x" ++ Hex.encode [byte]
  | .invalidName e => "invalid name: " ++ e.message
  | .duplicateKey name => "duplicate tuple key: " ++ name.text
  | .invalidUtf8 => "invalid UTF-8 in string-utf8 value"
  | .trailingBytes =>
    "parse failed: data not consumed entirely when explicitly deserializing"
  | .hex e => "Hex error " ++ e.message

/-- The texts of the underlying causes, outermost first. -/
def causes : WireError → List String
  | .io e => [e.message]
  | .invalidName e => [e.message]
  | .hex e => e.message :: e.causes
  | _ => []

end WireError

end ClarityWire
