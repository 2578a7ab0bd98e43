import ClarityWire.Contract
import ClarityWire.Value.Fields

/-!
# Clarity values

The closed set of values, and values together with the range of bytes each part was read from.
Ranges are recorded only on request and never count when values are compared.
-/

namespace ClarityWire

/-- A range of positions, the second one excluded. -/
structure Span where
  start : Nat
  stop : Nat
  deriving DecidableEq, Repr

/-- Something read, and where it was read from if that was recorded. -/
structure Spanned (α : Type) where
  value : α
  span : Option Span

/-- A Clarity value. -/
inductive Value where
  /-- A signed integer, as its two's complement. -/
  | int (bits : BitVec 128)
  /-- An unsigned integer. -/
  | uint (bits : BitVec 128)
  | buffer (bytes : Bytes)
  | bool (value : Bool)
  /-- An account. -/
  | principal (address : StacksAddress)
  /-- A contract of an account. -/
  | contract (id : ContractPrincipal)
  | responseOk (body : Spanned Value)
  | responseErr (body : Spanned Value)
  | optionalNone
  | optionalSome (body : Spanned Value)
  | list (items : List (Spanned Value))
  /-- Named fields, in ascending order of names. -/
  | tuple (fields : List (ClarityName × Spanned Value))
  /-- A string of single bytes, which are not checked to be ASCII. -/
  | ascii (bytes : Bytes)
  /-- A string in groups of bytes, one group for each scalar. -/
  | utf8 (groups : List Bytes)

/-- A value whose parts may know where they were read from. -/
abbrev ClarityValue := Spanned Value

/-- The types of values on the wire. Both truth values are types of their own there. -/
inductive TypeTag where
  | int
  | uint
  | buffer
  | boolTrue
  | boolFalse
  | principal
  | contract
  | responseOk
  | responseErr
  | optionalNone
  | optionalSome
  | list
  | tuple
  | ascii
  | utf8
  deriving DecidableEq, Repr

namespace TypeTag

/-- The byte in front of a value of a type. -/
def toByte : TypeTag → UInt8
  | .int => 0
  | .uint => 1
  | .buffer => 2
  | .boolTrue => 3
  | .boolFalse => 4
  | .principal => 5
  | .contract => 6
  | .responseOk => 7
  | .responseErr => 8
  | .optionalNone => 9
  | .optionalSome => 10
  | .list => 11
  | .tuple => 12
  | .ascii => 13
  | .utf8 => 14

/-- The type that a byte announces. -/
def ofByte? (byte : UInt8) : Option TypeTag :=
  match byte.toNat with
  | 0 => some .int
  | 1 => some .uint
  | 2 => some .buffer
  | 3 => some .boolTrue
  | 4 => some .boolFalse
  | 5 => some .principal
  | 6 => some .contract
  | 7 => some .responseOk
  | 8 => some .responseErr
  | 9 => some .optionalNone
  | 10 => some .optionalSome
  | 11 => some .list
  | 12 => some .tuple
  | 13 => some .ascii
  | 14 => some .utf8
  | _ => none

end TypeTag

namespace Spanned

/-- A value that was not read from anywhere. -/
def bare {α : Type} (value : α) : Spanned α := ⟨value, none⟩

/-- The bytes of the recorded range, given the buffer that was read. -/
def bytes? {α : Type} (node : Spanned α) (buffer : Bytes) : Option Bytes :=
  node.span.bind fun span => Bytes.slice? buffer span.start span.stop

end Spanned

namespace Value

/-- The type a value has on the wire. -/
def typeTag : Value → TypeTag
  | .int _ => .int
  | .uint _ => .uint
  | .buffer _ => .buffer
  | .bool true => .boolTrue
  | .bool false => .boolFalse
  | .principal _ => .principal
  | .contract _ => .contract
  | .responseOk _ => .responseOk
  | .responseErr _ => .responseErr
  | .optionalNone => .optionalNone
  | .optionalSome _ => .optionalSome
  | .list _ => .list
  | .tuple _ => .tuple
  | .ascii _ => .ascii
  | .utf8 _ => .utf8

/-- The list of some values. -/
def ofItems (items : List Value) : Value :=
  .list (items.map Spanned.bare)

/-- The tuple of some named values, or the first name that occurs again. -/
def ofFields (entries : List (ClarityName × Value)) : Except ClarityName Value :=
  (Fields.ofList (entries.map fun (name, value) => (name, Spanned.bare value))).map .tuple

/-- The UTF-8 string of a text, one group for each scalar. -/
def ofText (text : List Char) : Value :=
  .utf8 (text.map String.utf8EncodeChar)

/-- The UTF-8 string of some bytes, if they are well-formed. -/
def ofUtf8? (bytes : Bytes) : Option Value :=
  (Utf8.decode? bytes).map ofText

/-! ## Comparison -/

mutual

/-- Whether two values are equal up to recorded ranges. -/
def same : Value → Value → Bool
  | .int a, .int b => a == b
  | .uint a, .uint b => a == b
  | .buffer a, .buffer b => a == b
  | .bool a, .bool b => a == b
  | .principal a, .principal b => a == b
  | .contract a, .contract b => a == b
  | .responseOk ⟨a, _⟩, .responseOk ⟨b, _⟩ => same a b
  | .responseErr ⟨a, _⟩, .responseErr ⟨b, _⟩ => same a b
  | .optionalNone, .optionalNone => true
  | .optionalSome ⟨a, _⟩, .optionalSome ⟨b, _⟩ => same a b
  | .list as, .list bs => sameItems as bs
  | .tuple as, .tuple bs => sameFields as bs
  | .ascii a, .ascii b => a == b
  | .utf8 a, .utf8 b => a == b
  | _, _ => false

/-- Whether two lists of items are equal up to recorded ranges. -/
def sameItems : List (Spanned Value) → List (Spanned Value) → Bool
  | [], [] => true
  | ⟨a, _⟩ :: as, ⟨b, _⟩ :: bs => same a b && sameItems as bs
  | _, _ => false

/-- Whether two lists of fields are equal up to recorded ranges. -/
def sameFields : List (ClarityName × Spanned Value) → List (ClarityName × Spanned Value) → Bool
  | [], [] => true
  | (j, ⟨a, _⟩) :: as, (k, ⟨b, _⟩) :: bs => j == k && (same a b && sameFields as bs)
  | _, _ => false

end

instance : BEq Value := ⟨same⟩

instance : BEq ClarityValue := ⟨fun a b => same a.value b.value⟩

end Value

end ClarityWire
