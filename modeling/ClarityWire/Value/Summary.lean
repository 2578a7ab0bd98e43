import ClarityWire.Json
import ClarityWire.Value.Encode
import ClarityWire.Value.Render

/-!
# JSON summaries

A value is summed up by its text, its bytes in hexadecimal and the number of its type. A deep
summary adds what the value consists of, with the values inside it summed up the same way: `value`
for integers (in decimal), truth values and bodies, `buffer`, `list`, `data` for strings and tuples,
and the parts of a principal, whose `address` is null when its version has no text form.
-/

namespace ClarityWire.Value

/-- The members that describe an account. -/
def addressMembers (address : StacksAddress) : List (String × Json) :=
  [("address_version", .number address.version.toNat),
   ("address_hash_bytes", .string (Hex.encode address.hash.1)),
   ("address", match address.toC32 with
    | .ok text => .string text
    | .error _ => .null)]

/-- The members that every summary has. -/
def headMembers (value : Value) : List (String × Json) :=
  [("repr", .string value.render), ("hex", .string value.toHex),
   ("type_id", .number value.typeTag.toByte.toNat)]

mutual

/-- The members that a deep summary adds. -/
def contentMembers : Value → List (String × Json)
  | .int bits => [("value", .string (toString bits.toInt))]
  | .uint bits => [("value", .string (toString bits.toNat))]
  | .bool value => [("value", .bool value)]
  | .buffer bytes => [("buffer", .string (Hex.encode bytes))]
  | .list items => [("list", .array (itemSummaries items))]
  | .ascii bytes => [("data", .string (Utf8.decodeLossy bytes))]
  | .utf8 groups => [("data", .string (Utf8.decodeLossy groups.flatten))]
  | .principal address => addressMembers address
  | .contract id => addressMembers id.issuer ++ [("contract_name", .string id.name.text)]
  | .tuple fields => [("data", .object (fieldSummaries fields))]
  | .optionalSome ⟨body, _⟩ => [("value", .object (headMembers body ++ contentMembers body))]
  | .responseOk ⟨body, _⟩ => [("value", .object (headMembers body ++ contentMembers body))]
  | .responseErr ⟨body, _⟩ => [("value", .object (headMembers body ++ contentMembers body))]
  | .optionalNone => []

/-- The deep summaries of list items. -/
def itemSummaries : List (Spanned Value) → List Json
  | [] => []
  | ⟨item, _⟩ :: rest =>
    .object (headMembers item ++ contentMembers item) :: itemSummaries rest

/-- The deep summaries of tuple fields, by name. -/
def fieldSummaries : List (ClarityName × Spanned Value) → List (String × Json)
  | [] => []
  | (name, ⟨field, _⟩) :: rest =>
    (name.text, .object (headMembers field ++ contentMembers field)) :: fieldSummaries rest

end

/-- The summary of a value. -/
def summary (deep : Bool) (value : Value) : Json :=
  .object (headMembers value ++ if deep then contentMembers value else [])

end ClarityWire.Value
