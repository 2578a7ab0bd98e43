import ClarityWire.Value.Basic

/-!
# The text of a value

Compound values are written in parentheses, an unsigned integer behind `u`, a principal behind a
single quote, a buffer as bare hexadecimal. Inside a string literal the quote, the backslash and
bytes outside printable ASCII are escaped, and a scalar of more than one byte is written as the
hexadecimal of its bytes between braces. A principal whose version has no text form is written as
the error that says so.

A limit on hexadecimal digits concerns the outermost value only: a buffer is cut after that many
digits, and so is each long scalar of a UTF-8 string.
-/

namespace ClarityWire.Value

/-- The spelling of one byte of a string literal. -/
def escapeByte (byte : UInt8) : List Char :=
  if byte = 0x07 then ['\\', 'a']
  else if byte = 0x08 then ['\\', 'b']
  else if byte = 0x09 then ['\\', 't']
  else if byte = 0x0A then ['\\', 'n']
  else if byte = 0x0B then ['\\', 'v']
  else if byte = 0x0C then ['\\', 'f']
  else if byte = 0x0D then ['\\', 'r']
  else if byte = 0x22 then ['\\', '\x22']
  else if byte = 0x5C then ['\\', '\\']
  else if byte < 32 ∨ 127 ≤ byte then '\\' :: 'x' :: Hex.digitPair byte
  else [Char.ofNat byte.toNat]

/-- The spelling of one group of a UTF-8 string. -/
def escapeGroup (limit? : Option Nat) (group : Bytes) : List Char :=
  match group with
  | [] => []
  | [byte] => escapeByte byte
  | _ =>
    let limit := limit?.getD (2 * group.length)
    ['\\', 'u', '\x7b'] ++ Hex.truncatedDigits group limit ++ ['\x7d']

/-- The text of an account. -/
def renderAddress (address : StacksAddress) : String :=
  match address.toC32 with
  | .ok text => "'" ++ text
  | .error e => "ERROR: " ++ e.message

/-- The text of a contract. -/
def renderContract (id : ContractPrincipal) : String :=
  match id.issuer.toC32 with
  | .ok text => "'" ++ text ++ "." ++ id.name.text
  | .error e => "ERROR: " ++ e.message

mutual

/-- Appends the text of a value. -/
def renderOnto (limit? : Option Nat) (out : String) : Value → String
  | .int bits => out ++ toString bits.toInt
  | .uint bits => out ++ "u" ++ toString bits.toNat
  | .buffer bytes => out ++ Hex.encodeTruncated bytes limit?
  | .bool true => out ++ "true"
  | .bool false => out ++ "false"
  | .principal address => out ++ renderAddress address
  | .contract id => out ++ renderContract id
  | .responseOk ⟨body, _⟩ => renderOnto none (out ++ "(ok ") body ++ ")"
  | .responseErr ⟨body, _⟩ => renderOnto none (out ++ "(err ") body ++ ")"
  | .optionalNone => out ++ "none"
  | .optionalSome ⟨body, _⟩ => renderOnto none (out ++ "(some ") body ++ ")"
  | .list items => renderItemsOnto (out ++ "(list") items ++ ")"
  | .tuple fields => renderFieldsOnto (out ++ "(tuple") fields ++ ")"
  | .ascii bytes => out ++ "\"" ++ String.ofList (bytes.flatMap escapeByte) ++ "\""
  | .utf8 groups => out ++ "u\"" ++ String.ofList (groups.flatMap (escapeGroup limit?)) ++ "\""

/-- Appends the texts of list items, each behind a space. -/
def renderItemsOnto (out : String) : List (Spanned Value) → String
  | [] => out
  | ⟨item, _⟩ :: rest => renderItemsOnto (renderOnto none (out ++ " ") item) rest

/-- Appends the texts of tuple fields, each in parentheses behind a space. -/
def renderFieldsOnto (out : String) : List (ClarityName × Spanned Value) → String
  | [] => out
  | (name, ⟨field, _⟩) :: rest =>
    renderFieldsOnto (renderOnto none (out ++ " (" ++ name.text ++ " ") field ++ ")") rest

end

/-- The text of a value, with at most `limit?` hexadecimal digits in a run of them if a limit is
given. -/
def renderLimited (limit? : Option Nat) (value : Value) : String :=
  renderOnto limit? "" value

/-- The text of a value. -/
def render (value : Value) : String :=
  renderLimited none value

end ClarityWire.Value

namespace ClarityWire.ClarityValue

/-- The text of a value, which does not depend on where it was read. -/
def renderLimited (limit? : Option Nat) (node : ClarityValue) : String :=
  node.value.renderLimited limit?

end ClarityWire.ClarityValue
