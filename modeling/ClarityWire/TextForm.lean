import ClarityWire.Address.Bitcoin
import ClarityWire.Address.Stacks
import ClarityWire.Json
import ClarityWire.Name

/-!
# Text forms

Addresses and names are strings in JSON: the text that they render to, and that is checked when it
is read back.
-/

namespace ClarityWire

/-- How a type is held as a JSON string. -/
structure TextForm (α : Type) where
  /-- What is expected where something else is found. -/
  expected : String
  ofString : String → Except String α
  render : α → String

namespace TextForm

variable {α : Type}

/-- Reads a JSON value, which has to be a string. -/
def ofJson (form : TextForm α) : Json → Except String α
  | .string text => form.ofString text
  | json => .error ("invalid type: " ++ json.describe ++ ", expected " ++ form.expected)

/-- Writes a JSON string. -/
def toJson (form : TextForm α) (item : α) : Json :=
  .string (form.render item)

/-- The text form of a Stacks address. -/
def stacksAddress : TextForm StacksAddress where
  expected := "a Stacks address"
  ofString text := (StacksAddress.ofString text).mapError AddressError.message
  render := StacksAddress.render

/-- The text form of a Bitcoin address. -/
def bitcoinAddress : TextForm BitcoinAddress where
  expected := "a Bitcoin address"
  ofString text := (BitcoinAddress.ofString text).mapError AddressError.message
  render := BitcoinAddress.render

/-- The text form of a name. -/
def name (kind : NameKind) : TextForm (Name kind) where
  expected := kind.label
  ofString text := (Name.ofString kind text).mapError NameError.message
  render := Name.text

end TextForm

end ClarityWire
