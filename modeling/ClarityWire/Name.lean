import ClarityWire.Text.Quoted
import ClarityWire.Text.Utf8

/-!
# Names

Identifiers come in two kinds. A Clarity name is one of nine operators, or a letter followed by
letters, digits and `-_!?+<>=/*`, at most 128 bytes in all. A contract name is a letter followed by
letters, digits, `-` and `_`, at least one byte and at most 40, or the reserved name `__transient`.

A name of either kind carries the fact that its text was accepted, so no other text ever is a name.
-/

namespace ClarityWire

/-- The reserved contract name. -/
def transientContractName : String := "__transient"

/-- The kinds of names. -/
inductive NameKind where
  | clarity
  | contract
  deriving DecidableEq, Repr

namespace NameKind

def label : NameKind → String
  | .clarity => "ClarityName"
  | .contract => "ContractName"

/-- The fewest bytes a name may have before its characters are looked at. -/
def minLength : NameKind → Nat
  | .clarity => 0
  | .contract => 1

/-- The most bytes a name may have. -/
def maxLength : NameKind → Nat
  | .clarity => 128
  | .contract => 40

/-- Names that are allowed although they do not start with a letter. -/
def reserved : NameKind → List String
  | .clarity => ["-", "+", "=", "/", "*", "<", ">", "<=", ">="]
  | .contract => [transientContractName]

/-- What a name may contain besides letters and digits, after its first letter. -/
def marks : NameKind → List Char
  | .clarity => ['-', '_', '!', '?', '+', '<', '>', '=', '/', '*']
  | .contract => ['-', '_']

/-- Whether a length lies within the bounds. -/
def allowsLength (kind : NameKind) (length : Nat) : Bool :=
  kind.minLength ≤ length && length ≤ kind.maxLength

/-- Whether a character may follow the first letter. -/
def allowsChar (kind : NameKind) (c : Char) : Bool :=
  c.isAlphanum || kind.marks.contains c

/-- Whether characters are a letter followed by allowed ones. -/
def allowsWord (kind : NameKind) : List Char → Bool
  | [] => false
  | c :: rest => c.isAlpha && rest.all kind.allowsChar

/-- Whether a text is reserved or a word. -/
def allowsText (kind : NameKind) (text : String) : Bool :=
  kind.reserved.contains text || kind.allowsWord text.toList

/-- Whether a text is a name. -/
def accepts (kind : NameKind) (text : String) : Bool :=
  kind.allowsLength (Utf8.ofString text).length && kind.allowsText text

end NameKind

/-- Why a text is no name. -/
inductive NameError where
  /-- The characters are not those of a name; bytes that are no text are shown repaired. -/
  | invalidName (kind : NameKind) (text : String)
  /-- The number of bytes is out of bounds. -/
  | badLength (kind : NameKind) (length : Nat)
  deriving DecidableEq, Repr

def NameError.message : NameError → String
  | .invalidName kind text => "bad name value " ++ kind.label ++ ", " ++ Text.quoteString text
  | .badLength kind length => "bad name length " ++ toString length ++ " for " ++ kind.label

/-- A name of a given kind. -/
structure Name (kind : NameKind) where
  text : String
  accepted : kind.accepts text = true
  deriving DecidableEq

/-- The name of a tuple field, a function or a variable. -/
abbrev ClarityName := Name .clarity

/-- The name a contract is deployed under. -/
abbrev ContractName := Name .contract

namespace Name

variable {kind : NameKind}

/-- Checks a text. The length is judged before the characters. -/
def ofString (kind : NameKind) (text : String) : Except NameError (Name kind) :=
  if h : kind.accepts text then
    .ok ⟨text, h⟩
  else if kind.allowsLength (Utf8.ofString text).length then
    .error (.invalidName kind text)
  else
    .error (.badLength kind (Utf8.ofString text).length)

/-- The bytes of the text. -/
def bytes (name : Name kind) : Bytes :=
  Utf8.ofString name.text

/-- The text between quotes, behind the kind. -/
def describe (name : Name kind) : String :=
  kind.label ++ "(" ++ Text.quoteString name.text ++ ")"

/-- Names are ordered byte by byte. -/
instance : Ord (Name kind) where
  compare a b := Bytes.compare a.bytes b.bytes

end Name

/-- Whether a contract name is the reserved one. -/
def ContractName.isTransient (name : ContractName) : Bool :=
  name.text == transientContractName

end ClarityWire
