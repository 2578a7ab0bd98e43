import ClarityWire.Value.Basic

/-!
# Type signatures

The type that a single value shows. What it does not show, such as the items of an empty list or
the other side of a response, is written as unknown. A UTF-8 string counts four bytes a scalar.
-/

namespace ClarityWire.Value

/-- What stands where a type cannot be told. -/
def unknownType : String := "UnknownType"

mutual

/-- Appends the type signature of a value. -/
def signatureOnto (out : String) : Value → String
  | .int _ => out ++ "int"
  | .uint _ => out ++ "uint"
  | .bool _ => out ++ "bool"
  | .buffer bytes => out ++ "(buff " ++ toString bytes.length ++ ")"
  | .ascii bytes => out ++ "(string-ascii " ++ toString bytes.length ++ ")"
  | .utf8 groups => out ++ "(string-utf8 " ++ toString (groups.length * 4) ++ ")"
  | .principal _ => out ++ "principal"
  | .contract _ => out ++ "principal"
  | .list [] => out ++ "(list 0 " ++ unknownType ++ ")"
  | .list (⟨item, _⟩ :: rest) =>
    signatureOnto (out ++ "(list " ++ toString (rest.length + 1) ++ " ") item ++ ")"
  | .tuple fields => fieldSignaturesOnto (out ++ "(tuple") fields ++ ")"
  | .optionalNone => out ++ "(optional " ++ unknownType ++ ")"
  | .optionalSome ⟨body, _⟩ => signatureOnto (out ++ "(optional ") body ++ ")"
  | .responseOk ⟨body, _⟩ => signatureOnto (out ++ "(response ") body ++ " " ++ unknownType ++ ")"
  | .responseErr ⟨body, _⟩ => signatureOnto (out ++ "(response " ++ unknownType ++ " ") body ++ ")"

/-- Appends the type signatures of tuple fields, each in parentheses behind a space. -/
def fieldSignaturesOnto (out : String) : List (ClarityName × Spanned Value) → String
  | [] => out
  | (name, ⟨field, _⟩) :: rest =>
    fieldSignaturesOnto (signatureOnto (out ++ " (" ++ name.text ++ " ") field ++ ")") rest

end

/-- The type signature of a value. -/
def signature (value : Value) : String :=
  signatureOnto "" value

end ClarityWire.Value
