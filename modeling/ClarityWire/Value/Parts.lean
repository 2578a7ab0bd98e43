import ClarityWire.Value.Basic

/-!
# The parts of a value

A value, the values inside it, the values inside those, and so on, each with its depth and each
before the parts inside it. Items come in order and fields in order of names.
-/

namespace ClarityWire.ClarityValue

mutual

/-- The parts of a value found at a given depth. -/
def partsFrom (depth : Nat) : Spanned Value → List (Nat × ClarityValue)
  | ⟨value, span⟩ => (depth, ⟨value, span⟩) :: innerParts (depth + 1) value

/-- The parts inside a value, which are found at a given depth. -/
def innerParts (depth : Nat) : Value → List (Nat × ClarityValue)
  | .responseOk body => partsFrom depth body
  | .responseErr body => partsFrom depth body
  | .optionalSome body => partsFrom depth body
  | .list items => itemParts depth items
  | .tuple fields => fieldParts depth fields
  | _ => []

/-- The parts of list items found at a given depth. -/
def itemParts (depth : Nat) : List (Spanned Value) → List (Nat × ClarityValue)
  | [] => []
  | item :: rest => partsFrom depth item ++ itemParts depth rest

/-- The parts of tuple fields found at a given depth. -/
def fieldParts (depth : Nat) : List (ClarityName × Spanned Value) → List (Nat × ClarityValue)
  | [] => []
  | (_, field) :: rest => partsFrom depth field ++ fieldParts depth rest

end

/-- The parts of a value, itself at depth zero. -/
def parts (node : ClarityValue) : List (Nat × ClarityValue) :=
  partsFrom 0 node

end ClarityWire.ClarityValue
