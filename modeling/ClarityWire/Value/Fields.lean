import ClarityWire.Name

/-!
# Tuple fields

The fields of a tuple in ascending order of their names, each name once. They are built from fields
in any order by inserting one after another; the first field whose name is already there is the one
that is reported.
-/

namespace ClarityWire

/-- Named fields. Those of a tuple are in strictly ascending order of names. -/
abbrev Fields (α : Type) := List (ClarityName × α)

namespace Fields

variable {α : Type}

/-- Puts a field in its place, unless its name is taken. -/
def insert? (name : ClarityName) (value : α) : Fields α → Option (Fields α)
  | [] => some [(name, value)]
  | (key, held) :: rest =>
    match compare name key with
    | .lt => some ((name, value) :: (key, held) :: rest)
    | .eq => none
    | .gt => (insert? name value rest).map ((key, held) :: ·)

/-- Puts fields in their places one after another, and stops at a name that is taken. -/
def insertAll (fields : Fields α) : List (ClarityName × α) → Except ClarityName (Fields α)
  | [] => .ok fields
  | (name, value) :: rest =>
    match insert? name value fields with
    | some fields => insertAll fields rest
    | none => .error name

/-- The fields of a tuple from fields in any order, or the first name that occurs again. -/
def ofList (entries : List (ClarityName × α)) : Except ClarityName (Fields α) :=
  insertAll [] entries

/-- The value of the field with a given name. A text that is no name is no field's. -/
def get? (fields : Fields α) (text : String) : Option α :=
  (fields.find? fun field => field.1.text == text).map (·.2)

end Fields

end ClarityWire
