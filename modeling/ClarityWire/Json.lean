/-!
# JSON values

The values of JSON without fractional numbers, which nothing here reads or writes. The members of
an object are listed in no particular order.
-/

namespace ClarityWire

inductive Json where
  | null
  | bool (value : Bool)
  | number (value : Int)
  | string (text : String)
  | array (items : List Json)
  | object (members : List (String × Json))

/-- How an error message speaks of a value that is not of the kind expected. -/
def Json.describe : Json → String
  | .null => "null"
  | .bool value => "boolean `" ++ toString value ++ "`"
  | .number value => "integer `" ++ toString value ++ "`"
  | .string text => "string \"" ++ text ++ "\""
  | .array _ => "sequence"
  | .object _ => "map"

end ClarityWire
