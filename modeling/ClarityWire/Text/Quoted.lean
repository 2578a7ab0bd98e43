import ClarityWire.Text.Unprintable

/-!
# Quoted text

Error messages show the offending character or name between quotes. The delimiting quote and the
backslash are escaped, `NUL`, tab, return and newline have short escapes, and any other character
that does not show is spelled by its code point, in hexadecimal between braces. All else stands
for itself; in particular the quote that does not delimit is not escaped.
-/

namespace ClarityWire.Text

/-- The spelling of one character between quotes. -/
def escape (quote c : Char) : List Char :=
  if c = '\x00' then ['\\', '0']
  else if c = '\t' then ['\\', 't']
  else if c = '\r' then ['\\', 'r']
  else if c = '\n' then ['\\', 'n']
  else if c = '\\' then ['\\', '\\']
  else if c = quote then ['\\', quote]
  else if isUnprintable c then
    ['\\', 'u', '\x7b'] ++ Nat.toDigits 16 c.toNat ++ ['\x7d']
  else [c]

/-- A character between single quotes. -/
def quoteChar (c : Char) : String :=
  String.ofList ('\'' :: escape '\'' c ++ ['\''])

/-- A string between double quotes. -/
def quoteString (text : String) : String :=
  String.ofList ('"' :: text.toList.flatMap (escape '"') ++ ['"'])

end ClarityWire.Text
