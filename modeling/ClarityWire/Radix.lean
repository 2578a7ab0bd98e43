/-!
# Positional numerals

Digit lists, least significant digit first. `digits` writes a number without a leading zero digit,
so that zero has no digits at all, and `mulAdd` multiplies a numeral and adds to it in place, one
digit at a time, the way it is done on paper. Which digit a character stands for is looked up in a
table by its code.
-/

namespace ClarityWire.Radix

/-- The number a digit list denotes. -/
def value (base : Nat) : List Nat → Nat
  | [] => 0
  | d :: ds => d + base * value base ds

/-- The digits of a number. A base below two has no digits. -/
def digits (base n : Nat) : List Nat :=
  if 1 < base ∧ 0 < n then n % base :: digits base (n / base) else []
termination_by n
decreasing_by exact Nat.div_lt_self (by omega) (by omega)

/-- The digits of `factor` times a number plus `carry`, from the digits of the number. -/
def mulAdd (base factor : Nat) : List Nat → (carry : Nat) → List Nat
  | [], carry => digits base carry
  | d :: ds, carry =>
    let sum := carry + d * factor
    sum % base :: mulAdd base factor ds (sum / base)

/-- Rewrites a numeral in another base: `numerals` are its digits in base `base`, most significant
first, and the result has them in base `newBase`, least significant first. -/
def convert (base newBase : Nat) (numerals : List Nat) : List Nat :=
  numerals.foldl (fun ds d => mulAdd newBase base ds d) []

/-- The digits that the characters of ASCII stand for, by their codes. -/
abbrev DigitTable :=
  Vector (Option Nat) 128

namespace DigitTable

/-- The table of some characters with their digits. A later entry replaces an earlier one. -/
def ofEntries (entries : List (Char × Nat)) : DigitTable :=
  entries.foldl (fun table entry => table.setIfInBounds entry.1.toNat (some entry.2))
    (Vector.replicate 128 none)

/-- The digit of a character. -/
def digit? (table : DigitTable) (c : Char) : Option Nat :=
  table[c.toNat]?.join

end DigitTable

end ClarityWire.Radix
