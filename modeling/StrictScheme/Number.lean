/-
# Numbers

A number is a signed 64-bit integer. Arithmetic is exact or fails: a result is
first computed over all integers, and `Number.ofInt?` accepts it when it fits.

A decimal literal is an optional sign and one or more of the digits `0` to `9`,
with any number of leading zeros, whose value fits.
-/

namespace StrictScheme

/-- A signed 64-bit integer. -/
abbrev Number := Int64

namespace Number

/-- The number with a given value, if there is one. -/
def ofInt? (i : Int) : Option Number :=
  if Int64.minValue.toInt ≤ i ∧ i ≤ Int64.maxValue.toInt then some (Int64.ofInt i) else none

/-- The written form: a minus sign before a negative number, then digits with no leading zero. -/
def print (n : Number) : String :=
  toString n.toInt

/-- The value of a non-empty sequence of decimal digits. -/
def magnitude? (digits : List Char) : Option Nat :=
  if digits ≠ [] ∧ digits.all Char.isDigit then some (Nat.ofDigitChars 10 digits 0) else none

/-- The value of a decimal literal over all integers, whatever its size. -/
def literalValue? : List Char → Option Int
  | '+' :: digits => (magnitude? digits).map Int.ofNat
  | '-' :: digits => (magnitude? digits).map fun n => -Int.ofNat n
  | digits => (magnitude? digits).map Int.ofNat

/-- The number that a token denotes as a decimal literal. -/
def read? (token : String) : Option Number :=
  (literalValue? token.toList).bind ofInt?

end Number

end StrictScheme
