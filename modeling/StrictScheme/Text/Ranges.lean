/-
# Ranges of code points

A property of characters is a list of closed ranges of code points, in order.
-/

namespace StrictScheme
namespace Text

/-- A set of code points, as closed ranges. -/
structure Ranges where
  bounds : List (Nat × Nat)
deriving DecidableEq, Repr

/-- Whether a code point is in one of the ranges. -/
def Ranges.contains (ranges : Ranges) (code : Nat) : Bool :=
  ranges.bounds.any fun (low, high) => low ≤ code && code ≤ high

end Text
end StrictScheme
