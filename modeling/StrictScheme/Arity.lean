/-
# Arity

How many arguments an operation accepts: a fixed number, or any number from a
minimum on.
-/

namespace StrictScheme

/-- The argument counts that an operation accepts. -/
inductive Arity where
  | exactly (count : Nat)
  | atLeast (count : Nat)
deriving DecidableEq, Repr, Inhabited

namespace Arity

/-- Whether a call with `count` arguments is acceptable. -/
def accepts : Arity → (count : Nat) → Bool
  | .exactly n, count => count == n
  | .atLeast n, count => n ≤ count

/-- The wording used in messages. -/
def print : Arity → String
  | .exactly n => toString n
  | .atLeast n => "at least " ++ toString n

end Arity

end StrictScheme
