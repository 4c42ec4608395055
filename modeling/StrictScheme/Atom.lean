/-
# What a token stands for

A token is a truth value (`#t`, `#f`), a number (a decimal literal), or else a
name. Every text at all has exactly one of the three meanings, so evaluation and
the binding forms can never disagree about what a name is.

A source text is held to more: a token that starts like a literal has to be one.
-/

import StrictScheme.Number

namespace StrictScheme

/-- The written form of a truth value. -/
def printBoolean (b : Bool) : String :=
  if b then "#t" else "#f"

/-- The meaning of a token. -/
inductive Atom where
  | boolean (b : Bool)
  | number (n : Number)
  | identifier (name : String)
deriving DecidableEq, Repr

namespace Atom

/-- The meaning of a token: truth values first, then decimal literals, and all else is a name. -/
def ofToken (token : String) : Atom :=
  if token = printBoolean true then .boolean true
  else if token = printBoolean false then .boolean false
  else match Number.read? token with
    | some n => .number n
    | none => .identifier token

/-! ### Tokens that look like literals -/

/-- Why a token is refused in a source text. -/
inductive Refusal where
  /-- It starts with `#` and is no truth value. -/
  | unknownLiteral
  /-- It starts like a number and is none. -/
  | invalidNumber
deriving DecidableEq, Repr

/-- The wording of a refusal. -/
def Refusal.message : Refusal → String
  | .unknownLiteral => "Unknown literal (only #t and #f are supported)"
  | .invalidNumber => "Invalid number literal (expected a 64-bit decimal integer)"

/-- Whether a token starts like a number: with a digit, or with a sign and a digit. -/
def looksNumeric : List Char → Bool
  | '+' :: c :: _ => c.isDigit
  | '-' :: c :: _ => c.isDigit
  | c :: _ => c.isDigit
  | [] => false

/-- Whether a token starts like a literal that is no number. -/
def looksSpecial (token : List Char) : Bool :=
  token.head? == some '#'

/-- The reason to refuse a token in a source text, if there is one. -/
def refusal? (token : String) : Option Refusal :=
  if looksSpecial token.toList ∧ token ≠ printBoolean true ∧ token ≠ printBoolean false then
    some .unknownLiteral
  else if looksNumeric token.toList ∧ (Number.read? token).isNone then some .invalidNumber
  else none

end Atom

end StrictScheme
