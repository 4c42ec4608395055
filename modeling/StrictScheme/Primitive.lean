/-
# Primitive procedures

The ten procedures that every program starts with, each with the name it goes by
and the number of arguments it takes.

| procedures | arguments |
| --- | --- |
| `+` `-` `*` `/` `=` `and` `or` | at least two |
| `<` `>` | two |
| `not` | one |
-/

import StrictScheme.Arity

namespace StrictScheme

/-- A procedure that is part of the language. -/
inductive Primitive where
  | add
  | subtract
  | multiply
  | divide
  | equal
  | less
  | greater
  | and
  | or
  | not
deriving DecidableEq, Repr, Inhabited

namespace Primitive

/-- All primitive procedures, in the order in which they are listed. -/
def all : List Primitive :=
  [.add, .subtract, .multiply, .divide, .equal, .less, .greater, .and, .or, .not]

/-- The name of a primitive procedure, which its own error messages use. -/
def name : Primitive → String
  | .add => "+"
  | .subtract => "-"
  | .multiply => "*"
  | .divide => "/"
  | .equal => "="
  | .less => "<"
  | .greater => ">"
  | .and => "and"
  | .or => "or"
  | .not => "not"

/-- The number of arguments that a primitive procedure takes. -/
def arity : Primitive → Arity
  | .less | .greater => .exactly 2
  | .not => .exactly 1
  | _ => .atLeast 2

end Primitive

end StrictScheme
