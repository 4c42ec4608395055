/-
# The operations of the language

The names that mean something before a program has defined any: ten primitive
procedures, which are ordinary values, and two special forms, which get their
operands unevaluated and are recognised by the keyword in front.
-/

import StrictScheme.Primitive

namespace StrictScheme

/-- A form that gets its operands unevaluated. -/
inductive SpecialForm where
  | define
  | set
deriving DecidableEq, Repr, Inhabited

/-- The word that introduces a special form. -/
def SpecialForm.keyword : SpecialForm → String
  | .define => "define"
  | .set => "set!"

/-- The number of operands that a special form takes. -/
def SpecialForm.arity : SpecialForm → Arity
  | .define | .set => .exactly 2

/-- The special form that a word introduces. -/
def SpecialForm.ofKeyword? (word : String) : Option SpecialForm :=
  [SpecialForm.define, SpecialForm.set].find? (·.keyword == word)

/-- An operation of the language. -/
inductive Operation where
  | primitive (p : Primitive)
  | form (f : SpecialForm)
deriving DecidableEq, Repr

namespace Operation

/-- The name of an operation. -/
def name : Operation → String
  | .primitive p => p.name
  | .form f => f.keyword

/-- The number of arguments or operands that an operation takes. -/
def arity : Operation → Arity
  | .primitive p => p.arity
  | .form f => f.arity

/-- Whether an operation gets its operands unevaluated. -/
def isSpecial : Operation → Bool
  | .primitive _ => false
  | .form _ => true

/-- All operations, in the order in which they are listed. -/
def all : List Operation :=
  Primitive.all.map .primitive ++ [.form .define, .form .set]

/-- The operation with a given name. -/
def find? (name : String) : Option Operation :=
  all.find? (·.name == name)

end Operation

end StrictScheme
