/-
# Errors

Everything that can go wrong, as data. A text that cannot be read gives a
`SyntaxError`, which says what kind of fault it is, shows an excerpt around the
offending place and names what was found there. Evaluation fails with one of the
other causes. `Error.message` is the only place where their wording is fixed.
-/

import StrictScheme.Arity
import StrictScheme.Text.Excerpt

namespace StrictScheme

/-! ### Texts that cannot be read -/

/-- What is wrong with a text that is not one complete expression. -/
inductive SyntaxError.Kind where
  /-- A closing parenthesis that no list is open for. -/
  | unmatchedClose
  /-- The text ends while lists are open. -/
  | unclosed
  /-- The text has no expression in it. -/
  | empty
  /-- Something follows a complete expression. -/
  | trailingContent
  /-- A token that looks like a literal and is none. -/
  | malformedAtom
  /-- Lists nested too deep. -/
  | tooDeeplyNested
deriving DecidableEq, Repr, Inhabited

/-- A fault in a source text. -/
structure SyntaxError where
  kind : SyntaxError.Kind
  message : String
  /-- An excerpt around the fault. -/
  context : Option String := none
  /-- The offending part of the text. -/
  found : Option String := none
deriving DecidableEq, Repr, Inhabited

namespace SyntaxError

/-- A fault at the character position `position` of `text`. -/
def locate (kind : Kind) (message text : String) (position : Nat) (found : Option String) :
    SyntaxError :=
  { kind, message, context := some (Text.excerpt text position), found }

/-- The wording of a fault: what it is, what was found, and where. -/
def print (e : SyntaxError) : String :=
  "SyntaxError: " ++ e.message ++
    (match e.found with
      | some found => "\nFound: " ++ found
      | none => "") ++
    (match e.context with
      | some context => "\nContext: " ++ context
      | none => "")

end SyntaxError

/-! ### Causes of failure -/

/-- Why reading or evaluating an expression failed. -/
inductive Error where
  /-- The text is not one complete expression. -/
  | unreadable (fault : SyntaxError)
  /-- A name was evaluated that no enclosing scope binds. -/
  | unknownIdentifier (name : String)
  /-- A name was to be set that no enclosing scope binds. -/
  | undefinedVariable (name : String)
  /-- A name was to be defined that its scope binds already. -/
  | duplicateDefinition (name : String)
  /-- The operator of an application is no procedure; its written form is kept. -/
  | notAProcedure (value : String)
  /-- A call with a number of arguments that the procedure does not accept. -/
  | arityMismatch (procedure : String) (expected : Arity) (got : Nat)
  /-- A value of the wrong kind, or a tree in the place of a name. -/
  | typeMismatch (explanation : String)
  /-- The empty list was evaluated. -/
  | emptyExpression
  /-- Evaluations are nested to the limit. -/
  | stackExhausted (limit : UInt64)
  /-- A result that is no 64-bit integer, or a division by zero. -/
  | arithmetic (explanation : String)
deriving DecidableEq, Repr, Inhabited

namespace Error

/-- The wording of each cause. -/
def message : Error → String
  | .unreadable fault => fault.print
  | .unknownIdentifier name => "Unknown identifier: " ++ name
  | .undefinedVariable name =>
    "Undefined variable: cannot set! " ++ name ++ " before it is defined"
  | .duplicateDefinition name =>
    "Duplicate definition: " ++ name ++ " is already bound in this scope"
  | .notAProcedure value => "Not a procedure: " ++ value
  | .arityMismatch procedure expected got =>
    "ArityError: " ++ procedure ++ " expected " ++ expected.print ++ " arguments, got " ++
      toString got
  | .typeMismatch explanation => "Type error: " ++ explanation
  | .emptyExpression => "Cannot evaluate empty expression ()"
  | .stackExhausted limit =>
    "Stack exhausted: evaluation deeper than " ++ toString limit.toNat ++ " levels"
  | .arithmetic explanation => "Arithmetic error: " ++ explanation

end Error

/-- A call of the named procedure is accepted only with a number of arguments that its arity
allows. -/
def Arity.validate (arity : Arity) (procedure : String) (count : Nat) : Except Error Unit :=
  if arity.accepts count then .ok () else .error (.arityMismatch procedure arity count)

end StrictScheme
