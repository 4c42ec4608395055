/-
# Values

A value is a number, a truth value, or a procedure. Procedures come in two kinds.
A builtin is a primitive procedure under the name and the arity it was registered
with. A user procedure is made by a definition: it keeps its name, parameters and
body, and the scope in which it was defined.

Numbers and truth values are equal when they are the same, builtins when they go
by the same name. Each user procedure is an individual: it has a serial number,
and two of them are equal only if they are one and the same.
-/

import StrictScheme.Atom
import StrictScheme.Error
import StrictScheme.Primitive
import StrictScheme.SExpr.Basic

namespace StrictScheme

/-- The number of a scope in its store. -/
abbrev ScopeId := Nat

/-- The serial number of a user procedure. -/
abbrev ProcedureId := Nat

/-- A primitive procedure as it was registered. -/
structure Builtin where
  name : String
  arity : Arity
  operation : Primitive
deriving DecidableEq, Repr, Inhabited

/-- A procedure made by a definition. -/
structure Procedure where
  id : ProcedureId
  name : String
  params : List String
  body : SExpr
  /-- The scope in which it was defined. -/
  scope : ScopeId
deriving DecidableEq, Repr, Inhabited

/-- What an expression evaluates to. -/
inductive Value where
  | number (n : Number)
  | boolean (b : Bool)
  | builtin (b : Builtin)
  | procedure (p : Procedure)
deriving DecidableEq, Repr

/-- A primitive procedure under its own name and arity. -/
def Primitive.builtin (p : Primitive) : Builtin :=
  ⟨p.name, p.arity, p⟩

/-- The written form of a user procedure. -/
def Procedure.print (p : Procedure) : String :=
  "#<procedure " ++ p.name ++ " (" ++ " ".intercalate p.params ++ ") " ++ p.body.print ++ ">"

namespace Value

/-- The name of a value's kind. -/
def kind : Value → String
  | .number _ => "number"
  | .boolean _ => "boolean"
  | .builtin _ => "builtin"
  | .procedure _ => "procedure"

/-- The written form of a value. -/
def print : Value → String
  | .number n => n.print
  | .boolean b => printBoolean b
  | .builtin b => "#<builtin:" ++ b.name ++ ">"
  | .procedure p => p.print

/-- A value as error messages describe it. -/
def describe (v : Value) : String :=
  v.kind ++ " " ++ v.print

/-- Whether two values are equal as far as a program can tell. -/
def equal : Value → Value → Bool
  | .number m, .number n => m == n
  | .boolean a, .boolean b => a == b
  | .builtin a, .builtin b => a.name == b.name
  | .procedure p, .procedure q => p.id == q.id
  | _, _ => false

/-- The name of a procedure of either kind. -/
def procedureName? : Value → Option String
  | .builtin b => some b.name
  | .procedure p => some p.name
  | _ => none

/-- The user procedure that a value is. -/
def procedure? : Value → Option Procedure
  | .procedure p => some p
  | _ => none

/-- The number that a value is; `demand` says who asks for it. -/
def asNumber (demand : String) : Value → Except Error Number
  | .number n => .ok n
  | v => .error (.typeMismatch (demand ++ ", found " ++ v.describe))

/-- The truth value that a value is; `demand` says who asks for it. -/
def asBoolean (demand : String) : Value → Except Error Bool
  | .boolean b => .ok b
  | v => .error (.typeMismatch (demand ++ ", found " ++ v.describe))

/-- The number that a value is, for a caller outside the language. -/
def toNumber (v : Value) : Except Error Number :=
  v.asNumber "expected number"

/-- The truth value that a value is, for a caller outside the language. -/
def toBoolean (v : Value) : Except Error Bool :=
  v.asBoolean "expected boolean"

end Value

end StrictScheme
