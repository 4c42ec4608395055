/-
# Structural forms

Beside its written form, a value, an operation or a scope has a structural form
that spells out how it is built. Texts in it are quoted. A procedure shows its name,
parameters and body but not the scope it was defined in, which would usually lead
back to the procedure itself; a scope shows the names it binds, in order, and the
scopes around it.
-/

import StrictScheme.Operation
import StrictScheme.Store.Listing
import StrictScheme.Text.Quoted

namespace StrictScheme

/-- A form with named fields. -/
def inspectRecord (name : String) (fields : List String) : String :=
  name ++ " \x7b " ++ ", ".intercalate fields ++ " \x7d"

/-- The structural form of an arity. -/
def Arity.inspect : Arity → String
  | .exactly n => "Exact(" ++ toString n ++ ")"
  | .atLeast n => "AtLeast(" ++ toString n ++ ")"

/-- The structural form of an operation of the language. -/
def Operation.inspect (op : Operation) : String :=
  inspectRecord "BuiltinOp"
    ["id: " ++ Text.quoted op.name,
     "op_kind: " ++ (if op.isSpecial then "SpecialForm(<fn>)" else "Function(<fn>)"),
     "arity: " ++ op.arity.inspect]

mutual

/-- The structural form of a tree. -/
def SExpr.inspect : SExpr → String
  | .atom token => "Atom(" ++ Text.quoted token ++ ")"
  | .list elements => "List(" ++ Text.bracketed (SExpr.inspectAll elements) ++ ")"

/-- The structural forms of some trees. -/
def SExpr.inspectAll : List SExpr → List String
  | [] => []
  | e :: es => SExpr.inspect e :: SExpr.inspectAll es

end

/-- The structural form of a user procedure. -/
def Procedure.inspect (p : Procedure) : String :=
  inspectRecord "Lambda"
    ["name: " ++ Text.quoted p.name,
     "params: " ++ Text.bracketed (p.params.map Text.quoted),
     "body: " ++ p.body.inspect,
     ".."]

/-- The structural form of a value. -/
def Value.inspect : Value → String
  | .number n => "Number(" ++ n.print ++ ")"
  | .boolean b => "Bool(" ++ (if b then "true" else "false") ++ ")"
  | .builtin b => "Procedure(Builtin(" ++ b.name ++ ", " ++ b.arity.inspect ++ "))"
  | .procedure p => "Procedure(" ++ p.inspect ++ ")"

/-- The structural form of one scope, from the names it binds and the form of its parent. -/
def inspectScope (names : List String) (parent : String) : String :=
  inspectRecord "Environment"
    ["bindings: " ++ Text.bracketed ((sortNames names).map Text.quoted), "parent: " ++ parent]

/-- The structural form of a scope, given the names it binds and those that each scope around it
binds. -/
def inspectChain : List (List String) → String
  | [] => "None"
  | [names] => inspectScope names "None"
  | names :: outer => inspectScope names ("Some(" ++ inspectChain outer ++ ")")

/-- The structural form of a scope and those around it. -/
def Store.inspect (store : Store) (s : ScopeId) : String :=
  inspectChain ((store.chain s).map fun t => store.namesIn [t])

end StrictScheme
