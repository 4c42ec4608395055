/-
# Evaluation

A truth value and a number evaluate to themselves, a name to the nearest binding.
A list is a special form if a keyword stands in front, and otherwise a call:
the operator is evaluated and has to be a procedure, then the operands are, from
left to right, and then the procedure is applied. The body of a user procedure is
evaluated in a new scope, inside the scope in which the procedure was defined.

Every evaluation inside another counts one level, and `limit` levels are allowed.
`eval` recurses on the number of levels that are left.
-/

import StrictScheme.Builtin
import StrictScheme.Operation
import StrictScheme.Store.Basic

namespace StrictScheme

/-- How deep an evaluation is nested, and how deep it may be. -/
structure Depth where
  current : UInt64
  limit : UInt64
deriving DecidableEq, Repr

namespace Depth

/-- The depth of an evaluation directly inside this one; the count wraps as 64-bit words do. -/
def deeper (d : Depth) : Depth :=
  { d with current := d.current + 1 }

/-- How many levels are left. -/
def remaining (d : Depth) : Nat :=
  d.limit.toNat - d.current.toNat

end Depth

/-! ### Names in binding positions -/

/-- The name that a special form asks for: an atom that is no literal. -/
def SpecialForm.identifier (form : SpecialForm) (tree : SExpr) : Except Error String :=
  let refuse := .error <| .typeMismatch <|
    form.keyword ++ " requires an identifier, found " ++ tree.print
  match tree with
  | .atom token =>
    match Atom.ofToken token with
    | .identifier name => .ok name
    | _ => refuse
  | .list _ => refuse

/-- The parameters of a definition, which have to be different names. -/
def SpecialForm.parameters (form : SpecialForm) : (seen : List String) → List SExpr →
    Except Error (List String)
  | seen, [] => .ok seen.reverse
  | seen, tree :: rest => do
    let name ← form.identifier tree
    if name ∈ seen then throw (.duplicateDefinition name)
    form.parameters (name :: seen) rest

/-! ### Special forms -/

/-- Defines a procedure from its signature, a name followed by parameters, and its body. -/
def defineProcedure (scope : ScopeId) (signature : List SExpr) (body : SExpr) :
    Action Value := do
  match signature with
  | [] => throw (.typeMismatch "define requires a procedure name, found ()")
  | nameTree :: paramTrees =>
    let name ← .ofExcept (SpecialForm.define.identifier nameTree)
    let params ← .ofExcept (SpecialForm.define.parameters [] paramTrees)
    if (← get).bindsLocally scope name then throw (.duplicateDefinition name)
    let p ← modifyGet (·.newProcedure name params body scope)
    modify (·.bind scope name (.procedure p))
    return .procedure p

/-- Runs a special form on its operands; `eval` evaluates an operand in the same scope. -/
def SpecialForm.run (form : SpecialForm) (eval : SExpr → Action Value) (scope : ScopeId)
    (operands : List SExpr) : Action Value := do
  match form, operands with
  | .define, [.list signature, body] => defineProcedure scope signature body
  | .define, [target, expr] =>
    let name ← .ofExcept (form.identifier target)
    let v ← eval expr
    Action.define scope name v
    return v
  | .set, [target, expr] =>
    let name ← .ofExcept (form.identifier target)
    let v ← eval expr
    Action.assign scope name v
    return v
  | _, _ => throw (.arityMismatch form.keyword form.arity operands.length)

/-- The special form that a list with this first element is. -/
def SExpr.specialForm? : SExpr → Option SpecialForm
  | .atom token => SpecialForm.ofKeyword? token
  | .list _ => none

/-! ### The evaluator -/

/-- The value of a token in a scope. -/
def evalAtom (scope : ScopeId) (token : String) : Action Value := do
  match Atom.ofToken token with
  | .boolean b => return .boolean b
  | .number n => return .number n
  | .identifier name =>
    match (← get).lookup scope name with
    | some v => return v
    | none => throw (.unknownIdentifier name)

/-- The values of operands, from left to right. -/
def evalOperands (eval : SExpr → Action Value) : List SExpr → Action (List Value)
  | [] => return []
  | first :: rest => do
    let v ← eval first
    let vs ← evalOperands eval rest
    return v :: vs

/-- Makes the scope for a call of a user procedure, with the arguments bound. -/
def enter (p : Procedure) (args : List Value) : Action ScopeId := do
  .ofExcept ((Arity.exactly p.params.length).validate p.name args.length)
  modifyGet (·.newScope (some p.scope) (({} : Table Value).insertAll p.params args))

/-- Evaluates a tree in a scope with `fuel` levels left. -/
def eval (limit : UInt64) : (fuel : Nat) → ScopeId → SExpr → Action Value
  | 0, _, _ => throw (.stackExhausted limit)
  | _ + 1, scope, .atom token => evalAtom scope token
  | _ + 1, _, .list [] => throw .emptyExpression
  | fuel + 1, scope, .list (head :: operands) => do
    match head.specialForm? with
    | some form =>
      .ofExcept (form.arity.validate form.keyword operands.length)
      form.run (eval limit fuel scope) scope operands
    | none =>
      match ← eval limit fuel scope head with
      | .builtin b =>
        let args ← evalOperands (eval limit fuel scope) operands
        .ofExcept (b.call args)
      | .procedure p =>
        let args ← evalOperands (eval limit fuel scope) operands
        let inner ← enter p args
        eval limit fuel inner p.body
      | v => throw (.notAProcedure v.print)

/-- Evaluates a tree in a scope, with `limit` levels. -/
def evaluate (limit : UInt64) (scope : ScopeId) (tree : SExpr) : Action Value :=
  eval limit limit.toNat scope tree

/-- Runs a special form as if it stood at the given depth. -/
def SpecialForm.runAt (form : SpecialForm) (depth : Depth) (scope : ScopeId)
    (operands : List SExpr) : Action Value :=
  form.run (eval depth.limit depth.deeper.remaining scope) scope operands

end StrictScheme
