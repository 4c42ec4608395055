/-
# What the primitive procedures compute

Arithmetic folds its arguments from the left, each step over all integers, and
fails at the first step whose result does not fit 64 bits. Division truncates
toward zero, and a zero divisor is noticed first. Equality compares neighbours
and accepts values of any kind. `and` and `or` look at all their arguments, also
when the first ones decide the outcome.

A primitive procedure can be run on any number of arguments; one that has no
answer for a number of arguments reports it under its own name.
-/

import StrictScheme.Value

namespace StrictScheme
namespace Primitive

/-- The number that an argument of arithmetic or comparison has to be. -/
def operand (op : Primitive) (v : Value) : Except Error Number :=
  v.asNumber (op.name ++ " requires numbers")

/-- The truth value that an argument of a logical procedure has to be. -/
def condition (op : Primitive) (v : Value) : Except Error Bool :=
  v.asBoolean (op.name ++ " requires boolean arguments (no truthiness)")

/-- An exact result, which has to fit 64 bits. -/
def fitting (what : String) (exact : Int) : Except Error Number :=
  match Number.ofInt? exact with
  | some n => .ok n
  | none => .error (.arithmetic ("integer overflow in " ++ what))

/-- One step of division, toward zero. -/
def quotient (a b : Number) : Except Error Number :=
  if b = 0 then .error (.arithmetic "division by zero")
  else fitting "division" (a.toInt.tdiv b.toInt)

/-- A left fold over numbers, which starts from the first argument. -/
def fold (op : Primitive) (step : Number → Number → Except Error Number) :
    List Value → Except Error Value
  | [] => .error (.arityMismatch op.name (.atLeast 2) 0)
  | first :: rest => do
    let start ← op.operand first
    let result ← rest.foldlM (fun acc v => do step acc (← op.operand v)) start
    return .number result

/-- A comparison of two numbers. -/
def compare (op : Primitive) (holds : Int → Int → Bool) : List Value → Except Error Value
  | [left, right] => do
    let a ← op.operand left
    let b ← op.operand right
    return .boolean (holds a.toInt b.toInt)
  | args => .error (.arityMismatch op.name (.exactly 2) args.length)

/-- Whether every two neighbours are equal. -/
def neighboursEqual : List Value → Bool
  | a :: b :: rest => a.equal b && neighboursEqual (b :: rest)
  | _ => true

/-- The truth values that the arguments have to be, checked from the left. -/
def conditions (op : Primitive) (args : List Value) : Except Error (List Bool) :=
  args.mapM op.condition

/-- Runs a primitive procedure on its arguments. -/
def run (op : Primitive) (args : List Value) : Except Error Value :=
  match op with
  | .add => op.fold (fun a b => fitting "addition" (a.toInt + b.toInt)) args
  | .subtract => op.fold (fun a b => fitting "subtraction" (a.toInt - b.toInt)) args
  | .multiply => op.fold (fun a b => fitting "multiplication" (a.toInt * b.toInt)) args
  | .divide => op.fold quotient args
  | .equal => .ok (.boolean (neighboursEqual args))
  | .less => op.compare (fun a b => a < b) args
  | .greater => op.compare (fun a b => a > b) args
  | .and => do return .boolean ((← op.conditions args).all id)
  | .or => do return .boolean ((← op.conditions args).any id)
  | .not =>
    match args with
    | [v] => do return .boolean (!(← op.condition v))
    | _ => .error (.arityMismatch op.name (.exactly 1) args.length)

end Primitive

/-- Calls a builtin: the number of arguments is checked first, against the arity it was
registered with and under the name it was registered with. -/
def Builtin.call (b : Builtin) (args : List Value) : Except Error Value := do
  b.arity.validate b.name args.length
  b.operation.run args

end StrictScheme
