/-
# Errors about the number of arguments

The number of arguments is looked at in several places.  A builtin has the arity that it was
registered with, and the primitive procedure behind it has its own, which may be another.  A
user procedure takes as many arguments as it has parameters.  And the special forms look at
their operands twice, once before they are carried out and once while they are.

All of them tell the truth: the arity in the error does not accept the number in the error,
however deep inside an evaluation it arose (`eval_failsWith`).  And no call gets past them.
Once the operator and the operands are evaluated, a procedure that does not accept that many
is refused under its own name, before anything else happens (`eval_refused`).
-/

import StrictScheme.Proofs.Eval.Height
import StrictScheme.Proofs.Table

namespace StrictScheme

variable {α β : Type} {limit : UInt64} {fuel : Nat} {s : ScopeId} {store middle after : Store}

/-! ### Calls -/

/-- The arity of a procedure: the one a builtin was registered with, or the number of
parameters. -/
def Value.procedureArity? : Value → Option Arity
  | .builtin b => some b.arity
  | .procedure p => some (.exactly p.params.length)
  | _ => none

/-- **All of some trees have a value**: evaluated from left to right, they leave `after`. -/
inductive AllEvaluate (eval : SExpr → Action Value) : Store → List SExpr → Store → Prop
  | nil (store : Store) : AllEvaluate eval store [] store
  | cons {store middle after : Store} {first : SExpr} {rest : List SExpr} {v : Value} :
      eval first store = .ok v middle → AllEvaluate eval middle rest after →
      AllEvaluate eval store (first :: rest) after

/-- There is one argument for each operand. -/
theorem AllEvaluate.exists_evalOperands {eval : SExpr → Action Value} {operands : List SExpr}
    (h : AllEvaluate eval store operands after) :
    ∃ args, evalOperands eval operands store = .ok args after ∧ args.length = operands.length := by
  induction h with
  | nil store => exact ⟨[], rfl, rfl⟩
  | @cons store middle after first rest v hfirst _ ih =>
    obtain ⟨args, hrest, hlength⟩ := ih
    refine ⟨v :: args, ?_, congrArg (· + 1) hlength⟩
    exact Action.bind_eq_ok.2 ⟨v, middle, hfirst, Action.bind_eq_ok.2 ⟨args, after, hrest, rfl⟩⟩

/-- An action goes on from where the one before it succeeds. -/
theorem Action.bind_of_eq_ok {x : Action α} {f : α → Action β} {a : α}
    (h : x store = .ok a middle) : (x >>= f) store = f a middle := by
  simp only [Bind.bind, EStateM.bind, h]

/-- A number of arguments that is not accepted is refused. -/
theorem Arity.validate_of_not_accepts {arity : Arity} {count : Nat}
    (h : arity.accepts count = false) (procedure : String) :
    arity.validate procedure count = .error (.arityMismatch procedure arity count) :=
  if_neg (Bool.eq_false_iff.1 h)

/-- **A call with a number of arguments that the procedure does not accept is refused** as soon as
its parts are evaluated. -/
theorem eval_refused {head : SExpr} {operands : List SExpr} {f : Value} {name : String}
    {arity : Arity} (hcall : head.specialForm? = none)
    (hhead : eval limit fuel s head store = .ok f middle) (hname : f.procedureName? = some name)
    (harity : f.procedureArity? = some arity)
    (hoperands : AllEvaluate (eval limit fuel s) middle operands after)
    (hcount : arity.accepts operands.length = false) :
    eval limit (fuel + 1) s (.list (head :: operands)) store =
      .error (.arityMismatch name arity operands.length) after := by
  obtain ⟨args, hargs, hlength⟩ := hoperands.exists_evalOperands
  rw [← hlength] at hcount ⊢
  rw [eval, hcall]
  refine (Action.bind_of_eq_ok hhead).trans ?_
  cases f with
  | number | boolean => cases hname
  | builtin b =>
    obtain rfl := Option.some.inj hname
    obtain rfl := Option.some.inj harity
    refine (Action.bind_of_eq_ok hargs).trans ?_
    rw [Builtin.call, Arity.validate_of_not_accepts hcount]
    rfl
  | procedure p =>
    obtain rfl := Option.some.inj hname
    obtain rfl := Option.some.inj harity
    refine (Action.bind_of_eq_ok hargs).trans ?_
    rw [enter, Arity.validate_of_not_accepts hcount]
    rfl

/-! ### Builtins of a global scope -/

/-- A global scope has the primitive procedures with their own arities. -/
theorem eq_builtin_of_globalBindings {name : String} {b : Builtin}
    (h : globalBindings.get? name = some (.builtin b)) : b = b.operation.builtin := by
  have hmem := Table.mem_of_mem_values_insertAll (Table.mem_values_of_get? h)
  obtain ⟨op, -, hop⟩ := List.mem_map.1 hmem
  cases hop
  rfl

/-! ### Errors -/

/-- **Complaints about the number of arguments are justified**: the arity that is named does not
accept the number that is named. -/
def Action.ComplainsRightly (x : Action Value) : Prop :=
  ∀ store procedure expected got after,
    x store = .error (.arityMismatch procedure expected got) after → expected.accepts got = false

/-- Ordinary errors are right about the number of arguments, and so is one about levels. -/
theorem Action.complainsRightly_of_failsWith {x : Action Value}
    (h : x.FailsWith fun e => e.IsOrdinary ∨ e = .stackExhausted limit) : x.ComplainsRightly := by
  intro store procedure expected got after hx
  rcases h.error_satisfies hx with hordinary | hexhausted
  · exact hordinary
  · cases hexhausted

/-- **Errors about the number of arguments are justified and complete.**  Builtins may have been
registered under any names and with any arities.

Wherever an evaluation or a special form fails with such an error, the arity in it does not
accept the number in it.  A call whose operator is a procedure and whose operands all have
values fails with one unless the procedure accepts that many: it names the procedure, its arity
and the number, and the store is as the last operand left it.  And the primitive procedures that
a global scope binds never complain of a number of arguments that the binding accepts. -/
theorem arity_errors_exact :
    (∀ limit fuel s tree, (eval limit fuel s tree).ComplainsRightly) ∧
    (∀ (form : SpecialForm) depth s operands, (form.runAt depth s operands).ComplainsRightly) ∧
    (∀ limit fuel s head operands store middle after f name arity,
      head.specialForm? = none → eval limit fuel s head store = .ok f middle →
      f.procedureName? = some name → f.procedureArity? = some arity →
      AllEvaluate (eval limit fuel s) middle operands after →
      arity.accepts operands.length = false →
      eval limit (fuel + 1) s (.list (head :: operands)) store =
        .error (.arityMismatch name arity operands.length) after) ∧
    ∀ name b args, globalBindings.get? name = some (.builtin b) →
      b.arity.accepts args.length = true →
      ∀ procedure expected got,
        b.operation.run args ≠ .error (.arityMismatch procedure expected got) := by
  refine ⟨fun limit fuel s tree => ?_, fun form depth s operands => ?_, ?_, ?_⟩
  · exact Action.complainsRightly_of_failsWith (eval_failsWith limit fuel s tree)
  · have hfails : (form.runAt depth s operands).FailsWith
        fun e => e.IsOrdinary ∨ e = .stackExhausted depth.limit :=
      form.run_failsWith (eval_failsWith depth.limit _ s) (fun _ => .inl) s operands
    exact Action.complainsRightly_of_failsWith hfails
  · intro limit fuel s head operands store middle after f name arity
    exact eval_refused
  · intro name b args hbound haccepts procedure expected got hrun
    rw [eq_builtin_of_globalBindings hbound] at haccepts
    cases (b.operation.run_failsWith args).error_satisfies hrun with
    | count hcount =>
      -- the arity of the binding is that of the primitive procedure
      exact Bool.false_ne_true (hcount.symm.trans haccepts)

/-- Addition under another name, declared to take no arguments.  With none it is let through and
complains itself, with two it is refused, and what its second operand defined is there. -/
theorem misdeclared_arity_errors_exact :
    let plus := Value.builtin ⟨"plus", .exactly 0, .add⟩
    let store := (({} : Store).newScope none (globalBindings.insert "plus" plus)).2
    let definition := SExpr.list [.atom "define", .atom "x", .atom "2"]
    (∃ procedure expected got,
      evaluate 9 0 (.list [.atom "plus"]) store =
        .error (.arityMismatch procedure expected got) store ∧ expected.accepts got = false) ∧
      evaluate 9 0 (.list [.atom "plus", .atom "1", definition]) store =
        .error (.arityMismatch "plus" (.exactly 0) 2) (store.bind 0 "x" (.number 2)) ∧
      ∀ v w procedure expected got,
        Primitive.less.run [v, w] ≠ .error (.arityMismatch procedure expected got) := by
  intro plus store definition
  obtain ⟨hright, -, hrefused, hnative⟩ := arity_errors_exact
  have hnone : evaluate 9 0 (.list [.atom "plus"]) store =
      .error (.arityMismatch "+" (.atLeast 2) 0) store := by rfl
  have hoperands : AllEvaluate (eval 9 8 0) store [.atom "1", definition]
      (store.bind 0 "x" (.number 2)) :=
    .cons (v := .number 1) rfl (.cons (v := .number 2) rfl (.nil _))
  refine ⟨⟨_, _, _, hnone, hright 9 9 0 _ _ _ _ _ _ hnone⟩, ?_, fun v w => ?_⟩
  · exact hrefused 9 8 0 (.atom "plus") _ _ _ _ plus "plus" (.exactly 0) rfl rfl rfl rfl
      hoperands rfl
  · exact hnative "<" Primitive.less.builtin [v, w] (by decide) rfl

end StrictScheme
