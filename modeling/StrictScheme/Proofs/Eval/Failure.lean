/-
# How evaluation fails

Some errors are about the text, and some say that the levels of an evaluation ran out.  All
others are ordinary, except that an error about the number of arguments has to be justified:
the arity that it names does not accept the number that it names (`Error.IsOrdinary`).

Whatever evaluates no tree fails with ordinary errors only: the primitive procedures, the
checks of arities and names, and what is done to the store.  A primitive procedure complains
of the number of its arguments only when its own arity refuses it, and then in its own name
(`Primitive.run_failsWith`).

Evaluation is made of these parts, and of evaluations with fewer levels.  So it fails with
ordinary errors, or else because its levels ran out, and then it names the limit that it was
given (`eval_failsWith`).
-/

import Mathlib.Data.List.Basic
import StrictScheme.Eval

namespace StrictScheme

variable {α β : Type} {P Q : Error → Prop}

/-- An error that is neither about a text nor about levels.  One about the number of arguments is
justified. -/
def Error.IsOrdinary : Error → Prop
  | .unreadable _ | .stackExhausted _ => False
  | .arityMismatch _ expected got => expected.accepts got = false
  | _ => True

/-! ### Without the store -/

/-- Every error that a computation without the store fails with satisfies `P`. -/
structure FailsWith (P : Error → Prop) (x : Except Error α) : Prop where
  error_satisfies : ∀ {e}, x = .error e → P e

namespace FailsWith

/-- A computation that succeeds fails with nothing. -/
theorem ok (a : α) : FailsWith P (.ok a) :=
  ⟨nofun⟩

/-- One that fails does so with its error. -/
theorem error {e : Error} (h : P e) : FailsWith P (.error e : Except Error α) :=
  ⟨fun he => Except.error.inj he ▸ h⟩

/-- What holds of all errors may be weakened. -/
theorem mono {x : Except Error α} (h : FailsWith P x) (hPQ : ∀ e, P e → Q e) : FailsWith Q x :=
  ⟨fun he => hPQ _ (h.error_satisfies he)⟩

/-- One computation after the other. -/
theorem bind {x : Except Error α} {f : α → Except Error β} (hx : FailsWith P x)
    (hf : ∀ a, FailsWith P (f a)) : FailsWith P (x >>= f) := by
  cases x with
  | error e => exact error (hx.error_satisfies rfl)
  | ok a => exact hf a

end FailsWith

/-! ### Primitive procedures -/

/-- **Why a call can be refused**: for the kind or the size of a value, or because the arity does
not accept the number of arguments. -/
inductive Error.RefusesCall (procedure : String) (arity : Arity) (count : Nat) : Error → Prop
  | kind (explanation : String) : RefusesCall procedure arity count (.typeMismatch explanation)
  | size (explanation : String) : RefusesCall procedure arity count (.arithmetic explanation)
  | count (h : arity.accepts count = false) :
      RefusesCall procedure arity count (.arityMismatch procedure arity count)

variable {procedure : String} {arity : Arity} {count : Nat}

/-- A refused call is an ordinary error. -/
theorem Error.RefusesCall.isOrdinary {e : Error} (h : e.RefusesCall procedure arity count) :
    e.IsOrdinary := by
  cases h with
  | kind | size => trivial
  | count h => exact h

/-- So a call that fails by being refused has none but ordinary errors. -/
theorem FailsWith.ordinary {x : Except Error α}
    (h : FailsWith (Error.RefusesCall procedure arity count) x) : FailsWith Error.IsOrdinary x :=
  h.mono fun _ he => he.isOrdinary

/-- Checking the number of arguments fails only if it is not accepted. -/
theorem Arity.validate_failsWith (arity : Arity) (procedure : String) (count : Nat) :
    FailsWith (Error.RefusesCall procedure arity count) (arity.validate procedure count) := by
  unfold Arity.validate
  split
  · exact .ok ()
  · next h => exact .error (.count (Bool.eq_false_iff.2 h))

/-- Asking for a number fails for the kind of the value. -/
theorem Value.asNumber_failsWith (demand : String) (v : Value) :
    FailsWith (Error.RefusesCall procedure arity count) (v.asNumber demand) := by
  cases v with
  | number n => exact .ok n
  | boolean | builtin | procedure => exact .error (.kind _)

/-- So does asking for a truth value. -/
theorem Value.asBoolean_failsWith (demand : String) (v : Value) :
    FailsWith (Error.RefusesCall procedure arity count) (v.asBoolean demand) := by
  cases v with
  | boolean b => exact .ok b
  | number | builtin | procedure => exact .error (.kind _)

namespace Primitive

/-- A number fails to fit for its size. -/
theorem fitting_failsWith (what : String) (exact : Int) :
    FailsWith (Error.RefusesCall procedure arity count) (fitting what exact) := by
  unfold fitting
  split
  · exact .ok _
  · exact .error (.size _)

/-- So does a quotient, or for a zero. -/
theorem quotient_failsWith (a b : Number) :
    FailsWith (Error.RefusesCall procedure arity count) (quotient a b) := by
  unfold quotient
  split
  · exact .error (.size _)
  · exact fitting_failsWith ..

/-- The steps of a fold. -/
theorem foldlM_failsWith {op : Primitive} {step : Number → Number → Except Error Number}
    (hstep : ∀ a b, FailsWith (Error.RefusesCall procedure arity count) (step a b))
    (rest : List Value) (start : Number) :
    FailsWith (Error.RefusesCall procedure arity count)
      (rest.foldlM (fun acc v => do step acc (← op.operand v)) start) := by
  induction rest generalizing start with
  | nil => exact .ok start
  | cons v rest ih =>
    rw [List.foldlM_cons]
    exact .bind (.bind (Value.asNumber_failsWith ..) fun n => hstep start n) ih

/-- Arithmetic fails for the kind of an operand, or where one of its steps does. -/
theorem fold_failsWith {op : Primitive} {step : Number → Number → Except Error Number}
    (harity : op.arity = .atLeast 2) {args : List Value}
    (hstep : ∀ a b, FailsWith (Error.RefusesCall op.name op.arity args.length) (step a b)) :
    FailsWith (Error.RefusesCall op.name op.arity args.length) (op.fold step args) := by
  cases args with
  | nil =>
    rw [harity]
    exact .error (.count rfl)
  | cons first rest =>
    refine .bind (Value.asNumber_failsWith ..) fun start => ?_
    exact .bind (foldlM_failsWith hstep rest start) fun _ => .ok _

/-- A comparison fails for the kind of an operand. -/
theorem compare_failsWith {op : Primitive} (harity : op.arity = .exactly 2)
    (holds : Int → Int → Bool) (args : List Value) :
    FailsWith (Error.RefusesCall op.name op.arity args.length) (op.compare holds args) := by
  unfold compare
  split
  · refine .bind (Value.asNumber_failsWith ..) fun a => ?_
    exact .bind (Value.asNumber_failsWith ..) fun b => .ok _
  · next hargs =>
    rw [harity]
    refine .error (.count (beq_eq_false_iff_ne.2 fun hlength => ?_))
    obtain ⟨left, right, rfl⟩ := List.length_eq_two.1 hlength
    exact hargs left right rfl

/-- So do the logical primitives. -/
theorem conditions_failsWith (op : Primitive) (args : List Value) :
    FailsWith (Error.RefusesCall procedure arity count) (op.conditions args) := by
  unfold conditions
  induction args with
  | nil => exact .ok []
  | cons v rest ih =>
    rw [List.mapM_cons]
    exact .bind (Value.asBoolean_failsWith ..) fun b => .bind ih fun bs => .ok _

/-- **A primitive procedure that complains of the number of its arguments** speaks in its own
name, and its own arity does not accept that number. -/
theorem run_failsWith (op : Primitive) (args : List Value) :
    FailsWith (Error.RefusesCall op.name op.arity args.length) (op.run args) := by
  cases op with
  | add | subtract | multiply => exact fold_failsWith rfl fun _ _ => fitting_failsWith ..
  | divide => exact fold_failsWith rfl quotient_failsWith
  | equal => exact .ok _
  | less | greater =>
    unfold run
    exact compare_failsWith (by rfl) _ args
  | and | or => exact .bind (conditions_failsWith ..) fun _ => .ok _
  | not =>
    rcases args with - | ⟨v, - | ⟨w, rest⟩⟩
    · exact .error (.count rfl)
    · exact .bind (Value.asBoolean_failsWith ..) fun _ => .ok _
    · exact .error (.count rfl)

end Primitive

/-- The number of arguments of a builtin is checked against two arities: that of its registration,
and that of the primitive procedure. -/
theorem Builtin.call_failsWith (b : Builtin) (args : List Value) :
    FailsWith Error.IsOrdinary (b.call args) :=
  .bind (Arity.validate_failsWith ..).ordinary fun _ => (b.operation.run_failsWith args).ordinary

/-! ### Names in binding positions -/

namespace SpecialForm

/-- Taking a name from an operand fails with ordinary errors. -/
theorem identifier_failsWith (form : SpecialForm) (tree : SExpr) :
    FailsWith Error.IsOrdinary (form.identifier tree) := by
  unfold identifier
  split
  · split
    · exact .ok _
    · exact .error trivial
  · exact .error trivial

/-- So does taking the parameters. -/
theorem parameters_failsWith (form : SpecialForm) (seen : List String) (trees : List SExpr) :
    FailsWith Error.IsOrdinary (form.parameters seen trees) := by
  induction trees generalizing seen with
  | nil => exact .ok _
  | cons tree rest ih =>
    unfold parameters
    refine .bind (form.identifier_failsWith tree) fun name => ?_
    split
    · exact .error trivial
    · exact ih (name :: seen)

end SpecialForm

/-! ### With the store -/

/-- Every error that a computation fails with satisfies `P`, whatever the store. -/
structure Action.FailsWith (P : Error → Prop) (x : Action α) : Prop where
  error_satisfies : ∀ {store e after}, x store = .error e after → P e

namespace Action.FailsWith

/-- Returning something fails with nothing. -/
theorem pure (a : α) : Action.FailsWith P (Pure.pure a) :=
  ⟨nofun⟩

/-- Failing does so with its error. -/
theorem throw {e : Error} (h : P e) : Action.FailsWith P (MonadExcept.throw e : Action α) :=
  ⟨fun he => (EStateM.Result.error.inj he).1 ▸ h⟩

/-- What holds of all errors may be weakened. -/
theorem mono {x : Action α} (h : Action.FailsWith P x) (hPQ : ∀ e, P e → Q e) :
    Action.FailsWith Q x :=
  ⟨fun he => hPQ _ (h.error_satisfies he)⟩

/-- A computation without the store fails with the same errors as an action. -/
theorem ofExcept {x : Except Error α} (h : StrictScheme.FailsWith P x) :
    Action.FailsWith P (Action.ofExcept x) := by
  cases x with
  | error e => exact throw (h.error_satisfies rfl)
  | ok a => exact pure a

/-- Reading the store. -/
theorem get : Action.FailsWith P (MonadState.get : Action Store) :=
  ⟨nofun⟩

/-- Changing the store and returning something. -/
theorem modifyGet (f : Store → α × Store) :
    Action.FailsWith P (MonadStateOf.modifyGet f : Action α) :=
  ⟨nofun⟩

/-- One computation after the other. -/
theorem bind {x : Action α} {f : α → Action β} (hx : Action.FailsWith P x)
    (hf : ∀ a, Action.FailsWith P (f a)) : Action.FailsWith P (x >>= f) := by
  constructor
  intro store e after
  simp only [Bind.bind, EStateM.bind]
  cases hresult : x store with
  | ok a middle => exact (hf a).error_satisfies
  | error e' middle =>
    intro heq
    exact (EStateM.Result.error.inj heq).1 ▸ hx.error_satisfies hresult

end Action.FailsWith

/-! ### What evaluates no tree -/

/-- A definition fails with ordinary errors. -/
theorem Action.define_failsWith (s : ScopeId) (name : String) (v : Value) :
    Action.FailsWith Error.IsOrdinary (Action.define s name v) := by
  unfold Action.define
  refine .bind .get fun store => ?_
  split
  · exact .bind (.throw trivial) fun _ => .modifyGet _
  · exact .modifyGet _

/-- So does an assignment. -/
theorem Action.assign_failsWith (s : ScopeId) (name : String) (v : Value) :
    Action.FailsWith Error.IsOrdinary (Action.assign s name v) := by
  unfold Action.assign
  refine .bind .get fun store => ?_
  split
  · exact .modifyGet _
  · exact .throw trivial

/-- So does a definition of a procedure. -/
theorem defineProcedure_failsWith (s : ScopeId) (signature : List SExpr) (body : SExpr) :
    Action.FailsWith Error.IsOrdinary (defineProcedure s signature body) := by
  unfold defineProcedure
  split
  · exact .throw trivial
  · refine .bind (.ofExcept (SpecialForm.identifier_failsWith ..)) fun name => ?_
    refine .bind (.ofExcept (SpecialForm.parameters_failsWith ..)) fun params => ?_
    have hmake : Action.FailsWith Error.IsOrdinary (do
        let p ← MonadStateOf.modifyGet (Store.newProcedure · name params body s)
        modify (·.bind s name (.procedure p))
        return Value.procedure p : Action Value) :=
      .bind (.modifyGet _) fun _ => .bind (.modifyGet _) fun _ => .pure _
    refine .bind .get fun store => ?_
    split
    · exact .bind (.throw trivial) fun _ => hmake
    · exact hmake

/-- So does the value of an atom. -/
theorem evalAtom_failsWith (s : ScopeId) (token : String) :
    Action.FailsWith Error.IsOrdinary (evalAtom s token) := by
  unfold evalAtom
  split
  · exact .pure _
  · exact .pure _
  · refine .bind .get fun store => ?_
    split
    · exact .pure _
    · exact .throw trivial

/-- So does entering a call. -/
theorem enter_failsWith (p : Procedure) (args : List Value) :
    Action.FailsWith Error.IsOrdinary (enter p args) :=
  .bind (.ofExcept (Arity.validate_failsWith ..).ordinary) fun _ => .modifyGet _

/-! ### Evaluation -/

/-- Operands fail where one of them does. -/
theorem evalOperands_failsWith {eval : SExpr → Action Value}
    (heval : ∀ tree, Action.FailsWith P (eval tree)) (operands : List SExpr) :
    Action.FailsWith P (evalOperands eval operands) := by
  induction operands with
  | nil => exact .pure []
  | cons first rest ih => exact .bind (heval first) fun _ => .bind ih fun _ => .pure _

/-- A special form evaluates at most one operand.  It complains of the number of its operands only
when there are not two. -/
theorem SpecialForm.run_failsWith {eval : SExpr → Action Value}
    (heval : ∀ tree, Action.FailsWith P (eval tree)) (hP : ∀ e, Error.IsOrdinary e → P e)
    (form : SpecialForm) (s : ScopeId) (operands : List SExpr) :
    Action.FailsWith P (form.run eval s operands) := by
  have hname (tree : SExpr) : Action.FailsWith P (Action.ofExcept (form.identifier tree)) :=
    .ofExcept ((form.identifier_failsWith tree).mono hP)
  unfold SpecialForm.run
  split
  · exact (defineProcedure_failsWith ..).mono hP
  · refine .bind (hname _) fun name => .bind (heval _) fun v => ?_
    exact .bind ((Action.define_failsWith ..).mono hP) fun _ => .pure v
  · refine .bind (hname _) fun name => .bind (heval _) fun v => ?_
    exact .bind ((Action.assign_failsWith ..).mono hP) fun _ => .pure v
  · next hdefine hset =>
    have harity : form.arity = .exactly 2 := by cases form <;> rfl
    rw [harity]
    refine .throw (hP _ (beq_eq_false_iff_ne.2 fun hlength => ?_))
    obtain ⟨target, expr, rfl⟩ := List.length_eq_two.1 hlength
    cases form with
    | define => exact hdefine target expr rfl rfl
    | set => exact hset target expr rfl rfl

/-- **How evaluation fails**: with an ordinary error, or because its levels ran out, and then it
names the limit. -/
theorem eval_failsWith (limit : UInt64) (fuel : Nat) (s : ScopeId) (tree : SExpr) :
    Action.FailsWith (fun e => e.IsOrdinary ∨ e = .stackExhausted limit)
      (eval limit fuel s tree) := by
  have hordinary (e : Error) (h : e.IsOrdinary) : e.IsOrdinary ∨ e = .stackExhausted limit :=
    .inl h
  induction fuel generalizing s tree with
  | zero => exact .throw (.inr rfl)
  | succ fuel ih =>
    rcases tree with token | (_ | ⟨head, operands⟩)
    · exact (evalAtom_failsWith s token).mono hordinary
    · exact .throw (.inl trivial)
    · rw [eval]
      cases head.specialForm? with
      | some form =>
        refine .bind (.ofExcept ?_) fun _ => form.run_failsWith (ih s) hordinary s operands
        exact (Arity.validate_failsWith ..).ordinary.mono hordinary
      | none =>
        refine .bind (ih s head) fun v => ?_
        have hargs := evalOperands_failsWith (ih s) operands
        cases v with
        | number | boolean => exact .throw (.inl trivial)
        | builtin b =>
          exact .bind hargs fun args => .ofExcept ((b.call_failsWith args).mono hordinary)
        | procedure p =>
          refine .bind hargs fun args => ?_
          exact .bind ((enter_failsWith p args).mono hordinary) fun inner => ih inner p.body

end StrictScheme
