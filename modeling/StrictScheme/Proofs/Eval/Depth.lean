/-
# The limit on nesting

An evaluation that does not run out of levels does not notice how many it has: with
more of them it returns the same or fails in the same way, and leaves the same store.
So the limits that are high enough for a tree form an upward closed set, and below it
the error names the limit that was given.

What evaluates no tree counts no levels, and never runs out of them
(`Action.StaysWithin`).  For the rest the proof compares two runs from one store
(`Action.Approximates`): the one with fewer levels runs out of them, or else both do the
same.  The comparison passes from the parts of a computation to the whole
(`Approximates.bind`), because what runs out of levels stays so, whatever was to follow.
-/

import Mathlib.Order.UpperLower.Basic
import StrictScheme.Proofs.Eval.Failure

namespace StrictScheme

variable {α β : Type} {limit reported : UInt64} {store : Store}

/-! ### Errors that are not about the limit -/

/-- Whether an error says that evaluations are nested to a limit. -/
inductive Error.IsExhaustion : Error → Prop
  | stackExhausted (limit : UInt64) : IsExhaustion (.stackExhausted limit)

/-- Whatever goes wrong in a computation without the store, it is not that levels run out. -/
structure NeverExhausts (x : Except Error α) : Prop where
  not_isExhaustion : ∀ {e}, x = .error e → ¬ e.IsExhaustion

/-- An ordinary error is not about levels. -/
theorem Error.IsOrdinary.not_isExhaustion {e : Error} (h : e.IsOrdinary) : ¬ e.IsExhaustion := by
  rintro ⟨limit⟩
  exact h

/-- So a computation with none but ordinary errors never runs out of levels. -/
theorem FailsWith.neverExhausts {x : Except Error α} (h : FailsWith Error.IsOrdinary x) :
    NeverExhausts x :=
  ⟨fun he => (h.error_satisfies he).not_isExhaustion⟩

/-- Checking the number of arguments never does. -/
theorem Arity.validate_neverExhausts (arity : Arity) (procedure : String) (count : Nat) :
    NeverExhausts (arity.validate procedure count) :=
  (Arity.validate_failsWith ..).ordinary.neverExhausts

/-- Nor does taking a name from an operand. -/
theorem SpecialForm.identifier_neverExhausts (form : SpecialForm) (tree : SExpr) :
    NeverExhausts (form.identifier tree) :=
  (form.identifier_failsWith tree).neverExhausts

/-- Nor does calling a builtin. -/
theorem Builtin.call_neverExhausts (b : Builtin) (args : List Value) :
    NeverExhausts (b.call args) :=
  (b.call_failsWith args).neverExhausts

/-! ### Computations that stay within their levels -/

/-- From a store, a computation does not fail for lack of levels. -/
structure Action.StaysWithin (x : Action α) (store : Store) : Prop where
  ne_exhausted : ∀ {reported after}, x store ≠ .error (.stackExhausted reported) after

namespace Action.StaysWithin

/-- Returning something takes no level. -/
theorem pure (a : α) (store : Store) : StaysWithin (Pure.pure a) store :=
  ⟨nofun⟩

/-- A failure that is not about the limit. -/
theorem throw {e : Error} (h : ¬ e.IsExhaustion) :
    StaysWithin (MonadExcept.throw e : Action α) store := by
  constructor
  intro reported after heq
  rw [(EStateM.Result.error.inj heq).1] at h
  exact h (.stackExhausted reported)

/-- A computation without the store takes none, if it never runs out of levels. -/
theorem ofExcept {x : Except Error α} (h : NeverExhausts x) :
    StaysWithin (Action.ofExcept x) store := by
  cases x with
  | error e => exact throw (h.not_isExhaustion rfl)
  | ok a => exact pure a store

/-- One computation after the other. -/
theorem bind {x : Action α} {f : α → Action β} (h : StaysWithin x store)
    (hf : ∀ a after, x store = .ok a after → StaysWithin (f a) after) :
    StaysWithin (x >>= f) store := by
  constructor
  simp only [Bind.bind, EStateM.bind]
  cases hx : x store with
  | ok a after => exact (hf a after hx).ne_exhausted
  | error e after =>
    intro reported after' heq
    exact h.ne_exhausted (hx.trans (by rw [(EStateM.Result.error.inj heq).1]))

end Action.StaysWithin

open StrictScheme.Action

/-! What evaluates no tree counts no levels. -/

/-- An action with none but ordinary errors does not run out of levels. -/
theorem Action.FailsWith.staysWithin {x : Action α} (h : x.FailsWith Error.IsOrdinary)
    (store : Store) : StaysWithin x store :=
  ⟨fun he => (h.error_satisfies he).not_isExhaustion (.stackExhausted _)⟩

/-- A definition takes no level itself. -/
theorem Action.define_staysWithin (s : ScopeId) (name : String) (v : Value) (store : Store) :
    StaysWithin (Action.define s name v) store :=
  (Action.define_failsWith s name v).staysWithin store

/-- Nor does an assignment. -/
theorem Action.assign_staysWithin (s : ScopeId) (name : String) (v : Value) (store : Store) :
    StaysWithin (Action.assign s name v) store :=
  (Action.assign_failsWith s name v).staysWithin store

/-- Nor does a definition of a procedure. -/
theorem defineProcedure_staysWithin (s : ScopeId) (signature : List SExpr) (body : SExpr)
    (store : Store) : StaysWithin (defineProcedure s signature body) store :=
  (defineProcedure_failsWith s signature body).staysWithin store

/-- Nor does the value of an atom. -/
theorem evalAtom_staysWithin (s : ScopeId) (token : String) (store : Store) :
    StaysWithin (evalAtom s token) store :=
  (evalAtom_failsWith s token).staysWithin store

/-- Nor does entering a call. -/
theorem enter_staysWithin (p : Procedure) (args : List Value) (store : Store) :
    StaysWithin (enter p args) store :=
  (enter_failsWith p args).staysWithin store

/-! ### Fewer levels and more -/

/-- From a store, `x` runs out of its `limit` levels, or it does not run out of levels at all
and `y` does the same. -/
def Action.Approximates (limit : UInt64) (x y : Action α) (store : Store) : Prop :=
  (∃ after, x store = .error (.stackExhausted limit) after) ∨
    y store = x store ∧ ∀ reported after, x store ≠ .error (.stackExhausted reported) after

namespace Action.Approximates

/-- What stays within its levels does the same with more. -/
theorem of_staysWithin {x : Action α} (h : StaysWithin x store) : Approximates limit x x store :=
  .inr ⟨rfl, fun _ _ => h.ne_exhausted⟩

/-- **One computation after the other.**  Once levels have run out, nothing that follows is
carried out. -/
theorem bind {x y : Action α} {f g : α → Action β} (h : Approximates limit x y store)
    (hf : ∀ a after, Approximates limit (f a) (g a) after) :
    Approximates limit (x >>= f) (y >>= g) store := by
  unfold Approximates
  simp only [Bind.bind, EStateM.bind]
  rcases h with ⟨after, hx⟩ | ⟨hsame, hx⟩
  · exact .inl ⟨after, by rw [hx]⟩
  · rw [hsame]
    cases hresult : x store with
    | ok a after => exact hf a after
    | error e after =>
      refine .inr ⟨rfl, fun reported after' heq => hx reported after' ?_⟩
      rw [hresult, (EStateM.Result.error.inj heq).1, (EStateM.Result.error.inj heq).2]

end Action.Approximates

/-! ### Parts that evaluate trees -/

/-- Operands are evaluated the same, unless a level is missing for one of them. -/
theorem evalOperands_approximates {few many : SExpr → Action Value}
    (h : ∀ tree store, Approximates limit (few tree) (many tree) store) (operands : List SExpr) :
    Approximates limit (evalOperands few operands) (evalOperands many operands) store := by
  induction operands generalizing store with
  | nil => exact .of_staysWithin (.pure ..)
  | cons first rest ih =>
    exact .bind (h first store) fun _ _ => .bind ih fun _ _ => .of_staysWithin (.pure ..)

/-- So is a special form. -/
theorem SpecialForm.run_approximates {few many : SExpr → Action Value}
    (h : ∀ tree store, Approximates limit (few tree) (many tree) store) (form : SpecialForm)
    (s : ScopeId) (operands : List SExpr) :
    Approximates limit (form.run few s operands) (form.run many s operands) store := by
  have hname (tree : SExpr) (store : Store) :
      Approximates limit (Action.ofExcept (form.identifier tree))
        (Action.ofExcept (form.identifier tree)) store :=
    .of_staysWithin (.ofExcept (form.identifier_neverExhausts tree))
  unfold SpecialForm.run
  split
  · exact .of_staysWithin (defineProcedure_staysWithin ..)
  · refine .bind (hname ..) fun name _ => .bind (h _ _) fun v after => ?_
    exact .bind (.of_staysWithin (Action.define_staysWithin s name v after)) fun _ _ =>
      .of_staysWithin (.pure ..)
  · refine .bind (hname ..) fun name _ => .bind (h _ _) fun v after => ?_
    exact .bind (.of_staysWithin (Action.assign_staysWithin s name v after)) fun _ _ =>
      .of_staysWithin (.pure ..)
  · exact .of_staysWithin (.throw nofun)

/-! ### Whole evaluations -/

/-- **With more levels an evaluation does the same**, unless it runs out of the fewer ones. -/
theorem eval_approximates {limit' : UInt64} {fuel fuel' : Nat} (hfuel : fuel ≤ fuel')
    (s : ScopeId) (tree : SExpr) (store : Store) :
    Approximates limit (eval limit fuel s tree) (eval limit' fuel' s tree) store := by
  induction fuel generalizing fuel' s tree store with
  | zero =>
    -- no level is left to the first evaluation
    exact .inl ⟨store, rfl⟩
  | succ fuel ih =>
    obtain ⟨fuel', rfl⟩ : ∃ more, fuel' = more + 1 := Nat.exists_eq_add_one.2 (by omega)
    have hrest (s : ScopeId) (tree : SExpr) (store : Store) :=
      ih (Nat.le_of_succ_le_succ hfuel) s tree store
    rcases tree with token | (_ | ⟨head, operands⟩)
    · exact .of_staysWithin (evalAtom_staysWithin ..)
    · exact .of_staysWithin (.throw (by rintro ⟨⟩))
    · rw [eval, eval]
      cases head.specialForm? with
      | some form =>
        refine .bind (.of_staysWithin (.ofExcept (Arity.validate_neverExhausts ..)))
          fun _ _ => ?_
        exact form.run_approximates (hrest s) s operands
      | none =>
        refine .bind (hrest s head store) fun v after => ?_
        cases v with
        | number | boolean => exact .of_staysWithin (.throw (by rintro ⟨⟩))
        | builtin b =>
          refine .bind (evalOperands_approximates (hrest s) operands) fun args after => ?_
          exact .of_staysWithin (.ofExcept (b.call_neverExhausts args))
        | procedure p =>
          refine .bind (evalOperands_approximates (hrest s) operands) fun args after => ?_
          exact .bind (.of_staysWithin (enter_staysWithin p args after)) fun inner after =>
            hrest inner p.body after

/-- An evaluation fails because evaluations are nested to a limit. -/
def Exhausts (limit : UInt64) (s : ScopeId) (tree : SExpr) (store : Store) : Prop :=
  ∃ reported after, evaluate limit s tree store = .error (.stackExhausted reported) after

/-- **A lower limit makes no difference** but that levels may run out. -/
theorem evaluate_approximates {limit limit' : UInt64} (h : limit ≤ limit') (s : ScopeId)
    (tree : SExpr) (store : Store) :
    Approximates limit (evaluate limit s tree) (evaluate limit' s tree) store :=
  eval_approximates (UInt64.le_iff_toNat_le.1 h) s tree store

/-- **The limit cannot be noticed below it.**  A limit that is not exhausted can be raised
without any change to the result or to the store; so the limits that are not exhausted are
upward closed, and any other limit is reported as it was given. -/
theorem evaluate_limit_transparent (s : ScopeId) (tree : SExpr) (store : Store) :
    (∀ limit limit', limit ≤ limit' → ¬ Exhausts limit s tree store →
      evaluate limit' s tree store = evaluate limit s tree store) ∧
    IsUpperSet {limit | ¬ Exhausts limit s tree store} ∧
    ∀ limit, Exhausts limit s tree store →
      ∃ after, evaluate limit s tree store = .error (.stackExhausted limit) after := by
  have hsame (limit limit' : UInt64) (hle : limit ≤ limit')
      (hlimit : ¬ Exhausts limit s tree store) :
      evaluate limit' s tree store = evaluate limit s tree store := by
    rcases evaluate_approximates hle s tree store with ⟨after, hout⟩ | ⟨hsame, -⟩
    · exact absurd ⟨limit, after, hout⟩ hlimit
    · exact hsame
  refine ⟨hsame, fun limit limit' hle hlimit hlimit' => hlimit ?_, fun limit hlimit => ?_⟩
  · unfold Exhausts at hlimit' ⊢
    rwa [hsame limit limit' hle hlimit] at hlimit'
  · obtain ⟨reported, after, hout⟩ := hlimit
    rcases evaluate_approximates UInt64.le_rfl s tree store with hown | ⟨-, hnot⟩
    · exact hown
    · exact absurd hout (hnot reported after)

/-- A sum inside a sum: it takes three levels. -/
def nestedSum : SExpr :=
  .list [.atom "+", .atom "1", .list [.atom "+", .atom "2", .atom "3"]]

/-- Three levels do for a sum inside a sum, and two do not. -/
theorem nestedSum_limit_transparent :
    let store := (({} : Store).newScope none globalBindings).2
    evaluate 10000 0 nestedSum store = evaluate 3 0 nestedSum store ∧
      ∃ after, evaluate 2 0 nestedSum store = .error (.stackExhausted 2) after := by
  intro store
  have hthree : evaluate 3 0 nestedSum store = .ok (.number 6) store := by rfl
  have htwo : evaluate 2 0 nestedSum store = .error (.stackExhausted 2) store := by rfl
  obtain ⟨hraise, -, hreport⟩ := evaluate_limit_transparent 0 nestedSum store
  refine ⟨hraise 3 10000 (by decide) ?_, hreport 2 ⟨2, store, htwo⟩⟩
  rintro ⟨reported, after, hout⟩
  rw [hthree] at hout
  exact absurd hout nofun

end StrictScheme
