/-
# Evaluation at a depth

A special form can be run as if it stood at some depth.  What its operand does there depends
on the number of levels that are left, and on the limit only in that an error names it:
two evaluations with the same number of levels left do the same, and so they do when one of
them names the limit of the other (`eval_reporting`).

So a form at some depth does what it does at depth zero, under a limit that is less by that
depth (`SpecialForm.runAt_shift`).  And where no level is left to the operand, it does
nothing.

Depths are 64-bit words, and the word after the greatest one is zero.  At that depth a form
is run as at the beginning, whatever the limit (`runAt_greatest`).
-/

import StrictScheme.Proofs.Eval.Depth

namespace StrictScheme

open StrictScheme.Action

variable {α β : Type} {name : String}

/-- An error, with a limit in the place of the one it names, if it names one. -/
def Error.reporting (limit : UInt64) : Error → Error
  | .stackExhausted _ => .stackExhausted limit
  | e => e

/-- An error that is not about levels names no limit. -/
theorem Error.reporting_eq_self {e : Error} (h : ¬ e.IsExhaustion) (limit : UInt64) :
    e.reporting limit = e := by
  cases e with
  | stackExhausted reported => exact absurd (.stackExhausted reported) h
  | _ => rfl

namespace Action

/-- A computation that names another limit, should levels run out. -/
def reporting (limit : UInt64) (x : Action α) : Action α :=
  x.adaptExcept (Error.reporting limit)

/-- Two actions name another limit if each of them does. -/
theorem reporting_bind (limit : UInt64) (x : Action α) (f : α → Action β) :
    (x >>= f).reporting limit = x.reporting limit >>= fun a => (f a).reporting limit := by
  funext store
  simp only [reporting, EStateM.adaptExcept, Bind.bind, EStateM.bind]
  cases x store <;> rfl

/-- What never runs out of levels names no limit. -/
theorem reporting_eq_self {x : Action α} (h : ∀ store, StaysWithin x store) (limit : UInt64) :
    x.reporting limit = x := by
  funext store
  simp only [reporting, EStateM.adaptExcept]
  cases hx : x store with
  | ok a after => rfl
  | error e after =>
    have hnone : ¬ e.IsExhaustion := by
      rintro ⟨reported⟩
      exact (h store).ne_exhausted hx
    simp only [Error.reporting_eq_self hnone]

/-- A computation without the store that never runs out names no limit. -/
theorem reporting_ofExcept {x : Except Error α} (h : NeverExhausts x) (limit : UInt64) :
    (Action.ofExcept x).reporting limit = Action.ofExcept x :=
  reporting_eq_self (fun _ => .ofExcept h) limit

end Action

/-! ### The same number of levels left -/

section

variable {eval eval' : SExpr → Action Value} {limit : UInt64}
  (heval : ∀ tree, (eval tree).reporting limit = eval' tree)
include heval

/-- Operands name another limit if each of them does. -/
theorem evalOperands_reporting (operands : List SExpr) :
    (evalOperands eval operands).reporting limit = evalOperands eval' operands := by
  induction operands with
  | nil => rfl
  | cons first rest ih =>
    simp only [evalOperands, reporting_bind, heval, ih]
    rfl

/-- So does a special form. -/
theorem SpecialForm.run_reporting (form : SpecialForm) (s : ScopeId) (operands : List SExpr) :
    (form.run eval s operands).reporting limit = form.run eval' s operands := by
  have hname (tree : SExpr) := reporting_ofExcept (form.identifier_neverExhausts tree) limit
  unfold SpecialForm.run
  split
  · exact reporting_eq_self (defineProcedure_staysWithin s _ _) limit
  · have hdefine (name : String) (v : Value) :=
      reporting_eq_self (Action.define_staysWithin s name v) limit
    simp only [reporting_bind, hname, heval, hdefine]
    rfl
  · have hassign (name : String) (v : Value) :=
      reporting_eq_self (Action.assign_staysWithin s name v) limit
    simp only [reporting_bind, hname, heval, hassign]
    rfl
  · rfl

end

/-- **With the same number of levels left an evaluation does the same**, up to the limit that it
names. -/
theorem eval_reporting (limit limit' : UInt64) (fuel : Nat) (s : ScopeId) (tree : SExpr) :
    (eval limit fuel s tree).reporting limit' = eval limit' fuel s tree := by
  induction fuel generalizing s tree with
  | zero => rfl
  | succ fuel ih =>
    rcases tree with token | (_ | ⟨head, operands⟩)
    · exact reporting_eq_self (evalAtom_staysWithin s token) limit'
    · rfl
    · rw [eval, eval]
      cases head.specialForm? with
      | some form =>
        simp only [reporting_bind, reporting_ofExcept (Arity.validate_neverExhausts ..),
          form.run_reporting (ih s)]
      | none =>
        simp only [reporting_bind, ih]
        congr 1
        funext v
        cases v with
        | number | boolean => rfl
        | builtin b =>
          simp only [reporting_bind, evalOperands_reporting (ih s),
            reporting_ofExcept (b.call_neverExhausts _)]
        | procedure p =>
          simp only [reporting_bind, evalOperands_reporting (ih s),
            reporting_eq_self (enter_staysWithin p _), ih]

/-! ### Forms at a depth -/

namespace Depth

/-- Below the greatest word, the next depth is the next number. -/
theorem toNat_current_deeper {depth : Depth} (h : depth.current.toNat + 1 < UInt64.size) :
    depth.deeper.current.toNat = depth.current.toNat + 1 := by
  rw [deeper, UInt64.toNat_add]
  exact Nat.mod_eq_of_lt h

/-- One level deeper, one level less is left. -/
theorem remaining_deeper {depth : Depth} (h : depth.current.toNat + 1 < UInt64.size) :
    depth.deeper.remaining = depth.limit.toNat - (depth.current.toNat + 1) := by
  rw [remaining, toNat_current_deeper h]
  rfl

/-- The limit less by the depth leaves as many levels at depth zero. -/
theorem remaining_deeper_shift {depth : Depth} (h : depth.current.toNat + 1 < depth.limit.toNat) :
    (Depth.mk 0 (depth.limit - depth.current)).deeper.remaining = depth.deeper.remaining := by
  have hlimit : depth.limit.toNat < UInt64.size := depth.limit.toNat_lt
  have hzero : (Depth.mk 0 (depth.limit - depth.current)).current.toNat = 0 := rfl
  rw [remaining_deeper (by omega), remaining_deeper (by omega), hzero,
    UInt64.toNat_sub_of_le _ _ (UInt64.le_iff_toNat_le.2 (by omega))]
  omega

end Depth

/-- An atom that reads as a name is taken as one. -/
theorem SpecialForm.identifier_atom (h : Atom.ofToken name = .identifier name)
    (form : SpecialForm) : form.identifier (.atom name) = .ok name := by
  simp only [identifier, h]

/-- **A form does nothing when its operand cannot be evaluated.** -/
theorem SpecialForm.run_of_error (form : SpecialForm) {eval : SExpr → Action Value} {s : ScopeId}
    {expr : SExpr} {store : Store} {e : Error} (hname : Atom.ofToken name = .identifier name)
    (heval : eval expr store = .error e store) :
    form.run eval s [.atom name, expr] store = .error e store := by
  cases form <;>
  · simp only [run, identifier_atom hname, Action.ofExcept, Bind.bind, EStateM.bind, Pure.pure,
      EStateM.pure, heval]

/-- **Equally many levels left, equal results**, up to the limit that is named. -/
theorem SpecialForm.runAt_reporting (form : SpecialForm) {depth depth' : Depth}
    (h : depth'.deeper.remaining = depth.deeper.remaining) (s : ScopeId)
    (operands : List SExpr) :
    (form.runAt depth s operands).reporting depth'.limit = form.runAt depth' s operands := by
  rw [runAt, runAt, h]
  exact form.run_reporting (eval_reporting depth.limit depth'.limit _ s) s operands

/-- **A form at a depth.**  Below the greatest depth, a definition or an assignment whose operand
has no level left fails and does nothing.  With levels left it does what it does at depth zero
under the limit that is less by the depth, and an error names that limit instead. -/
theorem SpecialForm.runAt_shift (form : SpecialForm) (depth : Depth) (s : ScopeId)
    (hname : Atom.ofToken name = .identifier name) (expr : SExpr)
    (hword : depth.current.toNat + 1 < UInt64.size) :
    (depth.limit.toNat ≤ depth.current.toNat + 1 → ∀ store,
      form.runAt depth s [.atom name, expr] store =
        .error (.stackExhausted depth.limit) store) ∧
    (depth.current.toNat + 1 < depth.limit.toNat → ∀ store,
      form.runAt ⟨0, depth.limit - depth.current⟩ s [.atom name, expr] store =
        (form.runAt depth s [.atom name, expr]).reporting (depth.limit - depth.current) store) := by
  refine ⟨fun hlimit store => form.run_of_error hname ?_, fun hlimit store => ?_⟩
  · have hnone : depth.deeper.remaining = 0 := by
      rw [Depth.remaining_deeper hword]
      omega
    rw [hnone]
    rfl
  · rw [← form.runAt_reporting (Depth.remaining_deeper_shift hlimit)]

/-- At depth 5 a sum has no level left under the limit 6, and can be evaluated under the limit 8,
as it can at depth zero under the limit 3. -/
theorem runAt_shift_sum :
    let store := (({} : Store).newScope none globalBindings).2
    let sum := SExpr.list [.atom "+", .atom "1", .atom "2"]
    SpecialForm.define.runAt ⟨5, 6⟩ 0 [.atom "x", sum] store = .error (.stackExhausted 6) store ∧
      (SpecialForm.define.runAt ⟨5, 8⟩ 0 [.atom "x", sum]).reporting 3 store =
        .ok (.number 3) (store.bind 0 "x" (.number 3)) := by
  intro store sum
  have hname : Atom.ofToken "x" = .identifier "x" := by decide
  have hthree : SpecialForm.define.runAt ⟨0, 3⟩ 0 [.atom "x", sum] store =
      .ok (.number 3) (store.bind 0 "x" (.number 3)) := by rfl
  constructor
  · exact (SpecialForm.runAt_shift .define ⟨5, 6⟩ 0 hname sum (by decide)).1 (by decide) store
  · rw [← hthree]
    exact ((SpecialForm.runAt_shift .define ⟨5, 8⟩ 0 hname sum (by decide)).2 (by decide)
      store).symm

/-- **The greatest depth is followed by zero.**  There a definition is carried out under any
limit, here under the limit 10. -/
theorem runAt_greatest :
    let depth : Depth := ⟨18446744073709551615, 10⟩
    let store := (({} : Store).newScope none globalBindings).2
    depth.limit.toNat ≤ depth.current.toNat + 1 ∧
      SpecialForm.define.runAt depth 0 [.atom "x", .atom "1"] store =
        .ok (.number 1) (store.bind 0 "x" (.number 1)) :=
  ⟨by decide, rfl⟩

end StrictScheme
