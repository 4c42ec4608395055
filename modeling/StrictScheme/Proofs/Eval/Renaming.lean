/-
# Renaming scopes and procedures

A renaming gives other numbers to scopes and other serial numbers to user procedures.
Nothing a program is told shows either: kinds, written forms and error messages are
the same, and so is every result of a builtin, provided that procedures which differ
are not given the same serial number (`Builtin.call_rename`).
-/

import Mathlib.Data.Set.Function
import StrictScheme.Builtin
import StrictScheme.Proofs.Store.Laws

namespace StrictScheme

/-- Other numbers for scopes and procedures. -/
structure Renaming where
  scope : ScopeId → ScopeId
  procedure : ProcedureId → ProcedureId

/-- The renaming that leaves every number as it is. -/
def Renaming.same : Renaming :=
  ⟨fun s => s, fun id => id⟩

/-- A procedure under other numbers. -/
def Procedure.rename (r : Renaming) (p : Procedure) : Procedure :=
  { p with id := r.procedure p.id, scope := r.scope p.scope }

/-- A value under other numbers. -/
def Value.rename (r : Renaming) : Value → Value
  | .procedure p => .procedure (p.rename r)
  | v => v

/-- A scope under other numbers. -/
def Scope.rename (r : Renaming) (scope : Scope) : Scope :=
  ⟨scope.outer.map r.scope, scope.bindings.map (Value.rename r)⟩

variable {r : Renaming} {args : List Value}

/-! ### What is not renamed -/

/-- Keeping all numbers leaves a value. -/
@[simp] theorem Value.rename_same (v : Value) : v.rename .same = v := by
  cases v <;> rfl

/-- Keeping all numbers leaves a scope. -/
@[simp] theorem Scope.rename_same (scope : Scope) : scope.rename .same = scope := by
  have hvalues : Value.rename .same = fun v => v := funext Value.rename_same
  rw [rename, hvalues, Table.map_id]
  simp [Renaming.same]

/-- A value is of the same kind under other numbers. -/
@[simp] theorem Value.kind_rename (v : Value) : (v.rename r).kind = v.kind := by
  cases v <;> rfl

/-- It looks the same, too, for numbers are never shown. -/
@[simp] theorem Value.print_rename (v : Value) : (v.rename r).print = v.print := by
  cases v <;> rfl

/-- It is the same number, or none, with the same error. -/
@[simp] theorem Value.asNumber_rename (demand : String) (v : Value) :
    (v.rename r).asNumber demand = v.asNumber demand := by
  cases v <;> rfl

/-- It is the same truth value, or none, with the same error. -/
@[simp] theorem Value.asBoolean_rename (demand : String) (v : Value) :
    (v.rename r).asBoolean demand = v.asBoolean demand := by
  cases v <;> rfl

/-- A value that is no user procedure has nothing to rename. -/
theorem Value.rename_of_procedure?_eq_none {v : Value} (h : v.procedure? = none) :
    v.rename r = v := by
  cases v with
  | procedure p => cases h
  | number | boolean | builtin => rfl

/-- The scopes around are renumbered one by one. -/
@[simp] theorem Scope.outer_rename (scope : Scope) :
    (scope.rename r).outer = scope.outer.map r.scope := rfl

/-- What a name stands for is renumbered. -/
@[simp] theorem Scope.get?_rename (scope : Scope) (name : String) :
    (scope.rename r).bindings.get? name = (scope.bindings.get? name).map (Value.rename r) :=
  Table.get?_map ..

/-- A value may be bound before or after it is renumbered. -/
theorem Scope.rename_bind (scope : Scope) (name : String) (v : Value) :
    (scope.bind name v).rename r = (scope.rename r).bind name (v.rename r) := by
  simp only [rename, bind, Table.map_insert]

/-- Only the numbers that occur in a scope count in a renaming. -/
theorem Scope.rename_congr {r' : Renaming} {scope : Scope}
    (houter : ∀ t ∈ scope.outer, r'.scope t = r.scope t)
    (hprocedures : ∀ p ∈ scope.procedures, p.rename r' = p.rename r) :
    scope.rename r' = scope.rename r := by
  have hvalues : scope.bindings.map (Value.rename r') = scope.bindings.map (Value.rename r) := by
    refine Table.map_congr fun v hv => ?_
    cases v with
    | procedure p => exact congrArg Value.procedure (hprocedures p (mem_procedures.2 hv))
    | number | boolean | builtin => rfl
  rw [rename, rename, hvalues, List.map_congr_left houter]

/-! ### Builtins -/

/-- Values are told apart after renaming as before. -/
def SameEquality (r : Renaming) (args : List Value) : Prop :=
  ∀ u ∈ args, ∀ v ∈ args, (u.rename r).equal (v.rename r) = u.equal v

namespace Primitive

/-- A primitive takes the same number from a value under other numbers. -/
@[simp] theorem operand_rename (op : Primitive) (v : Value) :
    op.operand (v.rename r) = op.operand v :=
  Value.asNumber_rename ..

/-- It takes the same truth value from it. -/
@[simp] theorem condition_rename (op : Primitive) (v : Value) :
    op.condition (v.rename r) = op.condition v :=
  Value.asBoolean_rename ..

/-- An arithmetic primitive works on numbers, which have no references in them. -/
theorem fold_rename (op : Primitive) (step : Number → Number → Except Error Number) :
    op.fold step (args.map (Value.rename r)) = op.fold step args := by
  cases args with
  | nil => rfl
  | cons first rest => simp [fold, List.foldlM_map]

/-- So does a comparison. -/
theorem compare_rename (op : Primitive) (holds : Int → Int → Bool) :
    op.compare holds (args.map (Value.rename r)) = op.compare holds args := by
  rcases args with - | ⟨a, - | ⟨b, - | ⟨c, rest⟩⟩⟩ <;> simp [compare]

/-- Equality is the same under numbers that keep procedures apart. -/
theorem neighboursEqual_rename (h : SameEquality r args) :
    neighboursEqual (args.map (Value.rename r)) = neighboursEqual args := by
  induction args with
  | nil => rfl
  | cons a rest ih =>
    cases rest with
    | nil => rfl
    | cons b rest =>
      have hab := h a (by simp) b (by simp)
      have hrest := ih fun u hu v hv =>
        h u (List.mem_cons_of_mem _ hu) v (List.mem_cons_of_mem _ hv)
      simp only [List.map_cons, neighboursEqual] at hrest ⊢
      rw [hab, hrest]

/-- The logical primitives work on truth values. -/
theorem conditions_rename (op : Primitive) :
    op.conditions (args.map (Value.rename r)) = op.conditions args := by
  unfold conditions
  induction args with
  | nil => rfl
  | cons v rest ih => simp only [List.map_cons, List.mapM_cons, condition_rename, ih]

/-- **A primitive procedure does not see the numbers.** -/
theorem run_rename (op : Primitive) (h : SameEquality r args) :
    op.run (args.map (Value.rename r)) = op.run args := by
  cases op with
  | add | subtract | multiply | divide => exact fold_rename ..
  | less | greater => simp only [run, compare_rename]
  | equal => simp only [run, neighboursEqual_rename h]
  | and | or => simp only [run, conditions_rename]
  | not => rcases args with - | ⟨a, - | ⟨b, rest⟩⟩ <;> simp [run]

/-- A computation that ends by returning a number or a truth value returns no procedure. -/
theorem procedure?_of_bind {α : Type} {x : Except Error α} {f : α → Value} {v : Value}
    (h : (do return f (← x)) = Except.ok v) (hf : ∀ a, (f a).procedure? = none) :
    v.procedure? = none := by
  cases x with
  | error e => cases h
  | ok a => exact Except.ok.inj h ▸ hf a

/-- A primitive procedure returns no user procedure. -/
theorem procedure?_of_run {op : Primitive} {v : Value} (h : op.run args = .ok v) :
    v.procedure? = none := by
  have hfold {step : Number → Number → Except Error Number} (h : op.fold step args = .ok v) :
      v.procedure? = none := by
    cases args with
    | nil => cases h
    | cons first rest =>
      rw [fold] at h
      cases hfirst : op.operand first with
      | error e => rw [hfirst] at h; cases h
      | ok start => rw [hfirst] at h; exact procedure?_of_bind h fun _ => rfl
  have hcompare {holds : Int → Int → Bool} (h : op.compare holds args = .ok v) :
      v.procedure? = none := by
    rcases args with - | ⟨a, - | ⟨b, - | ⟨c, rest⟩⟩⟩ <;> rw [compare] at h <;> try cases h
    cases ha : op.operand a with
    | error e => rw [ha] at h; cases h
    | ok left => rw [ha] at h; exact procedure?_of_bind h fun _ => rfl
  cases op with
  | add | subtract | multiply | divide => exact hfold h
  | less | greater => rw [run] at h; exact hcompare h
  | equal => exact Except.ok.inj h ▸ rfl
  | and | or => exact procedure?_of_bind h fun _ => rfl
  | not =>
    rcases args with - | ⟨a, - | ⟨b, rest⟩⟩ <;> rw [run] at h <;> try cases h
    exact procedure?_of_bind h fun _ => rfl

end Primitive

/-- **A builtin does not see the numbers.** -/
theorem Builtin.call_rename (b : Builtin) (h : SameEquality r args) :
    b.call (args.map (Value.rename r)) = b.call args := by
  simp only [call, List.length_map, Primitive.run_rename _ h]

/-- No builtin returns a user procedure. -/
theorem Builtin.procedure?_of_call {b : Builtin} {v : Value} (h : b.call args = .ok v) :
    v.procedure? = none := by
  rw [call] at h
  cases hvalid : b.arity.validate b.name args.length with
  | error e => rw [hvalid] at h; cases h
  | ok u => rw [hvalid] at h; exact Primitive.procedure?_of_run h

end StrictScheme
