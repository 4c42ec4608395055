/-
# Evaluation in corresponding stores

Evaluating a tree in two stores that correspond gives the same result, under the
renaming, and stores that correspond again; the first run takes no scope out and
touches nothing outside the region (`eval_lockstep`).  The proof goes through the
evaluator once, one rule for each of its parts, and is by induction on the number of
levels that are left.

With the renaming that changes nothing and the region that holds everything, the same
theorem says that evaluation keeps a store sound.
-/

import StrictScheme.Eval
import StrictScheme.Proofs.Eval.Correspondence

namespace StrictScheme

open Store

variable {r : Renaming} {region : Region} {a b : Store} {s : ScopeId}

/-- The second value is the first one renamed, and the first can be used in the region. -/
def Value.Transported (r : Renaming) (region : Region) (store : Store) (u v : Value) : Prop :=
  v = u.rename r ∧ u.IsIn region store

/-- The same of several values. -/
def Value.AllTransported (r : Renaming) (region : Region) (store : Store) (us vs : List Value) :
    Prop :=
  vs = us.map (Value.rename r) ∧ ∀ u ∈ us, u.IsIn region store

/-! ### Results that do not come from the store -/

/-- A result that no store takes part in is the same in both. -/
theorem Action.ofExcept_lockstep {α : Type} {J : Store → α → α → Prop} (x : Except Error α)
    (h : Corresponds r region a b) (hx : ∀ u, x = .ok u → J a u u) :
    Lockstep (correspondence r region) J (Action.ofExcept x) (Action.ofExcept x) a b := by
  cases x with
  | error e => exact Lockstep.throw h
  | ok u => exact Lockstep.pure h (hx u rfl)

/-! ### Changing bindings -/

/-- Definitions in corresponding scopes are carried out alike. -/
theorem Action.define_lockstep (h : Corresponds r region a b) (hs : s ∈ region.scopes)
    (name : String) {u v : Value} (huv : u.Transported r region a v) :
    Lockstep (correspondence r region) (fun _ _ _ => True) (Action.define s name u)
      (Action.define (r.scope s) name v) a b := by
  obtain ⟨rfl, hu⟩ := huv
  unfold Action.define
  refine Lockstep.get_bind ?_
  rw [h.bindsLocally hs]
  by_cases hbound : a.bindsLocally s name
  · rw [if_pos hbound, if_pos hbound]
    exact Lockstep.throw_bind h
  · rw [if_neg hbound, if_neg hbound]
    exact Lockstep.modify (h.bind hs name hu) (extends_bind hs name u) trivial

/-- So are assignments. -/
theorem Action.assign_lockstep (h : Corresponds r region a b) (hs : s ∈ region.scopes)
    (name : String) {u v : Value} (huv : u.Transported r region a v) :
    Lockstep (correspondence r region) (fun _ _ _ => True) (Action.assign s name u)
      (Action.assign (r.scope s) name v) a b := by
  obtain ⟨rfl, hu⟩ := huv
  unfold Action.assign
  refine Lockstep.get_bind ?_
  rw [h.binder? hs]
  cases ht : a.binder? s name with
  | none => exact Lockstep.throw h
  | some t =>
    have htmem := (h.binder?_mem hs ht).1
    exact Lockstep.modify (h.bind htmem name hu) (extends_bind htmem name u) trivial

/-- A definition of a procedure makes and binds the same one in both stores. -/
theorem defineProcedure_lockstep (h : Corresponds r region a b) (hs : s ∈ region.scopes)
    (ha : a.Has s) (signature : List SExpr) (body : SExpr) :
    Lockstep (correspondence r region) (Value.Transported r region)
      (defineProcedure s signature body) (defineProcedure (r.scope s) signature body) a b := by
  cases signature with
  | nil => exact Lockstep.throw h
  | cons nameTree paramTrees =>
    unfold defineProcedure
    refine Lockstep.bind (Action.ofExcept_lockstep (J := fun _ u v => u = v) _ h fun _ _ => rfl) ?_
    rintro name _ a b h hle rfl
    refine Lockstep.bind (Action.ofExcept_lockstep (J := fun _ u v => u = v) _ h fun _ _ => rfl) ?_
    rintro params _ a b h hle' rfl
    refine Lockstep.get_bind ?_
    rw [h.bindsLocally hs]
    by_cases hbound : a.bindsLocally s name
    · rw [if_pos hbound, if_pos hbound]
      exact Lockstep.throw_bind h
    · rw [if_neg hbound, if_neg hbound]
      have hhas : a.Has s := hle'.has (hle.has ha)
      refine Lockstep.bind (J := fun store p q => q = p.rename r ∧
          (Value.procedure p).IsIn region store)
        (Lockstep.modifyGet (h.newProcedure name params body s)
          (extends_newProcedure region a name params body s)
          ⟨h.newProcedure_rename name params body s,
            h.newProcedure_isIn name params body hs hhas⟩) ?_
      rintro p _ a b h - ⟨rfl, hp⟩
      have hbind := h.bind hs name hp
      refine Lockstep.bind (J := fun store _ _ => (Value.procedure p).IsIn region store)
        (Lockstep.modify hbind (extends_bind hs name _) ((extends_bind hs name _).isIn hp)) ?_
      rintro _ _ a b h - hp
      exact Lockstep.pure h ⟨rfl, hp⟩

/-! ### The parts of an evaluation -/

/-- Two ways to evaluate, in a scope and in the scope it corresponds to, run in lockstep from
all stores that correspond. -/
def EvalLockstep (r : Renaming) (region : Region) (s : ScopeId)
    (left right : SExpr → Action Value) : Prop :=
  ∀ tree a b, Corresponds r region a b → a.Has s →
    Lockstep (correspondence r region) (Value.Transported r region) (left tree) (right tree) a b

/-- A special form is carried out alike if its operands are evaluated alike. -/
theorem SpecialForm.run_lockstep {left right : SExpr → Action Value}
    (heval : EvalLockstep r region s left right) (h : Corresponds r region a b)
    (hs : s ∈ region.scopes) (ha : a.Has s) (form : SpecialForm) (operands : List SExpr) :
    Lockstep (correspondence r region) (Value.Transported r region)
      (form.run left s operands) (form.run right (r.scope s) operands) a b := by
  -- define and set! differ in what they do with the value once they have it
  have hvalue (target expr : SExpr) {put put' : String → Value → Action Unit}
      (hput : ∀ name a b u v, Corresponds r region a b → u.Transported r region a v →
        Lockstep (correspondence r region) (fun _ _ _ => True) (put name u) (put' name v) a b) :
      Lockstep (correspondence r region) (Value.Transported r region)
        (do let name ← Action.ofExcept (form.identifier target)
            let v ← left expr
            put name v
            return v)
        (do let name ← Action.ofExcept (form.identifier target)
            let v ← right expr
            put' name v
            return v) a b := by
    refine Lockstep.bind (Action.ofExcept_lockstep (J := fun _ u v => u = v) _ h fun _ _ => rfl) ?_
    rintro name _ a b h hle rfl
    refine Lockstep.bind (heval expr a b h (hle.has ha)) ?_
    rintro u v a b h - ⟨rfl, hu⟩
    refine Lockstep.bind (hput name a b u _ h ⟨rfl, hu⟩) ?_
    rintro _ _ a b h hle -
    exact Lockstep.pure h ⟨rfl, hle.isIn hu⟩
  unfold SpecialForm.run
  split
  · exact defineProcedure_lockstep h hs ha _ _
  · exact hvalue _ _ fun name a b u v h huv => Action.define_lockstep h hs name huv
  · exact hvalue _ _ fun name a b u v h huv => Action.assign_lockstep h hs name huv
  · exact Lockstep.throw h

/-- An atom has the same value from corresponding scopes. -/
theorem evalAtom_lockstep (h : Corresponds r region a b) (hs : s ∈ region.scopes)
    (token : String) :
    Lockstep (correspondence r region) (Value.Transported r region)
      (evalAtom s token) (evalAtom (r.scope s) token) a b := by
  unfold evalAtom
  cases Atom.ofToken token with
  | boolean x => exact Lockstep.pure h ⟨rfl, Value.isIn_of_procedure?_eq_none rfl⟩
  | number n => exact Lockstep.pure h ⟨rfl, Value.isIn_of_procedure?_eq_none rfl⟩
  | identifier name =>
    refine Lockstep.get_bind ?_
    rw [h.lookup hs]
    cases hv : a.lookup s name with
    | none => exact Lockstep.throw h
    | some v => exact Lockstep.pure h ⟨rfl, h.isIn_of_lookup hs hv⟩

/-- Operands are evaluated alike, one after the other. -/
theorem evalOperands_lockstep {left right : SExpr → Action Value}
    (heval : EvalLockstep r region s left right) (operands : List SExpr)
    (h : Corresponds r region a b) (ha : a.Has s) :
    Lockstep (correspondence r region) (Value.AllTransported r region)
      (evalOperands left operands) (evalOperands right operands) a b := by
  induction operands generalizing a b with
  | nil => exact Lockstep.pure h ⟨rfl, fun _ hu => absurd hu List.not_mem_nil⟩
  | cons first rest ih =>
    unfold evalOperands
    refine Lockstep.bind (heval first a b h ha) ?_
    rintro u _ a' b' h hle ⟨rfl, hu⟩
    refine Lockstep.bind (ih h (hle.has ha)) ?_
    rintro us _ a'' b'' h hle' ⟨rfl, hus⟩
    refine Lockstep.pure h ⟨rfl, fun w hw => ?_⟩
    rcases List.mem_cons.1 hw with rfl | hw
    · exact hle'.isIn hu
    · exact hus w hw

/-- Procedures that can be used in a region are told apart after renaming as before. -/
theorem sameEquality_of_isIn (h : Corresponds r region a b) {args : List Value} {store : Store}
    (hargs : ∀ u ∈ args, u.IsIn region store) : SameEquality r args := by
  intro u hu v hv
  cases u with
  | procedure p =>
    cases v with
    | procedure q =>
      have hp := (hargs _ hu p rfl).2.2.1
      have hq := (hargs _ hv q rfl).2.2.1
      change (r.procedure p.id == r.procedure q.id) = (p.id == q.id)
      rw [Bool.eq_iff_iff, beq_iff_eq, beq_iff_eq]
      exact ⟨fun heq => h.injProcedure hp hq heq, fun heq => by rw [heq]⟩
    | number | boolean | builtin => rfl
  | number | boolean | builtin => cases v <;> rfl

/-- A call makes the new scope of its frame in both stores, or fails in both. -/
theorem enter_lockstep (h : Corresponds r region a b) {p : Procedure} {args : List Value}
    (hp : (Value.procedure p).IsIn region a) (hargs : ∀ u ∈ args, u.IsIn region a) :
    Lockstep (correspondence r region)
      (fun store s t => t = r.scope s ∧ s ∈ region.scopes ∧ store.Has s)
      (enter p args) (enter (p.rename r) (args.map (Value.rename r))) a b := by
  have hbindings : (({} : Table Value).insertAll p.params args).map (Value.rename r) =
      ({} : Table Value).insertAll p.params (args.map (Value.rename r)) :=
    Table.map_insertAll ..
  unfold enter
  rw [List.length_map]
  refine Lockstep.bind (Action.ofExcept_lockstep (J := fun _ u v => u = v) _ h fun _ _ => rfl) ?_
  rintro _ _ a b h hle -
  have hnext := h.freshScope 0
  obtain ⟨hscope, hhas, -⟩ := hle.isIn hp p rfl
  have hargs' : ∀ v ∈ (({} : Table Value).insertAll p.params args).values, v.IsIn region a := by
    intro v hv
    rcases Table.mem_values_insertAll hv with hv | hv
    · exact hle.isIn (hargs v hv)
    · exact absurd hv List.not_mem_nil
  have hparent : ∀ q ∈ some p.scope, q ∈ region.scopes ∧ a.Has q := by
    rintro q ⟨rfl⟩
    exact ⟨hscope, hhas⟩
  have hnew := h.newScope hparent hargs'
  rw [hbindings] at hnew
  exact Lockstep.modifyGet hnew (extends_newScope hnext.1 ..)
    ⟨hnext.2.symm, hnext.1, a.has_newScope _ _⟩

/-! ### Whole evaluations -/

/-- **Evaluation in corresponding stores goes in lockstep.** -/
theorem eval_lockstep (limit : UInt64) (fuel : Nat) (hs : s ∈ region.scopes) :
    EvalLockstep r region s (eval limit fuel s) (eval limit fuel (r.scope s)) := by
  induction fuel generalizing s with
  | zero =>
    intro tree a b h _
    exact Lockstep.throw h
  | succ fuel ih =>
    intro tree a b h ha
    rcases tree with token | (_ | ⟨head, operands⟩)
    · exact evalAtom_lockstep h hs token
    · exact Lockstep.throw h
    · rw [eval, eval]
      cases head.specialForm? with
      | some form =>
        refine Lockstep.bind (Action.ofExcept_lockstep (J := fun _ u v => u = v) _ h
          fun _ _ => rfl) ?_
        rintro _ _ a b h hle -
        exact SpecialForm.run_lockstep (ih hs) h hs (hle.has ha) form operands
      | none =>
        refine Lockstep.bind (ih hs head a b h ha) ?_
        rintro u _ a' b' h hle ⟨rfl, hu⟩
        have ha' := hle.has ha
        cases u with
        | number n => exact Lockstep.throw h
        | boolean x => exact Lockstep.throw h
        | builtin f =>
          refine Lockstep.bind (evalOperands_lockstep (ih hs) operands h ha') ?_
          rintro args _ a b h - ⟨rfl, hargs⟩
          rw [f.call_rename (sameEquality_of_isIn h hargs)]
          refine Action.ofExcept_lockstep _ h fun v hv => ?_
          have hnone := Builtin.procedure?_of_call hv
          exact ⟨(Value.rename_of_procedure?_eq_none hnone).symm,
            Value.isIn_of_procedure?_eq_none hnone⟩
        | procedure p =>
          refine Lockstep.bind (evalOperands_lockstep (ih hs) operands h ha') ?_
          rintro args _ a b h hle' ⟨rfl, hargs⟩
          refine Lockstep.bind (enter_lockstep h (hle'.isIn hu) hargs) ?_
          rintro inner _ a b h - ⟨rfl, hinner, hhas⟩
          exact ih hinner p.body a b h hhas

/-- A special form that the host calls is carried out alike, at every depth. -/
theorem SpecialForm.runAt_lockstep (form : SpecialForm) (depth : Depth) (operands : List SExpr)
    (h : Corresponds r region a b) (hs : s ∈ region.scopes) (ha : a.Has s) :
    Lockstep (correspondence r region) (Value.Transported r region)
      (form.runAt depth s operands) (form.runAt depth (r.scope s) operands) a b :=
  SpecialForm.run_lockstep (eval_lockstep _ _ hs) h hs ha form operands

end StrictScheme
