/-
# Calls as substitution

The body of a procedure is evaluated in a scope of its own, where the parameters are
bound.  Without definitions and assignments in the body, and with numbers and truth values
as arguments, this comes to the same as writing the arguments in the place of the
parameters and evaluating the body in the scope in which the procedure was defined
(`Store.Sound.apply_substitute`).

Nothing but the evaluation of the body refers to the scope of the call, so whatever is
called from there leaves it as it is (`Store.IsFrame.eval`).  Hence, from any store with
that scope in it, the body and the body with the arguments written into it are evaluated
alike, to the last number (`Store.IsFrame.eval_eq`).  Without that scope the numbers given
out are others, and that is all (`Store.Sound.corresponds_later`).
-/

import StrictScheme.Proofs.Eval.Local
import StrictScheme.Proofs.Store.Renew

namespace StrictScheme

open Store

variable {limit : UInt64} {fuel : Nat} {α β : Type} {a b c store : Store}
  {s call home : ScopeId} {name token : String} {v : Value} {p : Procedure} {args : List Value}
  {values : List (String × Value)}

/-! ### Applying a procedure -/

/-- Evaluates the body of a procedure with the parameters bound to values. -/
def Procedure.apply (limit : UInt64) (fuel : Nat) (p : Procedure) (args : List Value) :
    Action Value := do
  let inner ← enter p args
  eval limit fuel inner p.body

/-- **A call applies a procedure to the values of the operands.** -/
theorem eval_call {head : SExpr} {operands : List SExpr} (hform : head.specialForm? = none)
    (hhead : eval limit fuel s head a = .ok (.procedure p) b)
    (hoperands : evalOperands (eval limit fuel s) operands b = .ok args c) :
    eval limit (fuel + 1) s (.list (head :: operands)) a = p.apply limit fuel args c := by
  rw [eval, hform]
  simp only [Bind.bind, EStateM.bind, hhead, hoperands, Procedure.apply]

/-- The scope of a call, inside the one in which the procedure was defined. -/
def Procedure.frame (p : Procedure) (store : Store) (args : List Value) : Scope :=
  ⟨store.chain p.scope, ({} : Table Value).insertAll p.params args⟩

/-- A call with the right number of arguments evaluates the body in its frame. -/
theorem Procedure.apply_eq (limit : UInt64) (fuel : Nat) (hcount : args.length = p.params.length)
    (store : Store) :
    p.apply limit fuel args store =
      eval limit fuel store.nextScope p.body (store.push (p.frame store args)) := by
  have hvalid : (Arity.exactly p.params.length).validate p.name args.length = .ok () := by
    simp [Arity.validate, Arity.accepts, hcount]
  unfold Procedure.apply enter
  rw [hvalid]
  rfl

/-- A procedure that was made by a definition. -/
def Procedure.IsDefined (p : Procedure) : Prop :=
  ∃ s signature body before after,
    defineProcedure s signature body before = .ok (.procedure p) after

/-- The parameters of a definition are different names. -/
theorem Procedure.IsDefined.params (h : p.IsDefined) :
    p.params.Nodup ∧ ∀ x ∈ p.params, Atom.ofToken x = .identifier x := by
  obtain ⟨s, signature, body, before, after, h⟩ := h
  rcases defineProcedure_cases s signature body before with
    ⟨e, hfails⟩ | ⟨_, paramTrees, name, params, -, -, hparams, -, hdone⟩
  · rw [hfails] at h
    cases h
  · rw [hdone] at h
    cases h
    exact (SpecialForm.parameters_nil_eq_ok hparams).2

/-! ### Writing values into a tree -/

/-- Numbers and truth values can be written as literals. -/
def Value.IsLiteral : Value → Prop
  | .number _ => True
  | .boolean _ => True
  | .builtin _ => False
  | .procedure _ => False

/-- A name evaluates to what it stands for. -/
theorem evalAtom_identifier (h : Atom.ofToken token = .identifier name) (s : ScopeId) (a : Store) :
    evalAtom s token a =
      match a.lookup s name with
      | some v => .ok v a
      | none => .error (.unknownIdentifier name) a := by
  rw [evalAtom, h]
  change (match a.lookup s name with
    | some v => pure v
    | none => throw (.unknownIdentifier name) : Action Value) a = _
  cases a.lookup s name <;> rfl

/-- **A printed literal evaluates to the value it was printed from.** -/
theorem evalAtom_print (h : v.IsLiteral) (s : ScopeId) : evalAtom s v.print = pure v := by
  cases v with
  | number n => rw [Value.print, evalAtom, Atom.ofToken_print]
  | boolean b => rw [Value.print, evalAtom, Atom.ofToken_printBoolean]
  | builtin b => exact h.elim
  | procedure p => exact h.elim

/-- A printed literal is no name. -/
theorem Value.IsLiteral.ofToken_print_ne (h : v.IsLiteral) (name : String) :
    Atom.ofToken v.print ≠ .identifier name := by
  cases v with
  | number n => rw [Value.print, Atom.ofToken_print]; exact nofun
  | boolean b => rw [Value.print, Atom.ofToken_printBoolean]; exact nofun
  | builtin b => exact h.elim
  | procedure p => exact h.elim

/-- A literal is no keyword. -/
theorem Value.IsLiteral.print_ne_keyword (h : v.IsLiteral) (form : SpecialForm) :
    v.print ≠ form.keyword := by
  intro heq
  refine h.ofToken_print_ne form.keyword ?_
  rw [heq]
  cases form <;> decide

namespace SExpr

mutual

/-- A tree with values, as they are printed, in the place of some atoms. -/
def substitute (values : List (String × Value)) : SExpr → SExpr
  | .atom token =>
    match values.lookup token with
    | some v => .atom v.print
    | none => .atom token
  | .list elements => .list (substituteAll values elements)

/-- The same of trees that stand one after the other. -/
def substituteAll (values : List (String × Value)) : List SExpr → List SExpr
  | [] => []
  | first :: rest => substitute values first :: substituteAll values rest

end

/-- No call becomes a special form. -/
theorem specialForm?_substitute (hvalues : ∀ x v, values.lookup x = some v → v.IsLiteral)
    {head : SExpr} (h : head.specialForm? = none) :
    (head.substitute values).specialForm? = none := by
  refine Option.eq_none_iff_forall_ne_some.2 fun form hform => ?_
  cases head with
  | list elements => exact absurd hform nofun
  | atom token =>
    have hatom := eq_atom_of_specialForm? hform
    rw [substitute] at hform hatom
    cases hv : values.lookup token with
    | none =>
      rw [hv] at hform
      exact absurd (h.symm.trans hform) nofun
    | some v =>
      rw [hv] at hatom
      exact (hvalues token v hv).print_ne_keyword form (SExpr.atom.inj hatom)

end SExpr

/-! ### The scope of a call -/

/-- The scope of a call stands inside the scope in which the procedure was defined, binds names to
literals, and is referred to by no other scope. -/
structure Store.IsFrame (values : List (String × Value)) (call home : ScopeId) (store : Store) :
    Prop where
  literals : ∀ {x v}, values.lookup x = some v → v.IsLiteral ∧ Atom.ofToken x = .identifier x
  scope : ∃ scope, store.scope? call = some scope ∧ scope.outer = store.chain home ∧
    ∀ name, scope.bindings.get? name = values.lookup name
  has : store.Has home
  ne : home ≠ call
  alone : Corresponds .same (Region.of {t | t ≠ call}) store store

namespace Store.IsFrame

/-- Names are looked up among the parameters first, and then at home. -/
theorem lookup (h : IsFrame values call home a) (name : String) :
    a.lookup call name = (values.lookup name).or (a.lookup home name) := by
  obtain ⟨scope, hscope, houter, hbindings⟩ := h.scope
  have hlocal : a.local? call name = values.lookup name := by
    rw [local?, hscope, ← hbindings name]
    rfl
  rw [Store.lookup, binder?, chain_eq hscope, houter, List.find?_cons, bindsLocally, hlocal]
  cases hv : values.lookup name with
  | some v => simp [hlocal, hv]
  | none => rfl

/-- **What is evaluated at home leaves the scope of the call as it is.** -/
theorem eval (h : IsFrame values call home a) (limit : UInt64) (fuel : Nat) (tree : SExpr) :
    IsFrame values call home ((eval limit fuel home tree).exec a).2 := by
  have hboth := eval_lockstep limit fuel h.ne tree a a h.alone h.has
  obtain ⟨halone, hle, -⟩ := exec_of_lockstep hboth
  have hgrows : GrowsAt home a ((StrictScheme.eval limit fuel home tree).exec a).2 :=
    (localNames.eval_keeps limit fuel home trivial trivial trivial).change
  obtain ⟨scope, hscope, houter, hbindings⟩ := h.scope
  refine ⟨h.literals, ⟨scope, ?_, ?_, hbindings⟩, hle.has h.has, h.ne, halone⟩
  · exact (hle.outside fun hcall => hcall rfl).trans hscope
  · exact houter.trans (hgrows.chain h.has).symm

end Store.IsFrame

/-- Computations that start alike go on alike if what follows does. -/
theorem Action.bind_eq_of_eq {x y : Action α} {f g : α → Action β} (h : x a = y a)
    (hfg : ∀ u, f u (y.exec a).2 = g u (y.exec a).2) : (x >>= f) a = (y >>= g) a := by
  simp only [Bind.bind, EStateM.bind, h]
  unfold Action.exec at hfg
  cases hy : y a with
  | error e after => rfl
  | ok u after =>
    rw [hy] at hfg
    exact hfg u

namespace Store.IsFrame

/-- An atom has the value that its substitute has outside the frame. -/
theorem evalAtom_eq (h : IsFrame values call home a) (token : String) :
    evalAtom call token a =
      StrictScheme.eval limit (fuel + 1) home ((SExpr.atom token).substitute values) a := by
  rw [SExpr.substitute]
  cases hv : values.lookup token with
  | some v =>
    obtain ⟨hliteral, hname⟩ := h.literals hv
    change _ = evalAtom home v.print a
    rw [evalAtom_print hliteral, evalAtom_identifier hname, h.lookup, hv]
    rfl
  | none =>
    change _ = evalAtom home token a
    cases hatom : Atom.ofToken token with
    | boolean b => rw [evalAtom, evalAtom, hatom]
    | number n => rw [evalAtom, evalAtom, hatom]
    | identifier name =>
      obtain rfl := (Atom.ofToken_eq_identifier.1 hatom).1
      rw [evalAtom_identifier hatom, evalAtom_identifier hatom, h.lookup, hv, Option.none_or]

/-- So have the operands. -/
theorem evalOperands_eq
    (heval : ∀ {tree a}, tree.IsPure → IsFrame values call home a →
      StrictScheme.eval limit fuel call tree a =
        StrictScheme.eval limit fuel home (tree.substitute values) a)
    {operands : List SExpr} (hpure : ∀ tree ∈ operands, tree.IsPure)
    (h : IsFrame values call home a) :
    evalOperands (StrictScheme.eval limit fuel call) operands a =
      evalOperands (StrictScheme.eval limit fuel home)
        (SExpr.substituteAll values operands) a := by
  induction operands generalizing a with
  | nil => rfl
  | cons first rest ih =>
    obtain ⟨hfirst, hrest⟩ := List.forall_mem_cons.1 hpure
    rw [SExpr.substituteAll, evalOperands, evalOperands]
    refine Action.bind_eq_of_eq (heval hfirst h) fun u => ?_
    exact Action.bind_eq_of_eq (ih hrest (h.eval limit fuel _)) fun us => rfl

/-- **In the scope of a call, a body is evaluated as it is at home with the values written into
it.** -/
theorem eval_eq (h : IsFrame values call home a) (limit : UInt64) (fuel : Nat) {tree : SExpr}
    (hpure : tree.IsPure) :
    StrictScheme.eval limit fuel call tree a =
      StrictScheme.eval limit fuel home (tree.substitute values) a := by
  induction fuel generalizing tree a with
  | zero => rfl
  | succ fuel ih =>
    rcases tree with token | (_ | ⟨head, operands⟩)
    · exact h.evalAtom_eq token
    · rfl
    · have helements : ∀ tree ∈ head :: operands, tree.IsPure := fun _ => hpure.element
      obtain ⟨hhead, hoperands⟩ := List.forall_mem_cons.1 helements
      have hform := hpure.specialForm?_eq_none
      have hform' := SExpr.specialForm?_substitute (fun _ _ hv => (h.literals hv).1) hform
      rw [SExpr.substitute, SExpr.substituteAll, StrictScheme.eval, StrictScheme.eval, hform,
        hform']
      refine Action.bind_eq_of_eq (ih h hhead) fun v => ?_
      have hargs := evalOperands_eq (fun hpure h => ih h hpure) hoperands
        (h.eval limit fuel (head.substitute values))
      -- with the operands evaluated, the two calls are one and the same
      cases v with
      | number n => rfl
      | boolean x => rfl
      | builtin f => exact Action.bind_eq_of_eq hargs fun _ => rfl
      | procedure p => exact Action.bind_eq_of_eq hargs fun _ => rfl

end Store.IsFrame

/-- The arguments of a procedure are literals under the names of the parameters. -/
theorem Procedure.IsDefined.literals (h : p.IsDefined) (hargs : ∀ v ∈ args, v.IsLiteral)
    (hv : (p.params.zip args).lookup name = some v) :
    v.IsLiteral ∧ Atom.ofToken name = .identifier name := by
  obtain ⟨before, after, hzip, -⟩ := List.lookup_eq_some_iff.1 hv
  have hmem : (name, v) ∈ p.params.zip args := by
    rw [hzip]
    exact List.mem_append_right _ (List.mem_cons_self ..)
  exact ⟨hargs v (List.of_mem_zip hmem).2, h.params.2 name (List.of_mem_zip hmem).1⟩

/-- No scope there was refers to a new one. -/
theorem Store.Sound.corresponds_push_self (h : store.Sound) (scope : Scope) :
    Corresponds .same (Region.of {t | t ≠ store.nextScope}) (store.push scope)
      (store.push scope) := by
  have hbefore {t : ScopeId} {found : Scope} (ht : t ≠ store.nextScope)
      (hfound : (store.push scope).scope? t = some found) : store.scope? t = some found := by
    rwa [scope?_push, if_neg ht] at hfound
  refine ClosedOn.corresponds_same ⟨?_, ?_⟩ (fun _ _ _ => Region.admits_of ..) ?_
    (fun _ => Set.mem_univ _)
  · intro t found ht hfound
    rw [h.outer (hbefore ht hfound)]
    cases hparent : found.parent? with
    | none => rfl
    | some u =>
      have hu := h.has_of_mem_references (hbefore ht hfound)
        (Scope.mem_references.2 (.inl hparent))
      exact (chain_push scope hu).symm
  · intro t found u ht hfound hu
    have hhas := h.has_of_mem_references (hbefore ht hfound) hu
    exact ⟨ne_nextScope hhas, has_push scope hhas⟩
  · intro k
    refine Nat.ne_of_gt ?_
    rw [nextScope_push]
    exact Nat.lt_of_lt_of_le (Nat.lt_succ_self _) (Nat.le_add_right ..)

/-- The scope that is made for a call. -/
theorem Store.Sound.isFrame_push (h : store.Sound) (hp : p.IsDefined)
    (hscope : store.Has p.scope) (hargs : ∀ v ∈ args, v.IsLiteral) :
    IsFrame (p.params.zip args) store.nextScope p.scope (store.push (p.frame store args)) where
  literals := hp.literals hargs
  scope := by
    refine ⟨p.frame store args, ?_, (chain_push _ hscope).symm, fun name => ?_⟩
    · rw [scope?_push, if_pos rfl]
    · exact (Table.get?_insertAll hp.params.1 {} args name).trans (Option.or_none ..)
  has := has_push _ hscope
  ne := ne_nextScope hscope
  alone := h.corresponds_push_self _

/-- **A call is the evaluation of the body with the arguments written into it.**  The arguments
are numbers and truth values, and the body has no definition or assignment in it.  Then both
give the same value or error and leave the same scopes, but for the numbers of those that were
made on the way. -/
theorem Store.Sound.apply_substitute (h : store.Sound) (hp : p.IsDefined)
    (hscope : store.Has p.scope) (hpure : p.body.IsPure) (args : List Value)
    (hcount : args.length = p.params.length) (hargs : ∀ v ∈ args, v.IsLiteral)
    (limit : UInt64) (fuel : Nat) :
    let called := (p.apply limit fuel args).exec store
    let substituted :=
      (eval limit fuel p.scope (p.body.substitute (p.params.zip args))).exec store
    ∃ r : Renaming, Function.Injective r.scope ∧ (∀ t < store.nextScope, r.scope t = t) ∧
      (∀ id, r.procedure id = id) ∧
      called.1 = substituted.1.map (Value.rename r) ∧
      ∀ t, called.2.scope? (r.scope t) = (substituted.2.scope? t).map (Scope.rename r) := by
  intro called substituted
  have hcalled : called = (eval limit fuel p.scope (p.body.substitute (p.params.zip args))).exec
      (store.push (p.frame store args)) := by
    simp only [called, Action.exec, Procedure.apply_eq limit fuel hcount,
      (h.isFrame_push hp hscope hargs).eval_eq limit fuel hpure]
  have hboth := eval_lockstep limit fuel (Set.mem_univ p.scope)
    (p.body.substitute (p.params.zip args)) store _
    (h.corresponds_push (p.frame store args)) hscope
  rw [renumber_of_lt hscope.lt_nextScope] at hboth
  obtain ⟨hafter, -, hresult, -⟩ := exec_of_lockstep hboth
  rw [hcalled]
  exact ⟨_, renumber_injective (Nat.le_succ _), fun t ht => renumber_of_lt ht _, fun _ => rfl,
    hresult, fun t => hafter.scope? (Set.mem_univ t)⟩

/-- A procedure whose parameter goes by the name of a counter, and which hands its argument on to
a procedure that counts. -/
def handOn : Procedure :=
  ⟨1, "f", ["n"], .list [.atom "count", .atom "n"], 0⟩

/-- A session with the counter and both procedures. -/
def counting : Session :=
  ((Session.new {}).steps
    [.define .global "n" (.number 0),
      .evaluateTree (.list [.atom "define", .list [.atom "count", .atom "k"],
        .list [.atom "set!", .atom "n", .list [.atom "+", .atom "n", .atom "k"]]]) .global 10 none,
      .evaluateTree (.list [.atom "define", .list [.atom "f", .atom "n"], handOn.body])
        .global 10 none]).2

/-- A call that counts, through another procedure, by the number it is given. -/
theorem counting_apply_substitute :
    let called := (evaluate 10 0 (.list [.atom "f", .atom "5"])).exec counting.store
    let substituted := (eval 10 9 0 (.list [.atom "count", .atom "5"])).exec counting.store
    called.1 = .ok (.number 5) ∧ ∃ r : Renaming, (∀ t < counting.store.nextScope, r.scope t = t) ∧
      called.1 = substituted.1.map (Value.rename r) ∧
      ∀ t, called.2.scope? (r.scope t) = (substituted.2.scope? t).map (Scope.rename r) := by
  intro called substituted
  have hsound : counting.store.Sound := ((Session.Reachable.new {}).steps _).sound.store
  have hlookup : counting.store.lookup 0 "f" = some (.procedure handOn) := by decide +kernel
  have hdefined : handOn.IsDefined :=
    ⟨0, [.atom "f", .atom "n"], handOn.body, { nextProcedure := 1 }, _, rfl⟩
  have hscope : (counting.store.scope? 0).isSome = true := by decide +kernel
  have hcalled : called = (handOn.apply 10 9 [.number 5]).exec counting.store := by
    have hhead : eval 10 9 0 (.atom "f") counting.store =
        .ok (.procedure handOn) counting.store := by
      have hname : Atom.ofToken "f" = .identifier "f" := by decide
      exact (evalAtom_identifier hname 0 counting.store).trans (by rw [hlookup])
    have hoperands : evalOperands (eval 10 9 0) [.atom "5"] counting.store =
        .ok [.number 5] counting.store := rfl
    have hcall := eval_call rfl hhead hoperands
    change Action.exec (eval 10 (9 + 1) 0 (.list [.atom "f", .atom "5"])) counting.store = _
    rw [Action.exec, hcall]
    rfl
  obtain ⟨r, -, hfixed, -, hresult, hscopes⟩ := hsound.apply_substitute hdefined
    (Option.isSome_iff_exists.1 hscope) (by decide) [.number 5] rfl (by simp [Value.IsLiteral]) 10 9
  rw [hcalled]
  exact ⟨by decide +kernel, r, hfixed, hresult, hscopes⟩

end StrictScheme
