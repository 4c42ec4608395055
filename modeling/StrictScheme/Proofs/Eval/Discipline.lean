/-
# What every evaluation keeps to

An invariant of evaluation says what holds of the store all along, in which scopes trees
are evaluated, which trees these are, which values are at hand, and what an evaluation
in a scope may do to the store.  A `Discipline` names these five, together with what they
owe to one another: for each way in which an evaluation reads or changes the store (a
look-up, a definition, an assignment, a new procedure, a new scope for a call), that it
stays within them.

Then every evaluation keeps to the discipline (`Discipline.eval_keeps`), whether or not it
fails.  The evaluator is gone through here once; each invariant is then a discipline.
-/

import StrictScheme.Proofs.Atom
import StrictScheme.Proofs.Eval.Confined

namespace StrictScheme

variable {α β : Type} {form : SpecialForm} {tree : SExpr} {token name : String}

/-! ### What the special forms accept -/

/-- A tree names a special form only if it is its keyword. -/
theorem SExpr.eq_atom_of_specialForm? (h : tree.specialForm? = some form) :
    tree = .atom form.keyword := by
  cases tree with
  | list elements => exact absurd h nofun
  | atom token =>
    have hkeyword := List.find?_some h
    rw [eq_of_beq hkeyword]

/-- A special form takes a name from the atom that spells it. -/
theorem SpecialForm.identifier_eq_ok (h : form.identifier tree = .ok name) :
    tree = .atom name ∧ Atom.ofToken name = .identifier name := by
  unfold SpecialForm.identifier at h
  cases tree with
  | list elements => exact absurd h nofun
  | atom token =>
    cases hatom : Atom.ofToken token with
    | boolean b => simp [hatom] at h
    | number n => simp [hatom] at h
    | identifier found =>
      simp only [hatom, Except.ok.injEq] at h
      obtain rfl := (Atom.ofToken_eq_identifier.1 hatom).1
      subst h
      exact ⟨rfl, hatom⟩

/-- **Parameters are different names**, the ones that the signature gives. -/
theorem SpecialForm.parameters_eq_ok {trees : List SExpr} {seen params : List String}
    (h : form.parameters seen trees = .ok params) :
    ∃ names, params = seen.reverse ++ names ∧ trees = names.map .atom ∧ names.Nodup ∧
      ∀ x ∈ names, x ∉ seen ∧ Atom.ofToken x = .identifier x := by
  induction trees generalizing seen with
  | nil =>
    obtain rfl := Except.ok.inj h
    exact ⟨[], (List.append_nil _).symm, rfl, List.nodup_nil, nofun⟩
  | cons tree rest ih =>
    unfold SpecialForm.parameters at h
    cases hname : form.identifier tree with
    | error e => rw [hname] at h; exact absurd h nofun
    | ok name =>
      rw [hname] at h
      by_cases hmem : name ∈ seen
      · simp only [bind, Except.bind, if_pos hmem] at h
        exact absurd h nofun
      · simp only [bind, Except.bind, if_neg hmem] at h
        obtain ⟨names, hparams, rfl, hnodup, hnames⟩ := ih h
        obtain ⟨rfl, hatom⟩ := SpecialForm.identifier_eq_ok hname
        refine ⟨name :: names, by simp [hparams], rfl, ?_, ?_⟩
        · exact List.nodup_cons.2 ⟨fun hx => (hnames name hx).1 List.mem_cons_self, hnodup⟩
        · refine List.forall_mem_cons.2 ⟨⟨hmem, hatom⟩, fun x hx => ?_⟩
          obtain ⟨hfree, hx⟩ := hnames x hx
          exact ⟨fun hseen => hfree (List.mem_cons_of_mem _ hseen), hx⟩

/-- The parameters of a signature are all that follows the name. -/
theorem SpecialForm.parameters_nil_eq_ok {trees : List SExpr} {params : List String}
    (h : form.parameters [] trees = .ok params) :
    trees = params.map .atom ∧ params.Nodup ∧ ∀ x ∈ params, Atom.ofToken x = .identifier x := by
  obtain ⟨names, rfl, htrees, hnodup, hnames⟩ := parameters_eq_ok h
  exact ⟨htrees, hnodup, fun x hx => (hnames x hx).2⟩

/-- The definition of a procedure, once its signature is found to be made of different names. -/
theorem defineProcedure_of_names {nameTree : SExpr} {paramTrees : List SExpr} {params : List String}
    (hname : SpecialForm.define.identifier nameTree = .ok name)
    (hparams : SpecialForm.define.parameters [] paramTrees = .ok params) (s : ScopeId)
    (body : SExpr) (a : Store) :
    defineProcedure s (nameTree :: paramTrees) body a =
      let made := a.newProcedure name params body s
      if a.bindsLocally s name then .error (.duplicateDefinition name) a
      else .ok (.procedure made.1) (made.2.bind s name (.procedure made.1)) := by
  simp only [defineProcedure, hname, hparams]
  change (if a.bindsLocally s name = true then _ else _ : Action Value) a = _
  split <;> rfl

/-- **A definition of a procedure fails and changes nothing, or it binds a new procedure.**  Then
its signature is made of different names, and the first of them was not bound in the scope. -/
theorem defineProcedure_cases (s : ScopeId) (signature : List SExpr) (body : SExpr) (a : Store) :
    (∃ e, defineProcedure s signature body a = .error e a) ∨
      ∃ nameTree paramTrees name params, signature = nameTree :: paramTrees ∧
        SpecialForm.define.identifier nameTree = .ok name ∧
        SpecialForm.define.parameters [] paramTrees = .ok params ∧
        a.bindsLocally s name = false ∧
        let made := a.newProcedure name params body s
        defineProcedure s signature body a =
          .ok (.procedure made.1) (made.2.bind s name (.procedure made.1)) := by
  cases signature with
  | nil => exact .inl ⟨_, rfl⟩
  | cons nameTree paramTrees =>
    cases hname : SpecialForm.define.identifier nameTree with
    | error e => exact .inl ⟨e, by simp only [defineProcedure, hname]; rfl⟩
    | ok name =>
      cases hparams : SpecialForm.define.parameters [] paramTrees with
      | error e => exact .inl ⟨e, by simp only [defineProcedure, hname, hparams]; rfl⟩
      | ok params =>
        rw [defineProcedure_of_names hname hparams]
        cases hbound : a.bindsLocally s name with
        | true => exact .inl ⟨_, rfl⟩
        | false => exact .inr ⟨nameTree, paramTrees, name, params, rfl, hname, hparams, hbound, rfl⟩

/-- An exact arity accepts one number of arguments. -/
theorem Arity.eq_of_validate_exactly {n count : Nat}
    (h : (Arity.exactly n).validate name count = .ok ()) : count = n := by
  by_contra hne
  simp [Arity.validate, Arity.accepts, hne] at h

/-! ### Disciplines -/

/-- **What evaluations keep to**, and why they do. -/
structure Discipline where
  /-- What holds of the store all along. -/
  Inv : Store → Prop
  /-- The scopes in which trees are evaluated. -/
  Place : Store → ScopeId → Prop
  /-- The trees that are evaluated. -/
  Tree : SExpr → Prop
  /-- The values at hand. -/
  Val : Store → Value → Prop
  /-- What an evaluation in a scope may do to the store. -/
  Change : ScopeId → Store → Store → Prop
  refl : ∀ s a, Change s a a
  trans : ∀ {s a b c}, Change s a b → Change s b c → Change s a c
  place_mono : ∀ {s a b}, Change s a b → Place a s → Place b s
  val_mono : ∀ {s a b v}, Change s a b → Val a v → Val b v
  element : ∀ {elements tree}, Tree (.list elements) → tree ∈ elements → Tree tree
  /-- Numbers, truth values and builtins are always at hand. -/
  plain : ∀ {a v}, v.procedure? = none → Val a v
  lookup : ∀ {s a name v}, Inv a → Place a s → a.lookup s name = some v → Val a v
  define : ∀ {s a name expr v}, Inv a → Place a s → Val a v →
    Tree (.list [.atom SpecialForm.define.keyword, .atom name, expr]) →
    Atom.ofToken name = .identifier name → a.bindsLocally s name = false →
    Inv (a.bind s name v) ∧ Change s a (a.bind s name v)
  assign : ∀ {s a name expr v t}, Inv a → Place a s → Val a v →
    Tree (.list [.atom SpecialForm.set.keyword, .atom name, expr]) → a.binder? s name = some t →
    Inv (a.bind t name v) ∧ Change s a (a.bind t name v)
  procedure : ∀ {s a name params body}, Inv a → Place a s →
    Tree (.list [.atom SpecialForm.define.keyword, .list (.atom name :: params.map .atom), body]) →
    Atom.ofToken name = .identifier name → params.Nodup →
    (∀ x ∈ params, Atom.ofToken x = .identifier x) → a.bindsLocally s name = false →
    let made := a.newProcedure name params body s
    let after := made.2.bind s name (.procedure made.1)
    Inv after ∧ Change s a after ∧ Val after (.procedure made.1)
  /-- What happens in the scope of a call is within what the caller may do. -/
  enter : ∀ {s a p args}, Inv a → Val a (.procedure p) → (∀ v ∈ args, Val a v) →
    args.length = p.params.length →
    let call := a.newScope (some p.scope) (({} : Table Value).insertAll p.params args)
    Inv call.2 ∧ Place call.2 call.1 ∧ Tree p.body ∧
      ∀ {b}, Change call.1 call.2 b → Change s a b

/-- Carrying out one action after the other, with the store that the first one leaves. -/
theorem Action.exec_bind (x : Action α) (f : α → Action β) (a : Store) :
    (x >>= f).exec a = match x.exec a with
      | (.ok u, b) => (f u).exec b
      | (.error e, b) => (.error e, b) := by
  simp only [exec, Bind.bind, EStateM.bind]
  cases x a <;> rfl

namespace Discipline

variable {d : Discipline} {s : ScopeId} {a : Store} {J : Store → α → Prop}
  {K : Store → β → Prop}

/-- A computation keeps to a discipline on behalf of a scope, and what it returns satisfies
`J`. -/
structure Keeps (d : Discipline) (s : ScopeId) (J : Store → α → Prop) (x : Action α)
    (a : Store) : Prop where
  inv : d.Inv (x.exec a).2
  change : d.Change s a (x.exec a).2
  result : ∀ {u}, (x.exec a).1 = .ok u → J (x.exec a).2 u

namespace Keeps

/-- Returning a value keeps to a discipline. -/
theorem pure {u : α} (h : d.Inv a) (hu : J a u) : d.Keeps s J (Pure.pure u) a where
  inv := h
  change := d.refl s a
  result heq := Except.ok.inj heq ▸ hu

/-- So does failing. -/
theorem throw {e : Error} (h : d.Inv a) : d.Keeps s J (MonadExcept.throw e : Action α) a where
  inv := h
  change := d.refl s a
  result := nofun

/-- A result that no store takes part in. -/
theorem ofExcept {x : Except Error α} (h : d.Inv a) (hx : ∀ {u}, x = .ok u → J a u) :
    d.Keeps s J (Action.ofExcept x) a := by
  cases x with
  | error e => exact throw h
  | ok u => exact pure h (hx rfl)

/-- What follows a failure does not matter. -/
theorem throw_bind {e : Error} {f : α → Action β} (h : d.Inv a) :
    d.Keeps s K (MonadExcept.throw e >>= f) a where
  inv := h
  change := d.refl s a
  result := nofun

/-- Going on with a result that no store takes part in. -/
theorem ofExcept_bind {x : Except Error α} {f : α → Action β} (h : d.Inv a)
    (hf : ∀ u, x = .ok u → d.Keeps s K (f u) a) : d.Keeps s K (Action.ofExcept x >>= f) a := by
  cases x with
  | error e => exact throw_bind h
  | ok u => exact ⟨(hf u rfl).inv, (hf u rfl).change, (hf u rfl).result⟩

/-- Reading the store. -/
theorem get_bind {f : Store → Action α} (h : d.Keeps s J (f a) a) : d.Keeps s J (get >>= f) a :=
  ⟨h.inv, h.change, h.result⟩

/-- Changing the store. -/
theorem modify {f : Store → Store} (h : d.Inv (f a)) (hle : d.Change s a (f a)) :
    d.Keeps s (fun _ _ => True) (modify f : Action PUnit) a :=
  ⟨h, hle, fun _ => trivial⟩

/-- Changing the store and going on, on behalf of another scope, with what is returned. -/
theorem modifyGet_bind {inner : ScopeId} {f : Store → α × Store} {k : α → Action β}
    (h : d.Keeps inner K (k (f a).1) (f a).2)
    (hchange : ∀ {b}, d.Change inner (f a).2 b → d.Change s a b) :
    d.Keeps s K (MonadStateOf.modifyGet f >>= k) a where
  inv := h.inv
  change := hchange h.change
  result := h.result

/-- **One computation after the other.** -/
theorem bind {x : Action α} {f : α → Action β} (hx : d.Keeps s J x a)
    (hf : ∀ u b, d.Inv b → d.Change s a b → J b u → d.Keeps s K (f u) b) :
    d.Keeps s K (x >>= f) a := by
  obtain ⟨hinv, hchange, hresult⟩ := hx
  have hexec := Action.exec_bind x f a
  rcases hx : x.exec a with ⟨e | u, b⟩
  · rw [hx] at hexec hinv hchange
    constructor
    · rw [hexec]; exact hinv
    · rw [hexec]; exact hchange
    · rw [hexec]; exact nofun
  · rw [hx] at hexec hinv hchange hresult
    obtain ⟨hinv', hchange', hresult'⟩ := hf u b hinv hchange (hresult rfl)
    constructor
    · rw [hexec]; exact hinv'
    · rw [hexec]; exact d.trans hchange hchange'
    · rw [hexec]; exact hresult'

end Keeps

/-! ### The parts of an evaluation -/

/-- A definition keeps to a discipline. -/
theorem define_keeps {name : String} {expr : SExpr} {v : Value} (h : d.Inv a)
    (hs : d.Place a s) (hv : d.Val a v)
    (htree : d.Tree (.list [.atom SpecialForm.define.keyword, .atom name, expr]))
    (hname : Atom.ofToken name = .identifier name) :
    d.Keeps s (fun _ _ => True) (Action.define s name v) a := by
  unfold Action.define
  refine .get_bind ?_
  cases hbound : a.bindsLocally s name with
  | true => exact .throw_bind h
  | false =>
    obtain ⟨hinv, hchange⟩ := d.define h hs hv htree hname hbound
    exact .modify hinv hchange

/-- So does an assignment. -/
theorem assign_keeps {name : String} {expr : SExpr} {v : Value} (h : d.Inv a)
    (hs : d.Place a s) (hv : d.Val a v)
    (htree : d.Tree (.list [.atom SpecialForm.set.keyword, .atom name, expr])) :
    d.Keeps s (fun _ _ => True) (Action.assign s name v) a := by
  unfold Action.assign
  refine .get_bind ?_
  cases ht : a.binder? s name with
  | none => exact .throw h
  | some t =>
    obtain ⟨hinv, hchange⟩ := d.assign h hs hv htree ht
    exact .modify hinv hchange

/-- So does a definition of a procedure. -/
theorem defineProcedure_keeps {signature : List SExpr} {body : SExpr} (h : d.Inv a)
    (hs : d.Place a s)
    (htree : d.Tree (.list [.atom SpecialForm.define.keyword, .list signature, body])) :
    d.Keeps s d.Val (defineProcedure s signature body) a := by
  unfold defineProcedure
  cases signature with
  | nil => exact .throw h
  | cons nameTree paramTrees =>
    refine .ofExcept_bind h fun name hname => ?_
    refine .ofExcept_bind h fun params hparams => ?_
    obtain ⟨rfl, hatom⟩ := SpecialForm.identifier_eq_ok hname
    obtain ⟨rfl, hnodup, hparams⟩ := SpecialForm.parameters_nil_eq_ok hparams
    refine .get_bind ?_
    cases hbound : a.bindsLocally s name with
    | true => exact .throw_bind h
    | false =>
      obtain ⟨hinv, hchange, hval⟩ := d.procedure h hs htree hatom hnodup hparams hbound
      exact ⟨hinv, hchange, fun heq => Except.ok.inj heq ▸ hval⟩

/-- So does the value of an atom. -/
theorem evalAtom_keeps (h : d.Inv a) (hs : d.Place a s) (token : String) :
    d.Keeps s d.Val (evalAtom s token) a := by
  unfold evalAtom
  cases Atom.ofToken token with
  | boolean b => exact .pure h (d.plain rfl)
  | number n => exact .pure h (d.plain rfl)
  | identifier name =>
    refine .get_bind ?_
    cases hv : a.lookup s name with
    | none => exact .throw h
    | some v => exact .pure h (d.lookup h hs hv)

/-- A way to evaluate in a scope keeps to a discipline, from all stores. -/
def EvalKeeps (d : Discipline) (s : ScopeId) (eval : SExpr → Action Value) : Prop :=
  ∀ {a tree}, d.Inv a → d.Place a s → d.Tree tree → d.Keeps s d.Val (eval tree) a

/-- Operands keep to it, one after the other. -/
theorem evalOperands_keeps {eval : SExpr → Action Value} (heval : d.EvalKeeps s eval)
    {operands : List SExpr} (h : d.Inv a) (hs : d.Place a s)
    (htrees : ∀ tree ∈ operands, d.Tree tree) :
    d.Keeps s (fun b args => ∀ v ∈ args, d.Val b v) (evalOperands eval operands) a := by
  induction operands generalizing a with
  | nil => exact .pure h fun _ hv => absurd hv List.not_mem_nil
  | cons first rest ih =>
    obtain ⟨hfirst, hrest⟩ := List.forall_mem_cons.1 htrees
    refine .bind (heval h hs hfirst) fun u b h hchange hu => ?_
    refine .bind (ih h (d.place_mono hchange hs) hrest) fun us c h hchange' hus => ?_
    exact .pure h (List.forall_mem_cons.2 ⟨d.val_mono hchange' hu, hus⟩)

/-- A special form keeps to it if its operands do. -/
theorem run_keeps {eval : SExpr → Action Value} (heval : d.EvalKeeps s eval)
    {operands : List SExpr} (h : d.Inv a) (hs : d.Place a s)
    (htree : d.Tree (.list (.atom form.keyword :: operands))) :
    d.Keeps s d.Val (form.run eval s operands) a := by
  -- define and set! differ in what they do with the value once they have it
  have hvalue {target expr : SExpr} {put : String → Value → Action Unit} (hexpr : d.Tree expr)
      (hput : ∀ {name b v}, form.identifier target = .ok name → d.Inv b → d.Place b s →
        d.Val b v → d.Keeps s (fun _ _ => True) (put name v) b) :
      d.Keeps s d.Val
        (do let name ← Action.ofExcept (form.identifier target)
            let v ← eval expr
            put name v
            return v) a := by
    refine .ofExcept_bind h fun name hname => ?_
    refine .bind (heval h hs hexpr) fun v b h hchange hv => ?_
    refine .bind (hput hname h (d.place_mono hchange hs) hv) fun _ c h hchange' _ => ?_
    exact .pure h (d.val_mono hchange' hv)
  unfold SpecialForm.run
  split
  · exact defineProcedure_keeps h hs htree
  · refine hvalue (d.element htree (by simp)) fun hname h hs hv => ?_
    obtain ⟨rfl, hatom⟩ := SpecialForm.identifier_eq_ok hname
    exact define_keeps h hs hv htree hatom
  · refine hvalue (d.element htree (by simp)) fun hname h hs hv => ?_
    obtain ⟨rfl, -⟩ := SpecialForm.identifier_eq_ok hname
    exact assign_keeps h hs hv htree
  · exact .throw h

/-- A call: the body is evaluated in a scope of its own. -/
theorem call_keeps {eval : ScopeId → SExpr → Action Value}
    (heval : ∀ {s}, d.EvalKeeps s (eval s)) {p : Procedure} {args : List Value} (h : d.Inv a)
    (hp : d.Val a (.procedure p)) (hargs : ∀ v ∈ args, d.Val a v) :
    d.Keeps s d.Val (do let inner ← StrictScheme.enter p args; eval inner p.body) a := by
  unfold StrictScheme.enter
  rw [bind_assoc]
  refine .ofExcept_bind h fun _ hvalid => ?_
  obtain ⟨hinv, hplace, hbody, hchange⟩ := d.enter h hp hargs (Arity.eq_of_validate_exactly hvalid)
  exact .modifyGet_bind (heval hinv hplace hbody) hchange

/-! ### Whole evaluations -/

/-- **Every evaluation keeps to the discipline.** -/
theorem eval_keeps (d : Discipline) (limit : UInt64) (fuel : Nat) (s : ScopeId) :
    d.EvalKeeps s (eval limit fuel s) := by
  induction fuel generalizing s with
  | zero =>
    intro a tree h _ _
    exact .throw h
  | succ fuel ih =>
    intro a tree h hs htree
    rcases tree with token | (_ | ⟨head, operands⟩)
    · exact evalAtom_keeps h hs token
    · exact .throw h
    · rw [eval]
      cases hform : head.specialForm? with
      | some form =>
        obtain rfl := SExpr.eq_atom_of_specialForm? hform
        exact .ofExcept_bind h fun _ _ => run_keeps (ih s) h hs htree
      | none =>
        have helements : ∀ tree ∈ head :: operands, d.Tree tree := fun _ => d.element htree
        obtain ⟨hhead, hoperands⟩ := List.forall_mem_cons.1 helements
        refine .bind (ih s h hs hhead) fun v b h hchange hv => ?_
        have hs := d.place_mono hchange hs
        cases v with
        | number n => exact .throw h
        | boolean x => exact .throw h
        | builtin f =>
          refine .bind (evalOperands_keeps (ih s) h hs hoperands) fun args c h _ _ => ?_
          exact .ofExcept h fun hcall => d.plain (Builtin.procedure?_of_call hcall)
        | procedure p =>
          refine .bind (evalOperands_keeps (ih s) h hs hoperands) fun args c h hchange hargs => ?_
          exact call_keeps (fun {s} => ih s) h (d.val_mono hchange hv) hargs

end Discipline
end StrictScheme
