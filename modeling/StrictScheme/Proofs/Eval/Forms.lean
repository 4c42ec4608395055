/-
# What special forms do

With a name and an expression as its operands, a special form evaluates the expression and
then puts the value under the name (`SpecialForm.run_value`).  That is the last thing it
does, and it is done or not done at once.  With any other operands nothing is evaluated: the
form defines a procedure, or is refused.

So a form that fails has written nothing itself (`SpecialForm.failure_writes_nothing`),
however it came to be carried out: directly, at any depth, or as a list with its keyword in
front (`SpecialForm.CarriesOut`).
-/

import StrictScheme.Proofs.Eval.Height
import StrictScheme.Proofs.Eval.Shift

namespace StrictScheme
namespace SpecialForm

variable {form : SpecialForm} {eval : SExpr → Action Value} {run : Action Value}
  {a b after store : Store} {s : ScopeId} {name : String} {expr : SExpr} {operands : List SExpr}
  {v : Value} {e : Error}

/-! ### Putting a value under a name -/

/-- Puts a value under a name, by a definition or by an assignment. -/
def put (form : SpecialForm) (s : ScopeId) (name : String) (v : Value) : Action Unit :=
  match form with
  | .define => Action.define s name v
  | .set => Action.assign s name v

/-- From a scope nothing can be put under a name.  What is in the way of a definition is that the
scope itself binds the name already; what is in the way of an assignment is that no scope on the
chain does. -/
def Blocked (form : SpecialForm) (store : Store) (s : ScopeId) (name : String) : Prop :=
  match form with
  | .define => store.bindsLocally s name = true
  | .set => ∀ t ∈ store.chain s, store.bindsLocally t name = false

/-- An assignment is blocked just when the name is not found. -/
theorem blocked_set : Blocked .set store s name ↔ store.binder? s name = none := by
  simp [Blocked, Store.binder?]

/-- A value is put under a name unless something is in the way. -/
theorem put_cases (form : SpecialForm) (s : ScopeId) (name : String) (v : Value) (a : Store) :
    (form.Blocked a s name ∧ ∃ e, form.put s name v a = .error e a) ∨
      ¬ form.Blocked a s name ∧ ∃ t, form.put s name v a = .ok () (a.bind t name v) := by
  cases form with
  | define =>
    cases hbound : a.bindsLocally s name with
    | true => exact .inl ⟨hbound, _, Action.define_eq_error.2 ⟨hbound, rfl, rfl⟩⟩
    | false => exact .inr ⟨Bool.eq_false_iff.1 hbound, _, Action.define_eq_ok.2 ⟨hbound, rfl⟩⟩
  | set =>
    rw [blocked_set]
    cases ht : a.binder? s name with
    | none =>
      exact .inl ⟨rfl, _, Action.assign_eq_error.2 ⟨Store.lookup_eq_none_iff.2 ht, rfl, rfl⟩⟩
    | some t => exact .inr ⟨nofun, _, Action.assign_eq_ok.2 ⟨t, ht, rfl⟩⟩

/-! ### Forms with an expression -/

/-- **With a name as its target, a form evaluates the expression and puts the value there.** -/
theorem run_value (hname : Atom.ofToken name = .identifier name) (form : SpecialForm)
    (eval : SExpr → Action Value) (s : ScopeId) (expr : SExpr) :
    form.run eval s [.atom name, expr] = do
      let v ← eval expr
      form.put s name v
      return v := by
  cases form <;>
  · simp only [run, identifier_atom hname]
    rfl

/-- Once the expression has a value, the form succeeds with it unless something is in the way. -/
theorem run_value_cases (hname : Atom.ofToken name = .identifier name) (form : SpecialForm)
    (s : ScopeId) (heval : eval expr a = .ok v b) :
    (form.Blocked b s name ∧ ∃ e, form.run eval s [.atom name, expr] a = .error e b) ∨
      ¬ form.Blocked b s name ∧ ∃ c, form.put s name v b = .ok () c ∧
        form.run eval s [.atom name, expr] a = .ok v c := by
  rw [run_value hname]
  simp only [Bind.bind, EStateM.bind, heval]
  rcases form.put_cases s name v b with ⟨hblocked, e, hput⟩ | ⟨hfree, t, hput⟩
  · exact .inl ⟨hblocked, e, by rw [hput]⟩
  · exact .inr ⟨hfree, _, hput, by rw [hput]; rfl⟩

/-- A form with an expression that fails leaves what the expression leaves. -/
theorem eq_exec_of_run_value_eq_error (hname : Atom.ofToken name = .identifier name)
    (h : form.run eval s [.atom name, expr] store = .error e after) :
    after = ((eval expr).exec store).2 := by
  rw [Action.exec]
  cases heval : eval expr store with
  | error e' middle =>
    rw [run_value hname] at h
    simp only [Bind.bind, EStateM.bind, heval] at h
    exact (EStateM.Result.error.inj h).2.symm
  | ok v middle =>
    rcases run_value_cases hname form s heval with ⟨-, e', hrun⟩ | ⟨-, c, -, hrun⟩
    · exact (EStateM.Result.error.inj (h.symm.trans hrun)).2
    · cases h.symm.trans hrun

/-! ### Other operands -/

/-- The operands are a name and an expression. -/
def TakesValue (operands : List SExpr) : Prop :=
  ∃ name expr, operands = [.atom name, expr] ∧ Atom.ofToken name = .identifier name

/-- With other operands a form that fails changes nothing. -/
theorem eq_of_run_eq_error (hother : ¬ TakesValue operands)
    (h : form.run eval s operands store = .error e after) : after = store := by
  have htarget {target expr : SExpr} {f : String → Action Value} (heq : operands = [target, expr])
      (h : (Action.ofExcept (form.identifier target) >>= f) store = .error e after) :
      after = store := by
    cases hname : form.identifier target with
    | error e' =>
      rw [hname] at h
      exact (EStateM.Result.error.inj h).2.symm
    | ok name =>
      obtain ⟨rfl, hatom⟩ := identifier_eq_ok hname
      exact (hother ⟨name, expr, heq, hatom⟩).elim
  unfold SpecialForm.run at h
  split at h
  · next signature body =>
    rcases defineProcedure_cases s signature body store with
      ⟨e', hfails⟩ | ⟨_, _, _, _, -, -, -, -, hdone⟩
    · exact (EStateM.Result.error.inj (h.symm.trans hfails)).2
    · cases h.symm.trans hdone
  · exact htarget rfl h
  · exact htarget rfl h
  · exact (EStateM.Result.error.inj h).2.symm

/-- A special form is refused unless it has two operands. -/
theorem run_of_length_ne (h : operands.length ≠ 2) (form : SpecialForm)
    (eval : SExpr → Action Value) (s : ScopeId) :
    form.run eval s operands = throw (.arityMismatch form.keyword form.arity operands.length) := by
  unfold SpecialForm.run
  split
  · exact absurd rfl h
  · exact absurd rfl h
  · exact absurd rfl h
  · rfl

/-- Different names are taken for parameters. -/
theorem parameters_map_atom {names seen : List String} (form : SpecialForm) (hnodup : names.Nodup)
    (hnames : ∀ x ∈ names, x ∉ seen ∧ Atom.ofToken x = .identifier x) :
    form.parameters seen (names.map .atom) = .ok (seen.reverse ++ names) := by
  induction names generalizing seen with
  | nil => rw [List.append_nil]; rfl
  | cons name rest ih =>
    obtain ⟨⟨hnew, hname⟩, hrest⟩ := List.forall_mem_cons.1 hnames
    obtain ⟨hfirst, hnodup⟩ := List.nodup_cons.1 hnodup
    have hothers : ∀ x ∈ rest, x ∉ name :: seen ∧ Atom.ofToken x = .identifier x := by
      refine fun x hx => ⟨fun hseen => ?_, (hrest x hx).2⟩
      rcases List.mem_cons.1 hseen with rfl | hseen
      · exact hfirst hx
      · exact (hrest x hx).1 hseen
    have hparams := ih hnodup hothers
    rw [List.reverse_cons, List.append_assoc, List.singleton_append] at hparams
    rw [List.map_cons, parameters, identifier_atom hname]
    simp only [bind, Except.bind, if_neg hnew]
    exact hparams

/-! ### Forms that are carried out -/

/-- A keyword names its special form. -/
theorem specialForm?_keyword (form : SpecialForm) :
    (SExpr.atom form.keyword).specialForm? = some form := by
  cases form <;> rfl

/-- **A list with a keyword in front is carried out as the form.**  The number of operands is
checked first, with the answer that the form itself would give. -/
theorem eval_form (form : SpecialForm) (limit : UInt64) (fuel : Nat) (s : ScopeId)
    (operands : List SExpr) :
    StrictScheme.eval limit (fuel + 1) s (.list (.atom form.keyword :: operands)) =
      form.run (StrictScheme.eval limit fuel s) s operands := by
  have harity : form.arity = .exactly 2 := by cases form <;> rfl
  rw [StrictScheme.eval, form.specialForm?_keyword]
  by_cases hcount : operands.length = 2
  · have hvalid : form.arity.validate form.keyword operands.length = .ok () := by
      rw [harity, hcount]
      rfl
    simp only [hvalid]
    rfl
  · have hinvalid : form.arity.validate form.keyword operands.length =
        .error (.arityMismatch form.keyword form.arity operands.length) := by
      simp [Arity.validate, harity, Arity.accepts, hcount]
    simp only [hinvalid, run_of_length_ne hcount]
    rfl

/-- **The ways in which a form is carried out on operands**: by itself at some depth, or as a list
that is evaluated.  `eval` is how its expression is evaluated then. -/
inductive CarriesOut (form : SpecialForm) (s : ScopeId) (operands : List SExpr) :
    (run : Action Value) → (eval : SExpr → Action Value) → Prop
  | direct (depth : Depth) :
      CarriesOut form s operands (form.runAt depth s operands)
        (StrictScheme.eval depth.limit depth.deeper.remaining s)
  | listed (limit : UInt64) (fuel : Nat) :
      CarriesOut form s operands
        (StrictScheme.eval limit fuel s (.list (.atom form.keyword :: operands)))
        (StrictScheme.eval limit (fuel - 1) s)

/-- A list is not carried out when no level is left, and its expression could not be evaluated
either. -/
theorem CarriesOut.cases (h : form.CarriesOut s operands run eval) :
    run = form.run eval s operands ∨
      ∀ a, ∃ e, run a = .error e a ∧ ∀ tree, eval tree a = .error e a := by
  cases h with
  | direct depth => exact .inl rfl
  | listed limit fuel =>
    cases fuel with
    | zero => exact .inr fun a => ⟨.stackExhausted limit, rfl, fun _ => rfl⟩
    | succ fuel => exact .inl (form.eval_form limit fuel s operands)

/-- **A form that fails has written nothing itself.**  If its operands are a name and an
expression, it leaves what the evaluation of the expression leaves; with any others it leaves the
store as it was, so that no scope is changed and no procedure made.  Once the expression has a
value, a definition fails just if the scope itself binds the name by then, and an assignment just
if no scope on the chain does. -/
theorem failure_writes_nothing (h : form.CarriesOut s operands run eval) (store : Store) :
    (∀ e after, run store = .error e after →
      (∀ name expr, operands = [.atom name, expr] → Atom.ofToken name = .identifier name →
        after = ((eval expr).exec store).2) ∧
      (¬ TakesValue operands → after = store)) ∧
    ∀ name expr v middle, operands = [.atom name, expr] → Atom.ofToken name = .identifier name →
      eval expr store = .ok v middle →
        ((∃ e after, run store = .error e after) ↔ form.Blocked middle s name) := by
  rcases h.cases with rfl | hnone
  · refine ⟨fun e after hfails => ⟨?_, fun hother => eq_of_run_eq_error hother hfails⟩, ?_⟩
    · rintro name expr rfl hname
      exact eq_exec_of_run_value_eq_error hname hfails
    · rintro name expr v middle rfl hname heval
      rcases run_value_cases hname form s heval with ⟨hblocked, e, hrun⟩ | ⟨hfree, c, -, hrun⟩
      · exact iff_of_true ⟨e, middle, hrun⟩ hblocked
      · refine iff_of_false ?_ hfree
        rintro ⟨e, after, hfails⟩
        cases hfails.symm.trans hrun
  · -- without a level left, neither the form nor its expression changes anything
    obtain ⟨e, hrun, heval⟩ := hnone store
    constructor
    · intro e' after hfails
      obtain ⟨-, rfl⟩ := EStateM.Result.error.inj (hrun.symm.trans hfails)
      exact ⟨fun name expr _ _ => by rw [Action.exec, heval], fun _ => rfl⟩
    · intro name expr v middle _ _ hvalue
      cases (heval expr).symm.trans hvalue

/-- A definition whose expression defines the same name: it fails, and the inner one stays.  The
definition of a procedure with a repeated parameter leaves nothing. -/
theorem nested_failure_writes_nothing :
    let store := (({} : Store).newScope none globalBindings).2
    let inner := SExpr.list [.atom "define", .atom "x", .atom "1"]
    let signature := SExpr.list [.atom "f", .atom "a", .atom "a"]
    (∃ e, SpecialForm.define.runAt ⟨3, 10⟩ 0 [.atom "x", inner] store =
        .error e (store.bind 0 "x" (.number 1))) ∧
      ∃ e, evaluate 10 0 (.list [.atom "define", signature, .atom "a"]) store =
        .error e store := by
  intro store inner signature
  have hname : Atom.ofToken "x" = .identifier "x" := by decide
  have hinner : StrictScheme.eval 10 6 0 inner store =
      .ok (.number 1) (store.bind 0 "x" (.number 1)) := by rfl
  have hother : ¬ TakesValue [signature, .atom "a"] := by
    rintro ⟨name, expr, heq, -⟩
    exact absurd (List.cons.inj heq).1 nofun
  constructor
  · have hout : CarriesOut .define 0 [.atom "x", inner] _ _ := .direct ⟨3, 10⟩
    obtain ⟨hleaves, hfails⟩ := failure_writes_nothing hout store
    obtain ⟨e, after, hrun⟩ := (hfails "x" inner _ _ rfl hname hinner).2 (by rfl)
    obtain rfl := (hleaves e after hrun).1 "x" inner rfl hname
    refine ⟨e, hrun.trans ?_⟩
    change EStateM.Result.error e ((StrictScheme.eval 10 6 0 inner).exec store).2 = _
    rw [Action.exec, hinner]
  · obtain ⟨e, after, hrun⟩ : ∃ e after,
        evaluate 10 0 (.list [.atom "define", signature, .atom "a"]) store = .error e after :=
      ⟨_, _, rfl⟩
    have hout : CarriesOut .define 0 [signature, .atom "a"] _ _ := .listed 10 10
    obtain ⟨hleaves, -⟩ := failure_writes_nothing hout store
    rw [(hleaves e after hrun).2 hother] at hrun
    exact ⟨e, hrun⟩

end SpecialForm
end StrictScheme
