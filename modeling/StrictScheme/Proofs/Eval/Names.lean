/-
# What can be bound can be read

A token is looked up when it is evaluated, or it stands for a value by itself
(`LooksUp`).  The special forms ask the same question of their targets: a form can be given
a token as its target just if the token is looked up, whatever text the token is
(`SpecialForm.Succeeds`).

And what a form has put under a name is what the name stands for from then on.  The new
value is in the scope itself, or where the name was found (`SpecialForm.lookup_put`); a name
that was found in a scope is found there again (`Store.lookup_bind_of_binder?`).
-/

import StrictScheme.Proofs.Eval.Forms
import StrictScheme.Proofs.Eval.Substitution
import StrictScheme.Proofs.Store.Chain

namespace StrictScheme

variable {token name : String} {s t : ScopeId} {v : Value}

/-! ### Tokens that are looked up -/

/-- An atom is evaluated on one level. -/
theorem evaluate_atom {limit : UInt64} (h : 0 < limit.toNat) (s : ScopeId) (token : String) :
    evaluate limit s (.atom token) = evalAtom s token := by
  obtain ⟨fuel, hfuel⟩ := Nat.exists_eq_add_one.2 h
  rw [evaluate, hfuel, eval]

/-- To evaluate the token is to look it up, in every scope and under every limit that leaves a
level for it. -/
def LooksUp (token : String) : Prop :=
  ∀ (limit : UInt64) (s : ScopeId) (store : Store), 0 < limit.toNat →
    evaluate limit s (.atom token) store =
      match store.lookup s token with
      | some v => .ok v store
      | none => .error (.unknownIdentifier token) store

/-- A token is looked up just when it reads as a name. -/
theorem looksUp_iff : LooksUp token ↔ Atom.ofToken token = .identifier token := by
  constructor
  · intro h
    -- with nothing bound, a token that is looked up is not found
    have hlevel : 0 < (1 : UInt64).toNat := by decide
    have hfails : evalAtom 0 token {} = .error (.unknownIdentifier token) {} := by
      rw [← evaluate_atom hlevel]
      exact h 1 0 {} hlevel
    cases hatom : Atom.ofToken token with
    | boolean b =>
      rw [evalAtom, hatom] at hfails
      cases hfails
    | number n =>
      rw [evalAtom, hatom] at hfails
      cases hfails
    | identifier found => rw [(Atom.ofToken_eq_identifier.1 hatom).1]
  · intro h limit s store hlimit
    rw [evaluate_atom hlimit]
    exact evalAtom_identifier h s store

/-! ### Names that are bound -/

namespace Store

variable {store : Store}

/-- **A name that was found is found again, with its new value.** -/
theorem lookup_bind_of_binder? (h : store.binder? s name = some t) (v : Value) :
    (store.bind t name v).lookup s name = some v := by
  have hbound := bindsLocally_of_binder? h
  have hbinder : (store.bind t name v).binder? s name = some t := by
    rw [binder?, chain_bind, funext fun u => bindsLocally_bind_of_bindsLocally hbound v u name]
    exact h
  rw [lookup, hbinder, Option.bind_some, local?_bind_self (has_of_bindsLocally hbound)]

end Store

namespace SpecialForm

variable {form : SpecialForm} {eval : SExpr → Action Value} {run : Action Value}
  {a b c : Store} {expr : SExpr} {operands : List SExpr}

/-- A value that was put under a name is what the name stands for. -/
theorem lookup_put (hs : a.Has s) (h : form.put s name v a = .ok () b) :
    b.lookup s name = some v := by
  cases form with
  | define =>
    obtain ⟨-, rfl⟩ := Action.define_eq_ok.1 h
    exact Store.lookup_of_local? (Store.local?_bind_self hs name v)
  | set =>
    obtain ⟨t, ht, rfl⟩ := Action.assign_eq_ok.1 h
    exact Store.lookup_bind_of_binder? ht v

/-- The operands give the form a token as its target: to be bound to the value of an expression, or
in the case of `define` also to a new procedure. -/
inductive Targets : (form : SpecialForm) → (operands : List SExpr) → (token : String) → Prop
  | value (form : SpecialForm) (token : String) (expr : SExpr) :
      Targets form [.atom token, expr] token
  | procedure (token : String) (params : List SExpr) (body : SExpr) :
      Targets .define [.list (.atom token :: params), body] token

/-- **The target of a form that succeeds is a name.**  The expression was evaluated and its value
put under the name, or a new procedure was bound. -/
theorem Targets.run_cases (h : form.Targets operands name)
    (hrun : form.run eval s operands a = .ok v c) :
    Atom.ofToken name = .identifier name ∧
      ((∃ expr b, eval expr a = .ok v b ∧ form.put s name v b = .ok () c) ∨
        ∃ params body, c = (a.newProcedure name params body s).2.bind s name v) := by
  cases h with
  | value form name expr =>
    rcases run_eq_ok hrun with ⟨_, _, -, heq⟩ | ⟨name', expr', b, heq, hname, heval⟩
    · cases heq
    · cases heq
      rcases run_value_cases hname form s heval with ⟨-, e, hfails⟩ | ⟨-, d, hput, hdone⟩
      · cases hrun.symm.trans hfails
      · obtain ⟨-, rfl⟩ := EStateM.Result.ok.inj (hrun.symm.trans hdone)
        exact ⟨hname, .inl ⟨expr, b, heval, hput⟩⟩
  | procedure name params body =>
    rcases defineProcedure_cases s (.atom name :: params) body a with
      ⟨e, hfails⟩ | ⟨nameTree, paramTrees, found, names, heq, hname, -, -, hdone⟩
    · cases hrun.symm.trans hfails
    · obtain ⟨rfl, rfl⟩ := EStateM.Result.ok.inj (hrun.symm.trans hdone)
      obtain ⟨rfl, rfl⟩ := List.cons.inj heq
      obtain ⟨heq, hname⟩ := identifier_eq_ok hname
      obtain rfl := SExpr.atom.inj heq
      exact ⟨hname, .inr ⟨names, body, rfl⟩⟩

/-- A form that succeeds is run, and its expression evaluated, with some number of levels left. -/
theorem CarriesOut.run_eq_ok (h : form.CarriesOut s operands run eval) (hrun : run a = .ok v b) :
    form.run eval s operands a = .ok v b ∧ ∃ limit fuel, eval = StrictScheme.eval limit fuel s := by
  constructor
  · rcases h.cases with rfl | hnone
    · exact hrun
    · obtain ⟨e, hfails, -⟩ := hnone a
      cases hrun.symm.trans hfails
  · cases h with
    | direct depth => exact ⟨_, _, rfl⟩
    | listed limit fuel => exact ⟨_, _, rfl⟩

/-- **After a form has succeeded, its target stands for the value.** -/
theorem Targets.lookup_eq (h : form.Targets operands name)
    (hout : form.CarriesOut s operands run eval) (hs : a.Has s) (hrun : run a = .ok v c) :
    c.lookup s name = some v := by
  obtain ⟨hrun, limit, fuel, rfl⟩ := hout.run_eq_ok hrun
  obtain ⟨-, ⟨expr, b, heval, hput⟩ | ⟨params, body, rfl⟩⟩ := h.run_cases hrun
  · obtain ⟨-, hgrows, -⟩ :=
      (localNames.eval_keeps limit fuel s trivial trivial trivial).of_eq_ok heval
    exact lookup_put (hgrows.has hs) hput
  · exact Store.lookup_of_local? (Store.local?_bind_self hs name v)

/-! ### Targets -/

/-- A special form takes a token for a name just when it is looked up. -/
theorem identifier_eq_ok_iff : form.identifier (.atom token) = .ok token ↔ LooksUp token :=
  ⟨fun h => looksUp_iff.2 (identifier_eq_ok h).2, fun h => form.identifier_atom (looksUp_iff.1 h)⟩

/-- In some scope, at some depth, the form succeeds on the operands. -/
def Succeeds (form : SpecialForm) (operands : List SExpr) : Prop :=
  ∃ s run eval store v after, store.Has s ∧ form.CarriesOut s operands run eval ∧
    run store = .ok v after

/-- A form that succeeds has a target that is looked up. -/
theorem Targets.looksUp (h : form.Targets operands token) (hsucceeds : form.Succeeds operands) :
    LooksUp token := by
  obtain ⟨s, run, eval, store, v, after, -, hout, hrun⟩ := hsucceeds
  exact looksUp_iff.2 (h.run_cases (hout.run_eq_ok hrun).1).1

/-- Every name can be put a value under, somewhere. -/
theorem exists_not_blocked (form : SpecialForm) (name : String) :
    ∃ store : Store, store.Has 0 ∧ ¬ form.Blocked store 0 name := by
  have hhas : (({} : Store).newScope none {}).2.Has 0 := Store.has_newScope {} none {}
  cases form with
  | define => exact ⟨_, hhas, Bool.false_ne_true⟩
  | set =>
    refine ⟨(({} : Store).newScope none {}).2.bind 0 name (.boolean true),
      (Store.has_update ..).2 hhas, ?_⟩
    have hbound : ((({} : Store).newScope none {}).2.bind 0 name (.boolean true)).bindsLocally 0
        name = true := by
      rw [Store.bindsLocally, Store.local?_bind_self hhas]
      rfl
    rw [blocked_set, Store.binder?_of_bindsLocally hbound]
    exact Option.some_ne_none 0

/-- **A form can be given a token as its target just if the token is looked up.** -/
theorem exists_succeeds_iff (form : SpecialForm) (token : String) :
    (∃ expr, form.Succeeds [.atom token, expr]) ↔ LooksUp token := by
  refine ⟨fun ⟨expr, h⟩ => (Targets.value form token expr).looksUp h, fun h => ?_⟩
  have hname := looksUp_iff.1 h
  obtain ⟨store, hhas, hfree⟩ := form.exists_not_blocked token
  have heval : StrictScheme.eval 2 1 0 (.atom "#t") store = .ok (.boolean true) store := rfl
  rcases run_value_cases hname form 0 heval with ⟨hblocked, -⟩ | ⟨-, after, -, hrun⟩
  · exact absurd hblocked hfree
  · exact ⟨.atom "#t", 0, _, _, store, _, after, hhas, .direct ⟨0, 2⟩, hrun⟩

/-- The same of the name of a procedure that is defined. -/
theorem exists_succeeds_procedure_iff (token : String) :
    (∃ params body, SpecialForm.define.Succeeds [.list (.atom token :: params), body]) ↔
      LooksUp token := by
  constructor
  · rintro ⟨params, body, h⟩
    exact (Targets.procedure token params body).looksUp h
  · intro h
    have hname := define.identifier_atom (looksUp_iff.1 h)
    obtain ⟨store, hhas, hfree⟩ := define.exists_not_blocked token
    have hrun : defineProcedure 0 [.atom token] (.atom "#t") store = _ :=
      defineProcedure_of_names hname rfl 0 (.atom "#t") store
    simp only [show store.bindsLocally 0 token = false from Bool.eq_false_iff.2 hfree] at hrun
    exact ⟨[], .atom "#t", 0, define.runAt ⟨0, 2⟩ 0 _, _, store, _, _, hhas, .direct ⟨0, 2⟩, hrun⟩

end SpecialForm

open SpecialForm

/-- **What can be bound can be read, and nothing else.**  Whatever text a token is, the forms take
it for the name that they ask for, and definitions, assignments and definitions of a procedure can
succeed with it as their target, just if it is looked up when it is evaluated.  That is unless it
is `#t`, `#f` or the literal of a 64-bit integer.  After a form has succeeded, its target evaluates
to the value in the same scope, and nothing is changed by that.

In a source text a token is a number just if it starts like one, and then it is not looked up. -/
theorem bound_names_can_be_read :
    (∀ token,
      (LooksUp token ↔ token ≠ printBoolean true ∧ token ≠ printBoolean false ∧
        ∀ i, Number.literalValue? token.toList = some i → ¬ Number.Fits i) ∧
      (∀ form : SpecialForm, (form.identifier (.atom token) = .ok token ↔ LooksUp token) ∧
        ((∃ expr, form.Succeeds [.atom token, expr]) ↔ LooksUp token)) ∧
      ((∃ params body, SpecialForm.define.Succeeds [.list (.atom token :: params), body]) ↔
        LooksUp token)) ∧
    (∀ (form : SpecialForm) s operands name run eval store v after,
      form.Targets operands name → form.CarriesOut s operands run eval → store.Has s →
      run store = .ok v after → ∀ limit : UInt64, 0 < limit.toNat →
        evaluate limit s (.atom name) after = .ok v after) ∧
    ∀ comments text tree, read comments text = .ok tree → ∀ token ∈ tree.atoms,
      ((∃ n, Number.read? token = some n) ↔ Atom.StartsLikeNumber token.toList) ∧
      (Atom.StartsLikeNumber token.toList → ¬ LooksUp token) := by
  refine ⟨fun token => ⟨?_, fun form => ?_, exists_succeeds_procedure_iff token⟩, ?_, ?_⟩
  · rw [looksUp_iff, Atom.ofToken_eq_identifier_self]
  · exact ⟨identifier_eq_ok_iff, form.exists_succeeds_iff token⟩
  · intro form s operands name run eval store v after htarget hout hs hrun limit hlimit
    have hname := (htarget.run_cases (hout.run_eq_ok hrun).1).1
    rw [evaluate_atom hlimit, evalAtom_identifier hname, htarget.lookup_eq hout hs hrun]
  · intro comments text tree hread token htoken
    have hnumber := Atom.exists_number_iff_of_refusal? <|
      (writes_of_read_eq_ok hread).literals token htoken
    refine ⟨hnumber, fun hstarts hlooks => ?_⟩
    obtain ⟨n, hn⟩ := hnumber.2 hstarts
    rw [(Atom.ofToken_eq_identifier.1 (looksUp_iff.1 hlooks)).2.2.2] at hn
    cases hn

/-- A token of digits that is too large for a number is a name to evaluation, though no source text
has it as one; a literal of the same length is none. -/
theorem overlong_bound_names_can_be_read :
    let token := "9223372036854775808"
    let store := (({} : Store).newScope none globalBindings).2
    LooksUp token ∧ ¬ LooksUp "9223372036854775807" ∧
      evaluate 1 0 (.atom token) (store.bind 0 token (.number 1)) =
        .ok (.number 1) (store.bind 0 token (.number 1)) ∧
      ¬ LooksUp "-1" := by
  intro token store
  obtain ⟨hnames, htargets, hatoms⟩ := bound_names_can_be_read
  have hvalue : Number.literalValue? token.toList = some 9223372036854775808 := by decide +kernel
  have hlargest : Number.literalValue? "9223372036854775807".toList = some 9223372036854775807 := by
    decide +kernel
  have hread : read true "(- 1 -1)" = .ok (.list [.atom "-", .atom "1", .atom "-1"]) := by
    decide +kernel
  have hlooks : LooksUp token := (hnames token).1.2 ⟨by decide, by decide, fun i hi => by
    obtain rfl := Option.some.inj (hvalue.symm.trans hi)
    decide⟩
  refine ⟨hlooks, fun h => ((hnames _).1.1 h).2.2 _ hlargest (by decide), ?_, ?_⟩
  · have heval : StrictScheme.eval 2 1 0 (.atom "1") store = .ok (.number 1) store := rfl
    rcases run_value_cases (looksUp_iff.1 hlooks) .define 0 heval with ⟨hblocked, -⟩ |
      ⟨-, after, hput, hrun⟩
    · have hfree : store.bindsLocally 0 token = false := by decide +kernel
      exact absurd (hfree.symm.trans hblocked) nofun
    · obtain ⟨-, rfl⟩ := Action.define_eq_ok.1 hput
      exact htargets .define 0 [.atom token, .atom "1"] token _ _ store (.number 1) _
        (.value .define token _) (.direct ⟨0, 2⟩) (Store.has_newScope ..) hrun 1 (by decide)
  · refine (hatoms true _ _ hread "-1" (by simp [SExpr.atoms, SExpr.atomsAll])).2 ?_
    exact .inr ⟨'-', '1', [], .inr rfl, rfl, rfl⟩

end StrictScheme
