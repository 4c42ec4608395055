/-
# Evaluation without side effects

A tree without definitions and assignments, in a scope from which only procedures with
such bodies are within reach, makes scopes for the calls it leads to, and does nothing
else to the store (`withoutEffects`).  The scopes of calls refer to scopes that were
there before (`Store.OnlyCalls`), and nothing refers to them.  So they are gone when the
store is settled, and the scopes that exist are those there were, with the bindings
they had (`Store.Sound.scope?_settle_of_onlyCalls`).

The evaluation can be repeated: the store it leaves corresponds to the one it found, but
for numbers that were given out in the meantime.
-/

import StrictScheme.Proofs.Eval.Local
import StrictScheme.Proofs.Store.Renew

namespace StrictScheme

/-- A procedure that was defined in one of some scopes, and whose body has no definition or
assignment in it. -/
structure Procedure.IsPure (homes : Set ScopeId) (p : Procedure) : Prop where
  scope : p.scope ∈ homes
  body : p.body.IsPure

namespace Store

variable {a b c store : Store} {homes region : Set ScopeId} {s t : ScopeId}

/-! ### Scopes of calls -/

/-- Scopes were made that refer to some of the scopes there were; everything else stays. -/
structure OnlyCalls (homes : Set ScopeId) (before after : Store) : Prop where
  nextScope : before.nextScope ≤ after.nextScope
  nextProcedure : after.nextProcedure = before.nextProcedure
  scope? : ∀ {t}, t < before.nextScope → after.scope? t = before.scope? t
  references : ∀ {t scope u}, before.nextScope ≤ t → after.scope? t = some scope →
    u ∈ scope.references → u ∈ homes

namespace OnlyCalls

/-- A store comes of itself by no call at all. -/
theorem refl (homes : Set ScopeId) (a : Store) : OnlyCalls homes a a where
  nextScope := Nat.le_refl _
  nextProcedure := rfl
  scope? _ := rfl
  references ht hscope := absurd (lt_nextScope hscope) (Nat.not_lt_of_le ht)

/-- Calls after calls are calls. -/
theorem trans (h : OnlyCalls homes a b) (h' : OnlyCalls homes b c) : OnlyCalls homes a c where
  nextScope := h.nextScope.trans h'.nextScope
  nextProcedure := h'.nextProcedure.trans h.nextProcedure
  scope? ht := (h'.scope? (ht.trans_le h.nextScope)).trans (h.scope? ht)
  references := by
    intro t scope u ht hscope hu
    rcases Nat.lt_or_ge t b.nextScope with hlt | hle
    · rw [h'.scope? hlt] at hscope
      exact h.references ht hscope hu
    · exact h'.references hle hscope hu

/-- A scope for the call of a procedure. -/
theorem newScope (ht : t ∈ homes) {bindings : Table Value}
    (hbindings : ∀ v ∈ bindings.values, v.Satisfies (Procedure.IsPure homes)) :
    OnlyCalls homes a (a.newScope (some t) bindings).2 where
  nextScope := by
    rw [Store.newScope, nextScope_push]
    exact Nat.le_succ _
  nextProcedure := rfl
  scope? hu := by rw [Store.newScope, scope?_push, if_neg (Nat.ne_of_lt hu)]
  references := by
    intro u scope w hu hscope hw
    rw [Store.newScope, scope?_push] at hscope
    split at hscope
    · obtain rfl := Option.some.inj hscope
      rcases Scope.mem_references.1 hw with hparent | ⟨p, hp, rfl⟩
      · exact eq_of_head?_chain hparent ▸ ht
      · exact (hbindings _ (Scope.mem_procedures.1 hp) p rfl).scope
    · exact absurd (lt_nextScope hscope) (Nat.not_lt_of_le hu)

end OnlyCalls

/-- **The scopes of calls are gone when the store is settled**, and the others are as they
were. -/
theorem Sound.scope?_settle_of_onlyCalls {after : Store} {roots : List ScopeId} (h : store.Sound)
    (hroots : ∀ t ∈ roots, store.Has t) (hsettled : store.HoldsUp roots {t | store.Has t})
    (hcalls : store.OnlyCalls {t | store.Has t} after) (t : ScopeId) :
    (after.settle roots).scope? t = store.scope? t := by
  -- what a scope refers to after the evaluation existed before it
  have hreferences {u w : ScopeId} {scope : Scope} (hu : after.scope? u = some scope)
      (hw : w ∈ scope.references) : store.Has w := by
    rcases Nat.lt_or_ge u store.nextScope with hold | hnew
    · rw [hcalls.scope? hold] at hu
      exact h.has_of_mem_references hu hw
    · exact hcalls.references hnew hu hw
  by_cases ht : store.Has t
  · have hkept : after.HoldsUp roots {t | store.Has t} := by
      intro u hu
      obtain ⟨⟨scope, hscope⟩, href⟩ := hsettled u hu
      refine ⟨⟨scope, (hcalls.scope? (Has.lt_nextScope hu)).trans hscope⟩, href.imp_right ?_⟩
      rintro ⟨w, hw, found, hfound, hmem⟩
      exact ⟨w, hw, found, (hcalls.scope? (Has.lt_nextScope hw)).trans hfound, hmem⟩
    rw [scope?_settle_of_holdsUp hkept ht, hcalls.scope? ht.lt_nextScope]
  · rw [Option.eq_none_iff_forall_ne_some.2 fun scope hscope => ht ⟨scope, hscope⟩]
    refine Option.eq_none_iff_forall_ne_some.2 fun scope hscope => ht ?_
    rcases (holdsUp_settle roots after t ⟨scope, hscope⟩).2 with hroot | ⟨u, -, found, hu, hmem⟩
    · exact hroots t hroot
    · exact hreferences (scope?_of_settle hu) hmem

end Store

open Store

/-- **Without definitions and assignments, an evaluation only makes scopes for calls.** -/
def withoutEffects (homes region : Set ScopeId) (hsub : homes ⊆ region) : Discipline where
  Inv := Governs region (Procedure.IsPure homes)
  Place _ s := s ∈ region
  Tree := SExpr.IsPure
  Val _ v := v.Satisfies (Procedure.IsPure homes)
  Change _ := OnlyCalls homes
  refl _ := OnlyCalls.refl homes
  trans := OnlyCalls.trans
  place_mono _ h := h
  val_mono _ h := h
  element := SExpr.IsPure.element
  plain := Value.satisfies_of_procedure?_eq_none
  lookup h hs hv := h.lookup hs hv
  define _ _ _ htree := absurd (SExpr.uses_keyword .define _) (Bool.eq_false_iff.1 (htree _))
  assign _ _ _ htree := absurd (SExpr.uses_keyword .set _) (Bool.eq_false_iff.1 (htree _))
  procedure _ _ htree := absurd (SExpr.uses_keyword .define _) (Bool.eq_false_iff.1 (htree _))
  enter := by
    intro s a p args h hp hargs _ call
    obtain ⟨hscope, hbody⟩ := hp p rfl
    have hbindings : ∀ v ∈ (({} : Table Value).insertAll p.params args).values,
        v.Satisfies (Procedure.IsPure homes) := fun v hv =>
      hargs v (Table.mem_of_mem_values_insertAll hv)
    have hparent : ∀ t ∈ some p.scope, t ∈ region := fun _ ht => Option.some.inj ht ▸ hsub hscope
    exact ⟨h.newScope hparent hbindings, h.fresh (Nat.le_refl _), hbody,
      (OnlyCalls.newScope hscope hbindings).trans⟩

/-- What is within reach when an evaluation without side effects starts is what its procedures
are at the end. -/
theorem Store.Sound.evaluate_onlyCalls {store : Store} {s : ScopeId} (h : store.Sound)
    (hs : store.Has s) (limit : UInt64) {tree : SExpr} (htree : tree.IsPure)
    (hbodies : ∀ p, store.ReachesProcedure [s] p → p.body.IsPure) :
    store.OnlyCalls {t | store.Has t} ((evaluate limit s tree).exec store).2 ∧
      ∀ v, ((evaluate limit s tree).exec store).1 = .ok v →
        v.Satisfies fun p => store.Has p.scope := by
  have hreached {t : ScopeId} (ht : store.Reaches [s] t) : store.Has t := by
    refine (ClosedOn.reaches_mem h (fun u hu => ⟨Set.mem_univ u, ?_⟩) ht).2
    exact List.mem_singleton.1 hu ▸ hs
  have hgoverns : Governs (Reaches.orFresh store [s])
      (Procedure.IsPure {t | store.Reaches [s] t}) store :=
    h.governs hs fun p hp => ⟨hp.scope, hbodies p hp⟩
  have hkeeps := (withoutEffects _ _ fun _ => .inl).eval_keeps limit limit.toNat s hgoverns
    (.inl (.start (List.mem_singleton.2 rfl))) htree
  obtain ⟨hnext, hprocedure, hscope, hreferences⟩ := hkeeps.change
  refine ⟨⟨hnext, hprocedure, hscope, fun ht hfound hu => ?_⟩, fun v hv p hp => ?_⟩
  · exact hreached (hreferences ht hfound hu)
  · exact hreached (hkeeps.result hv p hp).scope

/-! ### Evaluating again -/

/-- **In a store that has gone on an evaluation gives the same result**, if it is nothing that
the evaluation made. -/
theorem Store.Sound.exec_evaluate_later {store later : Store} {s : ScopeId} (h : store.Sound)
    (hs : store.Has s) (hsame : ∀ t, later.scope? t = store.scope? t)
    (hscope : store.nextScope ≤ later.nextScope)
    (hprocedure : later.nextProcedure = store.nextProcedure) (limit : UInt64) (tree : SExpr)
    (hresult : ∀ v, ((evaluate limit s tree).exec store).1 = .ok v →
      v.Satisfies fun p => store.Has p.scope) :
    ((evaluate limit s tree).exec later).1 = ((evaluate limit s tree).exec store).1 := by
  have hboth := eval_lockstep limit limit.toNat (Set.mem_univ s) tree store later
    (h.corresponds_later (fun _ => hsame _) hscope hprocedure) hs
  rw [renumber_of_lt hs.lt_nextScope] at hboth
  obtain ⟨-, -, hrenamed, -⟩ := exec_of_lockstep hboth
  refine hrenamed.trans ?_
  change ((evaluate limit s tree).exec store).1.map _ = _
  cases hvalue : ((evaluate limit s tree).exec store).1 with
  | error e => rfl
  | ok v =>
    cases v with
    | number | boolean | builtin => rfl
    | procedure p =>
      rw [Except.map, Value.rename, rename_renumber_of_has (hresult _ hvalue p rfl)]

namespace Session

variable {session : Session} {name : ScopeName} {s : ScopeId}

/-- A tree is evaluated in a named scope, and nothing is kept of the result. -/
theorem step_evaluateTree (hname : Host.scope name session = .ok s session) (limit : UInt64)
    (tree : SExpr) :
    session.step (.evaluateTree tree name limit none) =
      (answerOf ((evaluate limit s tree).exec session.store).1,
        { session with
          store := ((evaluate limit s tree).exec session.store).2.settle session.roots }) := by
  have hperform : Host.perform (.evaluateTree tree name limit none) session =
      .ok (answerOf ((evaluate limit s tree).exec session.store).1)
        { session with store := ((evaluate limit s tree).exec session.store).2 } := by
    change (Host.scope name >>= _) session = _
    simp only [Bind.bind, EStateM.bind, hname, Host.run, modifyGet_eq, run_eq]
    cases ((evaluate limit s tree).exec session.store).1 <;> rfl
  rw [step, hperform]
  rfl

/-- **Evaluation without side effects is idempotent.**  Without definitions and assignments in
the tree and in the procedures within reach, an evaluation leaves the scopes that exist as they
were, makes no procedure, and gives the same answer when it is repeated, whether or not it
succeeds. -/
theorem Reachable.evaluate_idempotent (h : session.Reachable)
    (hname : Host.scope name session = .ok s session) (limit : UInt64) (tree : SExpr)
    (htree : tree.IsPure)
    (hbodies : ∀ p, session.store.ReachesProcedure [s] p → p.body.IsPure) :
    let first := session.step (.evaluateTree tree name limit none)
    let second := first.2.step (.evaluateTree tree name limit none)
    (∀ t, first.2.store.scope? t = session.store.scope? t) ∧
      first.2.store.nextProcedure = session.store.nextProcedure ∧
      first.2.store.listing s = session.store.listing s ∧
      second.1 = first.1 := by
  have hs := h.sound.roots s (mem_roots_of_named? (scope_eq_ok.1 hname))
  obtain ⟨hcalls, hresult⟩ := h.sound.store.evaluate_onlyCalls hs limit htree hbodies
  have hsame := h.sound.store.scope?_settle_of_onlyCalls h.sound.roots h.settled hcalls
  have hscope := hcalls.nextScope.trans (nextScope_settle session.roots _).ge
  have hprocedure := (nextProcedure_settle session.roots _).trans hcalls.nextProcedure
  rw [step_evaluateTree hname]
  generalize ((evaluate limit s tree).exec session.store).2.settle session.roots = later
    at hsame hscope hprocedure ⊢
  have hagain := scope_eq_ok.2 ((named?_setStore session later name).trans (scope_eq_ok.1 hname))
  intro first second
  refine ⟨hsame, hprocedure, ?_, ?_⟩
  · have hcorresponds := h.sound.store.corresponds_later (fun _ => hsame _) hscope hprocedure
    have hlisting := hcorresponds.listing (Set.mem_univ s)
    rwa [renumber_of_lt hs.lt_nextScope] at hlisting
  · have hsecond : second.1 = answerOf ((evaluate limit s tree).exec later).1 :=
      congrArg Prod.fst (step_evaluateTree hagain limit tree)
    rw [hsecond, h.sound.store.exec_evaluate_later hs hsame hscope hprocedure limit tree hresult]

/-- A session with a procedure that calls the procedure it is given. -/
def passing : Session :=
  ((new {}).steps
    [.evaluateTree (.list [.atom "define", .list [.atom "double", .atom "x"],
        .list [.atom "+", .atom "x", .atom "x"]]) .global 10 none,
      .evaluateTree (.list [.atom "define", .list [.atom "pass", .atom "f", .atom "x"],
        .list [.atom "f", .atom "x"]]) .global 10 none]).2

/-- A call that passes on a procedure, made twice. -/
theorem passing_evaluate_idempotent :
    let call := SExpr.list [.atom "pass", .atom "double", .atom "4"]
    let first := passing.step (.evaluateTree call .global 10 none)
    let second := first.2.step (.evaluateTree call .global 10 none)
    first.1 = .value (.number 8) ∧ (∀ t, first.2.store.scope? t = passing.store.scope? t) ∧
      second.1 = first.1 := by
  intro call first second
  have hglobal : passing.named? .global = some 0 := by decide +kernel
  have hname : Host.scope .global passing = .ok 0 passing := scope_eq_ok.2 hglobal
  have hall : ∀ p ∈ passing.store.boundProcedures, p.body.IsPure := by
    decide +kernel
  obtain ⟨hsame, -, -, hagain⟩ := Reachable.evaluate_idempotent ((Reachable.new {}).steps _) hname
    10 call (by decide) (fun p hp => hall p hp.mem_boundProcedures)
  have hfirst : first.1 = answerOf ((evaluate 10 0 call).exec passing.store).1 :=
    congrArg Prod.fst (step_evaluateTree hname 10 call)
  have hvalue : ((evaluate 10 0 call).exec passing.store).1 = .ok (.number 8) := by
    decide +kernel
  exact ⟨by rw [hfirst, hvalue]; rfl, hsame, hagain⟩

end Session
end StrictScheme
