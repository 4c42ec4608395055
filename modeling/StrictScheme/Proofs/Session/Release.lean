/-
# What a host releases

A release empties the scopes of a tree that nothing outside the tree holds on to.
Holders are the global scope and the handles of the host, the user procedures in its
slots, and the user procedures bound in scopes of other trees.  From them references
are followed: from a scope to its parent and to the procedures bound in it, and from a
procedure to the scope in which it was defined (`Store.Refers`).

A release is not told any of this: it counts references and marks.  What it leaves
unmarked is what a walk from the host and from every scope of the other trees does not
reach.  To walk from these scopes rather than from the procedures bound in them comes to
the same, since parents stay in their tree: what is emptied are the scopes of the tree
that are not in use (`Session.Sound.mem_garbage`).  `Session.Reachable.release_exact`
says what a release does to any session that a host can come to.
-/

import Mathlib.Logic.Relation
import StrictScheme.Proofs.Session.Sound

namespace StrictScheme
namespace Session

variable {session : Session} {root s t : ScopeId} {name : ScopeName}

/-- What holds on to scopes from outside the tree with the given root. -/
inductive Holds (session : Session) (root : ScopeId) : Referent → Prop
  | global {s : ScopeId} (hs : session.global = some s) : session.Holds root (.scope s)
  | handle {s : ScopeId} (hs : s ∈ session.handles.values) : session.Holds root (.scope s)
  | slot {p : Procedure} (hp : .procedure p ∈ session.slots.values) :
      session.Holds root (.procedure p)
  | otherTree {t : ScopeId} {scope : Scope} {p : Procedure}
      (ht : session.store.scope? t = some scope) (hroot : session.store.rootOf t ≠ root)
      (hp : p ∈ scope.procedures) : session.Holds root (.procedure p)

/-- Whether references lead to a scope from something that holds it from outside a tree. -/
def InUse (session : Session) (root s : ScopeId) : Prop :=
  ∃ holder, session.Holds root holder ∧
    Relation.ReflTransGen session.store.Refers holder (.scope s)

namespace InUse

/-- What the host refers to is in use. -/
theorem of_mem_roots (hs : s ∈ session.roots) : session.InUse root s := by
  rcases mem_roots.1 hs with hs | hs | ⟨v, hv, hs⟩
  · exact ⟨_, .global hs, .refl⟩
  · exact ⟨_, .handle hs, .refl⟩
  · obtain ⟨p, hp, rfl⟩ := mem_captured.1 hs
    rw [Value.procedure?_eq_some.1 hp] at hv
    exact ⟨_, .slot hv, .single (.captured p)⟩

/-- What a scope in use refers to is in use. -/
theorem tail {scope : Scope} (h : session.InUse root s)
    (hs : session.store.scope? s = some scope) (ht : t ∈ scope.references) :
    session.InUse root t := by
  obtain ⟨holder, hholder, hpath⟩ := h
  rcases Scope.mem_references.1 ht with hparent | ⟨p, hp, rfl⟩
  · exact ⟨holder, hholder, hpath.tail (.parent hs hparent)⟩
  · exact ⟨holder, hholder, (hpath.tail (.binding hs hp)).tail (.captured p)⟩

/-- Every scope in use is met by the walk of a release. -/
theorem reaches (h : session.InUse root s) :
    session.store.Reaches (session.roots ++ session.store.others root) s := by
  obtain ⟨holder, hholder, hpath⟩ := h
  -- on the way to the scope, a procedure stands for the scope in which it was defined
  suffices ∀ target, Relation.ReflTransGen session.store.Refers holder target →
      session.store.Reaches (session.roots ++ session.store.others root) target.scopeOf from
    this _ hpath
  intro target hpath
  induction hpath with
  | refl =>
    cases hholder with
    | global hs => exact .start (List.mem_append_left _ (mem_roots.2 (.inl hs)))
    | handle hs => exact .start (List.mem_append_left _ (mem_roots.2 (.inr (.inl hs))))
    | @slot p hp =>
      have hcaptured : p.scope ∈ captured (.procedure p) := mem_captured.2 ⟨p, rfl, rfl⟩
      exact .start (List.mem_append_left _ (mem_roots.2 (.inr (.inr ⟨_, hp, hcaptured⟩))))
    | otherTree ht hroot hp =>
      have hother := List.mem_append_right session.roots (Store.mem_others.2 ⟨⟨_, ht⟩, hroot⟩)
      exact (Store.Reaches.start hother).step ht (Scope.mem_references.2 (.inr ⟨_, hp, rfl⟩))
  | tail _ hrefers ih => exact ih.of_refers hrefers

end InUse

/-- What the walk of a release meets is in use, or belongs to another tree: a procedure bound in
another tree is a holder, and a parent is in the same tree. -/
theorem Sound.inUse_or_other_of_reaches (h : session.Sound)
    (hs : session.store.Reaches (session.roots ++ session.store.others root) s) :
    session.InUse root s ∨ session.store.rootOf s ≠ root := by
  induction hs with
  | start hs =>
    rcases List.mem_append.1 hs with hs | hs
    · exact .inl (.of_mem_roots hs)
    · exact .inr (Store.mem_others.1 hs).2
  | step _ hu ht ih =>
    rcases ih with hinUse | hother
    · exact .inl (hinUse.tail hu ht)
    · rcases Scope.mem_references.1 ht with hparent | ⟨p, hp, rfl⟩
      · exact .inr (h.store.rootOf_parent hu hparent ▸ hother)
      · exact .inl ⟨_, .otherTree hu hother hp, .single (.captured p)⟩

/-- **What a release empties**: the existing scopes of the tree that are not in use. -/
theorem Sound.mem_garbage (h : session.Sound) :
    t ∈ session.store.garbage session.holders s ↔ session.store.Has t ∧
      session.store.rootOf t = session.store.rootOf s ∧
      ¬ session.InUse (session.store.rootOf s) t := by
  rw [h.registered.mem_garbage h.store, map_scopeOf_holders]
  refine and_congr_right fun hhas => ⟨fun hreaches => ⟨?_, fun hinUse => ?_⟩, ?_⟩
  · by_contra hroot
    exact hreaches (.start (List.mem_append_right _ (Store.mem_others.2 ⟨hhas, hroot⟩)))
  · exact hreaches hinUse.reaches
  · rintro ⟨hroot, hinUse⟩ hreaches
    rcases h.inUse_or_other_of_reaches hreaches with hreached | hother
    · exact hinUse hreached
    · exact hother hroot

/-! ### The step of the host -/

/-- The session once the dead entries in the registry of a scope are dropped, some scopes are
emptied, and what nothing refers to any more is gone. -/
def afterEmptying (session : Session) (s : ScopeId) (scopes : List ScopeId) : Session :=
  { session with
    store := ((session.store.retain s).emptyAll scopes).settle session.roots }

/-- After the emptying a session is settled. -/
theorem settled_afterEmptying (session : Session) (s : ScopeId) (scopes : List ScopeId) :
    (session.afterEmptying s scopes).Settled :=
  Store.holdsUp_settle session.roots ((session.store.retain s).emptyAll scopes)

/-- What is left when the garbage of a tree is emptied is what a release leaves. -/
theorem store_afterEmptying (session : Session) (s : ScopeId) :
    (session.afterEmptying s (session.store.garbage session.holders s)).store =
      (session.store.release session.holders s).2 := by
  rw [Store.release_eq, map_scopeOf_holders]
  rfl

/-- Releasing the tree of a scope of a settled session. -/
theorem Settled.release_eq (h : session.Settled) (s : ScopeId) :
    session.release s [] = ((session.store.garbage session.holders s).length,
      session.afterEmptying s (session.store.garbage session.holders s)) := by
  have hsettled : session.store.settle session.roots = session.store := h.settle_store []
  rw [Session.release_eq, List.map_nil, List.nil_append, List.nil_append, hsettled,
    Store.release_eq, map_scopeOf_holders]
  rfl

/-- What a release answers, and what it leaves. -/
theorem Settled.step_release (h : session.Settled)
    (hname : Host.scope name session = .ok s session) :
    session.step (.release name) = (.released (session.store.garbage session.holders s).length,
      session.afterEmptying s (session.store.garbage session.holders s)) := by
  unfold Session.step
  rw [Host.perform_release hname, h.release_eq]
  exact Prod.ext rfl (settled_afterEmptying session s _).settle_eq

/-- **A release empties exactly what is not in use**, and tells how much that was.  What is
emptied no longer exists afterwards, nor do the procedures that were bound there only, and what
still exists has the bindings it had. -/
theorem Reachable.release_exact (h : session.Reachable)
    (hname : Host.scope name session = .ok s session) :
    ∃ emptied : List ScopeId, emptied.Nodup ∧
      (∀ t, t ∈ emptied ↔ session.store.Has t ∧
        session.store.rootOf t = session.store.rootOf s ∧
        ¬ session.InUse (session.store.rootOf s) t) ∧
      session.step (.release name) = (.released emptied.length, session.afterEmptying s emptied) ∧
      (∀ t ∈ emptied, (session.afterEmptying s emptied).store.scope? t = none) ∧
      (∀ t scope, (session.afterEmptying s emptied).store.scope? t = some scope →
        session.store.scope? t = some scope) ∧
      ∀ id, (∀ p, .procedure p ∈ session.slots.values → p.id ≠ id) →
        (∀ t scope, session.store.scope? t = some scope →
          (∃ p ∈ scope.procedures, p.id = id) → t ∈ emptied) →
        (session.afterEmptying s emptied).isAlive id = false := by
  have hsound := h.sound
  have hafter := session.store_afterEmptying s
  refine ⟨session.store.garbage session.holders s, hsound.registered.nodup_garbage ..,
    fun t => hsound.mem_garbage, h.settled.step_release hname, fun t ht => ?_, fun t scope ht => ?_,
    fun id hslots hbound => ?_⟩
  · rw [hafter]
    exact hsound.store.scope?_release_of_mem_garbage hsound.registered ht
  · rw [hafter] at ht
    exact (hsound.store.scope?_of_release hsound.registered ht).2
  · by_contra halive
    rw [Bool.not_eq_false, isAlive_eq_true] at halive
    rcases halive with ⟨p, hp, hid⟩ | ⟨t, scope, ht, hp⟩
    · exact hslots p hp hid
    · rw [hafter] at ht
      obtain ⟨hmem, hbefore⟩ := hsound.store.scope?_of_release hsound.registered ht
      exact hmem (hbound t scope hbefore hp)

/-- A session with a scope that nothing can use any more: it binds a procedure that was defined
in it, and the host has dropped its handle. -/
def circular : Session :=
  ((new {}).steps
    [.newScope "a" (some .global),
      .define (.handle "a") "f" (.procedure "f" [] (.atom "1") (some (.handle "a"))),
      .dropHandle "a"]).2

/-- A release empties the scope that nothing can use any more, and no other one. -/
theorem circular_release_exact :
    ∃ emptied : List ScopeId, emptied.length = 1 ∧
      (∀ t, t ∈ emptied ↔ circular.store.Has t ∧
        circular.store.rootOf t = circular.store.rootOf 0 ∧
        ¬ circular.InUse (circular.store.rootOf 0) t) ∧
      ∀ t ∈ emptied, (circular.step (.release .global)).2.store.scope? t = none := by
  have hname : Host.scope .global circular = .ok 0 circular := scope_eq_ok.2 (by decide +kernel)
  have hreachable : Reachable circular := (Reachable.new {}).steps _
  have hcount : (circular.store.garbage circular.holders 0).length = 1 := by
    rw [Store.garbage, Marking.run_eq_iterate 4 (Option.isNone_iff_eq_none.1 (by decide +kernel))]
    decide +kernel
  obtain ⟨emptied, -, hmem, hstep, hgone, -⟩ := Reachable.release_exact hreachable hname
  refine ⟨emptied, ?_, hmem, ?_⟩
  · have hanswer := congrArg Prod.fst ((hreachable.settled.step_release hname).symm.trans hstep)
    exact (Answer.released.inj hanswer).symm.trans hcount
  · intro t ht
    rw [show (circular.step (.release .global)).2 = _ from congrArg Prod.snd hstep]
    exact hgone t ht

end Session
end StrictScheme
