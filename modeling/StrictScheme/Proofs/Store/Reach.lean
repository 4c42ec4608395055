/-
# Reaching scopes along references

From some scopes others are reached along references: from a scope to the one it was
made in, and to those in which the procedures it binds were defined
(`Store.Reaches`).  What is reached depends on the reached scopes alone
(`Store.Reaches.congr`).

A set of scopes is closed in a store when no reference leads out of it or to a scope
that does not exist, and when the scopes around each of its scopes are those around
the parent (`Store.ClosedOn`).  Then the whole chain of a scope stays in the set
(`Store.ClosedOn.outer_mem`).  A store is sound when this holds of all its scopes.
-/

import Mathlib.Data.Set.Basic
import StrictScheme.Proofs.Store.Laws

namespace StrictScheme
namespace Store

variable {store other : Store} {starts more : List ScopeId} {s t : ScopeId} {scope : Scope}
  {region : Set ScopeId}

/-- What is reached from some scopes along references. -/
inductive Reaches (store : Store) (starts : List ScopeId) : ScopeId → Prop
  | start {s : ScopeId} (h : s ∈ starts) : Reaches store starts s
  | step {s t : ScopeId} {scope : Scope} (h : Reaches store starts s)
      (hs : store.scope? s = some scope) (ht : t ∈ scope.references) : Reaches store starts t

namespace Reaches

/-- **More starts reach more.** -/
theorem mono (h : store.Reaches starts s) (hsub : ∀ t ∈ starts, store.Reaches more t) :
    store.Reaches more s := by
  induction h with
  | start h => exact hsub _ h
  | step _ hs ht ih => exact ih.step hs ht

/-- **Only the reached scopes count**: two stores that agree on them reach the same ones. -/
theorem congr (h : store.Reaches starts s)
    (hsame : ∀ t, store.Reaches starts t → store.scope? t = other.scope? t) :
    other.Reaches starts s := by
  induction h with
  | start h => exact .start h
  | step h hs ht ih => exact ih.step ((hsame _ h).symm.trans hs) ht

/-- What can be reached has to be a start or to be referred to by something that is reached. -/
theorem cases_last (h : store.Reaches starts s) :
    s ∈ starts ∨ ∃ u scope, store.Reaches starts u ∧ store.scope? u = some scope ∧
      s ∈ scope.references := by
  cases h with
  | start h => exact .inl h
  | step h hs ht => exact .inr ⟨_, _, h, hs, ht⟩

end Reaches

/-! ### Closed sets of scopes -/

/-- No reference leads out of `region` or to a scope that does not exist, and the scopes around
a scope are its parent and those around the parent. -/
structure ClosedOn (store : Store) (region : Set ScopeId) : Prop where
  outer : ∀ {s scope}, s ∈ region → store.scope? s = some scope →
    scope.outer = store.enclosing scope.parent?
  references : ∀ {s scope t}, s ∈ region → store.scope? s = some scope →
    t ∈ scope.references → t ∈ region ∧ store.Has t

/-- In a sound store every reference leads to a scope that exists. -/
def Sound (store : Store) : Prop :=
  store.ClosedOn Set.univ

/-- What encloses a new scope is the chain of the one that it is made in. -/
theorem enclosing_some (store : Store) (p : ScopeId) :
    store.enclosing (some p) = store.chain p := rfl

namespace ClosedOn

/-- The chain of a scope with a parent goes on with the chain of the parent. -/
theorem chain_parent (h : store.ClosedOn region) (hs : s ∈ region)
    (hscope : store.scope? s = some scope) (hp : scope.parent? = some t) :
    store.chain s = s :: store.chain t := by
  rw [chain_eq hscope, h.outer hs hscope, hp, enclosing_some]

/-- **Every walk outward ends.**  What holds of a scope without a parent, and of a scope when it
holds of its parent, holds of every scope of the region that exists. -/
theorem chain_induction (h : store.ClosedOn region) {motive : ScopeId → Prop}
    (root : ∀ {s scope}, s ∈ region → store.scope? s = some scope → scope.parent? = none →
      store.chain s = [s] → motive s)
    (inside : ∀ {s p scope}, s ∈ region → store.scope? s = some scope → scope.parent? = some p →
      store.chain s = s :: store.chain p → motive p → motive s)
    (hs : s ∈ region) (hhas : store.Has s) : motive s := by
  obtain ⟨scope, hscope⟩ := hhas
  -- by induction on the number of scopes around, which is smaller for the parent
  induction hn : scope.outer.length generalizing s scope with
  | zero =>
    have houter := List.length_eq_zero_iff.1 hn
    refine root hs hscope ?_ ?_
    · rw [Scope.parent?, houter, List.head?_nil]
    · rw [chain_eq hscope, houter]
  | succ n ih =>
    obtain ⟨p, rest, hcons⟩ := List.exists_cons_of_length_eq_add_one hn
    have hp : scope.parent? = some p := by rw [Scope.parent?, hcons, List.head?_cons]
    have hchain := h.chain_parent hs hscope hp
    obtain ⟨hpr, parent, hparent⟩ := h.references hs hscope (Scope.mem_references.2 (.inl hp))
    refine inside hs hscope hp hchain (ih hpr parent hparent ?_)
    rw [chain_eq hscope, chain_eq hparent, List.cons.injEq] at hchain
    rw [hchain.2, List.length_cons] at hn
    exact Nat.succ.inj hn

/-- **The chain of a scope stays in the region.** -/
theorem chain_mem (h : store.ClosedOn region) (hs : s ∈ region) (ht : t ∈ store.chain s) :
    t ∈ region ∧ store.Has t := by
  refine h.chain_induction (motive := fun s => t ∈ store.chain s → t ∈ region ∧ store.Has t)
    ?root ?inside hs (has_of_mem_chain ht) ht
  case root =>
    intro s scope hs hscope _ hchain ht
    rw [hchain, List.mem_singleton] at ht
    exact ht ▸ ⟨hs, scope, hscope⟩
  case inside =>
    intro s p scope hs hscope _ hchain ih ht
    rw [hchain] at ht
    rcases List.mem_cons.1 ht with rfl | ht
    · exact ⟨hs, scope, hscope⟩
    · exact ih ht

/-- A closed region has the scopes around its own in it, and they exist. -/
theorem outer_mem (h : store.ClosedOn region) (hs : s ∈ region)
    (hscope : store.scope? s = some scope) (ht : t ∈ scope.outer) :
    t ∈ region ∧ store.Has t :=
  h.chain_mem hs (by rw [chain_eq hscope]; exact List.mem_cons_of_mem _ ht)

/-- **A closed region holds all that is reached from it**, and all of it exists. -/
theorem reaches_mem (h : store.ClosedOn region)
    (hstarts : ∀ t ∈ starts, t ∈ region ∧ store.Has t) (hs : store.Reaches starts s) :
    s ∈ region ∧ store.Has s := by
  induction hs with
  | start hs => exact hstarts _ hs
  | step _ hscope ht ih => exact h.references ih.1 hscope ht

end ClosedOn

namespace Sound

/-- In a sound store the scopes around one are the chain of the scope it was made in. -/
theorem outer (h : store.Sound) (hs : store.scope? s = some scope) :
    scope.outer = store.enclosing scope.parent? :=
  ClosedOn.outer h (Set.mem_univ s) hs

/-- In a sound store all scopes that are referred to exist. -/
theorem has_of_mem_references (h : store.Sound) (hs : store.scope? s = some scope)
    (ht : t ∈ scope.references) : store.Has t :=
  (ClosedOn.references h (Set.mem_univ s) hs ht).2

/-- **A scope belongs to the tree of its parent.** -/
theorem rootOf_parent (h : store.Sound) (hs : store.scope? s = some scope)
    (hp : scope.parent? = some t) : store.rootOf s = store.rootOf t := by
  obtain ⟨parent, ht⟩ := h.has_of_mem_references hs (Scope.mem_references.2 (.inl hp))
  rw [rootOf, rootOf, ClosedOn.chain_parent h (Set.mem_univ s) hs hp, chain_eq ht,
    List.getLast?_cons_cons]
  rfl

/-- **The scopes around a scope belong to its tree.** -/
theorem rootOf_of_mem_chain (h : store.Sound) (ht : t ∈ store.chain s) :
    store.rootOf t = store.rootOf s := by
  refine ClosedOn.chain_induction h
    (motive := fun s => t ∈ store.chain s → store.rootOf t = store.rootOf s)
    ?root ?inside (Set.mem_univ s) (has_of_mem_chain ht) ht
  case root =>
    intro s scope _ _ _ hchain ht
    rw [hchain, List.mem_singleton] at ht
    rw [ht]
  case inside =>
    intro s p scope _ hscope hp hchain ih ht
    rw [hchain] at ht
    rcases List.mem_cons.1 ht with rfl | ht
    · rfl
    · rw [ih ht, h.rootOf_parent hscope hp]

end Sound

end Store
end StrictScheme
