/-
# What settling leaves

Settling takes out scopes that nothing refers to, over and over.  A set of scopes
holds itself up when each member is referred to by the host or by a member
(`Store.HoldsUp`).  Settling touches no such set (`Store.scope?_settle_of_holdsUp`),
and what it leaves is one (`Store.holdsUp_settle`), so it leaves the largest.  In
particular everything that can be reached from the host stays as it was
(`Store.scope?_settle_of_reaches`).
-/

import StrictScheme.Proofs.Store.Reach

namespace StrictScheme
namespace Store

variable {store : Store} {roots : List ScopeId} {s t : ScopeId} {scope : Scope}
  {kept : Set ScopeId}

/-! ### One round -/

/-- A scope is referred to by the host or by a scope that exists. -/
def IsReferred (store : Store) (roots : List ScopeId) (s : ScopeId) : Prop :=
  s ∈ roots ∨ ∃ u scope, store.scope? u = some scope ∧ s ∈ scope.references

/-- A scope is referred to if some scope that exists refers to it. -/
theorem mem_allReferences :
    s ∈ store.allReferences ↔ ∃ u scope, store.scope? u = some scope ∧ s ∈ scope.references :=
  mem_flatMap_scopes Scope.references

/-- Just the listed scopes are marked. -/
theorem marks_eq_true {size : Nat} {listed : List ScopeId} (h : s < size) :
    (marks size listed)[s]? = some true ↔ s ∈ listed := by
  -- a mark is never taken back, so the marks of a fold are those before it and those it sets
  suffices ∀ marked : Array Bool, s < marked.size →
      ((listed.foldl (fun marked s => marked.setIfInBounds s true) marked)[s]? = some true ↔
        marked[s]? = some true ∨ s ∈ listed) by
    rw [marks, this _ (by rwa [Array.size_replicate])]
    simp [h]
  induction listed with
  | nil => simp
  | cons t rest ih =>
    intro marked hs
    rw [List.foldl_cons, ih _ (by rwa [Array.size_setIfInBounds]), Array.getElem?_setIfInBounds,
      List.mem_cons]
    by_cases hts : t = s
    · subst hts
      simp [hs]
    · simp [hts, Ne.symm hts]

/-- Pruning gives no number back. -/
@[simp] theorem nextScope_prune (roots : List ScopeId) (store : Store) :
    (store.prune roots).nextScope = store.nextScope := by
  simp [prune, nextScope]

/-- Nor does it take the number of a procedure. -/
@[simp] theorem nextProcedure_prune (roots : List ScopeId) (store : Store) :
    (store.prune roots).nextProcedure = store.nextProcedure := rfl

/-- A round keeps the scopes that are referred to, as they are. -/
theorem scope?_prune :
    (store.prune roots).scope? s = some scope ↔
      store.scope? s = some scope ∧ store.IsReferred roots s := by
  have hmark (h : s < store.scopes.size) :
      (marks store.scopes.size (roots ++ store.allReferences))[s]? = some true ↔
        store.IsReferred roots s := by
    rw [marks_eq_true h, List.mem_append, mem_allReferences, IsReferred]
  simp only [scope?, prune, Array.getElem?_mapIdx]
  by_cases hs : s < store.scopes.size
  · rw [Array.getElem?_eq_getElem hs, Option.map_some, Option.join_some, Option.join_some]
    split
    · rename_i h
      simp [(hmark hs).1 h]
    · rename_i h
      simp [mt (hmark hs).2 h]
  · rw [Array.getElem?_eq_none (Nat.le_of_not_lt hs)]
    simp

/-- The population is the number of scopes that exist. -/
theorem population_eq_length_ids (store : Store) : store.population = store.ids.length := by
  have hslots : store.scopes.toList = (List.range store.scopes.size).map store.scope? := by
    refine List.ext_getElem (by simp) fun i hi _ => ?_
    rw [Array.length_toList] at hi
    simp [scope?, hi]
  rw [population, ← Array.countP_toList, hslots, List.countP_map, List.countP_eq_length_filter]
  rfl

open Classical in
/-- What is left by pruning are the scopes that are referred to. -/
theorem ids_prune (roots : List ScopeId) (store : Store) :
    (store.prune roots).ids = store.ids.filter (store.IsReferred roots ·) := by
  have hsize : (store.prune roots).scopes.size = store.scopes.size := nextScope_prune roots store
  rw [ids, ids, List.filter_filter, hsize]
  refine List.filter_congr fun t _ => ?_
  rw [Bool.eq_iff_iff, Option.isSome_iff_exists, Bool.and_eq_true, decide_eq_true_eq,
    Option.isSome_iff_exists, ← exists_and_left]
  simp only [scope?_prune, and_comm]

/-- A round takes something out unless every scope is referred to. -/
theorem population_prune_lt_iff :
    (store.prune roots).population < store.population ↔
      ∃ s, store.Has s ∧ ¬ store.IsReferred roots s := by
  classical
  have hle := List.length_filter_le (store.IsReferred roots ·) store.ids
  rw [population_eq_length_ids, population_eq_length_ids, ids_prune]
  constructor
  · intro hlt
    by_contra hall
    refine Nat.ne_of_lt hlt (List.length_filter_eq_length_iff.2 fun s hs => decide_eq_true ?_)
    by_contra hs'
    exact hall ⟨s, mem_ids.1 hs, hs'⟩
  · rintro ⟨s, hs, href⟩
    refine Nat.lt_of_le_of_ne hle fun hlen => href ?_
    exact of_decide_eq_true (List.length_filter_eq_length_iff.1 hlen s (mem_ids.2 hs))

/-! ### All rounds -/

/-- Settling gives no number back. -/
@[simp] theorem nextScope_settle (roots : List ScopeId) (store : Store) :
    (store.settle roots).nextScope = store.nextScope := by
  fun_induction settle roots store with
  | case1 store pruned h ih => rw [ih, nextScope_prune]
  | case2 store pruned h => rfl

/-- Nor does it take the number of a procedure. -/
@[simp] theorem nextProcedure_settle (roots : List ScopeId) (store : Store) :
    (store.settle roots).nextProcedure = store.nextProcedure := by
  fun_induction settle roots store with
  | case1 store pruned h ih => rw [ih, nextProcedure_prune]
  | case2 store pruned h => rfl

/-- Each scope stays in the tree it was made in. -/
@[simp] theorem registryOf_settle (roots : List ScopeId) (store : Store) :
    (store.settle roots).registryOf = store.registryOf := by
  fun_induction settle roots store with
  | case1 store pruned h ih => exact ih
  | case2 store pruned h => rfl

/-- Scopes that cease to exist leave dead entries behind. -/
@[simp] theorem registries_settle (roots : List ScopeId) (store : Store) :
    (store.settle roots).registries = store.registries := by
  fun_induction settle roots store with
  | case1 store pruned h ih => exact ih
  | case2 store pruned h => rfl

/-- **Settling only takes scopes out.** -/
theorem scope?_of_settle (h : (store.settle roots).scope? s = some scope) :
    store.scope? s = some scope := by
  fun_induction settle roots store with
  | case1 store pruned hlt ih => exact (scope?_prune.1 (ih h)).1
  | case2 store pruned hge => exact h

/-- Scopes that are left have the chains they had. -/
theorem chain_settle (h : (store.settle roots).Has s) :
    (store.settle roots).chain s = store.chain s := by
  obtain ⟨scope, hscope⟩ := h
  rw [chain_eq hscope, chain_eq (scope?_of_settle hscope)]

/-- The scopes of a set exist, and each is referred to by the host or by one of them. -/
def HoldsUp (store : Store) (roots : List ScopeId) (kept : Set ScopeId) : Prop :=
  ∀ s ∈ kept, store.Has s ∧
    (s ∈ roots ∨ ∃ u ∈ kept, ∃ scope, store.scope? u = some scope ∧ s ∈ scope.references)

/-- A round touches no set that holds itself up. -/
theorem HoldsUp.scope?_prune (h : store.HoldsUp roots kept) (hs : s ∈ kept) :
    (store.prune roots).scope? s = store.scope? s := by
  obtain ⟨⟨scope, hscope⟩, href⟩ := h s hs
  rw [hscope, Store.scope?_prune]
  exact ⟨hscope, href.imp_right fun ⟨u, _, found, hu, ht⟩ => ⟨u, found, hu, ht⟩⟩

/-- What holds itself up still does when the rest is pruned. -/
theorem HoldsUp.prune (h : store.HoldsUp roots kept) : (store.prune roots).HoldsUp roots kept := by
  intro s hs
  obtain ⟨⟨scope, hscope⟩, href⟩ := h s hs
  refine ⟨⟨scope, (h.scope?_prune hs).trans hscope⟩, href.imp_right ?_⟩
  rintro ⟨u, hu, found, hfound, ht⟩
  exact ⟨u, hu, found, (h.scope?_prune hu).trans hfound, ht⟩

/-- **Settling touches no set that holds itself up.** -/
theorem scope?_settle_of_holdsUp (h : store.HoldsUp roots kept) (hs : s ∈ kept) :
    (store.settle roots).scope? s = store.scope? s := by
  fun_induction settle roots store with
  | case1 store pruned hlt ih => rw [ih h.prune, h.scope?_prune hs]
  | case2 store pruned hge => rfl

/-- **What settling leaves holds itself up.** -/
theorem holdsUp_settle (roots : List ScopeId) (store : Store) :
    (store.settle roots).HoldsUp roots {s | (store.settle roots).Has s} := by
  fun_induction settle roots store with
  | case1 store pruned hlt ih => exact ih
  | case2 store pruned hge =>
    rintro s ⟨scope, hscope⟩
    refine ⟨⟨scope, hscope⟩, ?_⟩
    have href : store.IsReferred roots s := by
      by_contra hs
      exact hge (population_prune_lt_iff.2 ⟨s, ⟨scope, hscope⟩, hs⟩)
    exact href.imp_right fun ⟨u, found, hu, ht⟩ => ⟨u, ⟨found, hu⟩, found, hu, ht⟩

/-- What settling leaves holds itself up already before. -/
theorem holdsUp_of_settle (roots : List ScopeId) (store : Store) :
    store.HoldsUp roots {s | (store.settle roots).Has s} := by
  intro s hs
  obtain ⟨⟨scope, hscope⟩, href⟩ := holdsUp_settle roots store s hs
  refine ⟨⟨scope, scope?_of_settle hscope⟩, href.imp_right ?_⟩
  rintro ⟨u, hu, found, hfound, ht⟩
  exact ⟨u, hu, found, scope?_of_settle hfound, ht⟩

/-- **What the host can reach stays.** -/
theorem scope?_settle_of_reaches (h : store.Reaches roots s) :
    (store.settle roots).scope? s = store.scope? s := by
  cases hscope : store.scope? s with
  | none => exact Option.eq_none_iff_forall_ne_some.2 fun found hfound =>
      Option.some_ne_none _ ((scope?_of_settle hfound).symm.trans hscope)
  | some scope =>
    have hkept : store.HoldsUp roots {t | store.Reaches roots t ∧ store.Has t} := by
      rintro t ⟨ht, hhas⟩
      refine ⟨hhas, ht.cases_last.imp_right ?_⟩
      rintro ⟨u, found, hu, hfound, href⟩
      exact ⟨u, ⟨hu, found, hfound⟩, found, hfound, href⟩
    rw [scope?_settle_of_holdsUp hkept ⟨h, scope, hscope⟩, hscope]

/-- A store whose scopes hold themselves up is settled. -/
theorem settle_eq_self (h : store.HoldsUp roots {s | store.Has s}) :
    store.settle roots = store := by
  rw [settle, if_neg]
  rintro hlt
  obtain ⟨s, hs, href⟩ := population_prune_lt_iff.1 hlt
  exact href ((h s hs).2.imp_right fun ⟨u, _, scope, hu, ht⟩ => ⟨u, scope, hu, ht⟩)

end Store
end StrictScheme
