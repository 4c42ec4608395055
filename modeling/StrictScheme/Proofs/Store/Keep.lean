/-
# Stores that keep what is reached

Settling and releasing take out or empty only what cannot be reached from the host.
Both keep everything that can (`Store.Keeps`), and that is all a later step can see:
two stores that correspond still do, on what is reached and on the numbers not yet
given out, when each of them is replaced by one that keeps what is reached
(`Store.Corresponds.keep`).
-/

import StrictScheme.Proofs.Eval.Correspondence
import StrictScheme.Proofs.Store.Release

namespace StrictScheme
namespace Store

variable {a a' a'' b b' : Store} {starts : List ScopeId} {s t : ScopeId} {r : Renaming}
  {region : Region}

/-- What is reached from some scopes is as it was, and so are the next numbers. -/
structure Keeps (starts : List ScopeId) (before after : Store) : Prop where
  scope? : ∀ {s}, before.Reaches starts s → after.scope? s = before.scope? s
  nextScope : after.nextScope = before.nextScope
  nextProcedure : after.nextProcedure = before.nextProcedure

namespace Keeps

/-- Leaving a store keeps all scopes. -/
theorem refl (starts : List ScopeId) (store : Store) : Keeps starts store store :=
  ⟨fun _ => rfl, rfl, rfl⟩

/-- What is kept twice is kept. -/
theorem trans (h : Keeps starts a a') (h' : Keeps starts a' a'') : Keeps starts a a'' where
  scope? hs := by
    have hreach : a'.Reaches starts _ := hs.congr fun t ht => (h.scope? ht).symm
    rw [h'.scope? hreach, h.scope? hs]
  nextScope := h'.nextScope.trans h.nextScope
  nextProcedure := h'.nextProcedure.trans h.nextProcedure

/-- What exists where the walk starts still does. -/
theorem has (h : Keeps starts a a') (hs : s ∈ starts) (ha : a.Has s) : a'.Has s := by
  obtain ⟨scope, hscope⟩ := ha
  exact ⟨scope, (h.scope? (.start hs)).trans hscope⟩

end Keeps

/-- **Settling keeps what the host reaches.** -/
theorem keeps_settle (roots : List ScopeId) (store : Store) :
    Keeps roots store (store.settle roots) :=
  ⟨scope?_settle_of_reaches, nextScope_settle .., nextProcedure_settle ..⟩

/-- **Releasing keeps what the host reaches.** -/
theorem Sound.keeps_release (h : a.Sound) (hreg : a.Registered) (held : List Referent)
    (s : ScopeId) : Keeps (held.map Referent.scopeOf) a (a.release held s).2 :=
  ⟨h.scope?_release_of_reaches hreg, nextScope_release .., nextProcedure_release ..⟩

/-! ### Correspondence on what is reached -/

/-- A store corresponds to itself on a closed region with all the numbers not yet given out. -/
theorem ClosedOn.corresponds_same (h : a.ClosedOn region.scopes)
    (hserial : ∀ {s scope p}, s ∈ region.scopes → a.scope? s = some scope →
      p ∈ scope.procedures → region.Admits a p.id)
    (hscope : ∀ k, a.nextScope + k ∈ region.scopes)
    (hprocedure : ∀ k, a.nextProcedure + k ∈ region.procedures) :
    Corresponds .same region a a where
  scope? := by
    intro s _
    have hrename : Scope.rename .same = id := funext Scope.rename_same
    rw [hrename, Option.map_id_apply]
    rfl
  closed := h
  serial := hserial
  injScope := fun _ _ _ _ hst => hst
  injProcedure := fun _ _ _ _ hpq => hpq
  freshScope := fun k => ⟨hscope k, rfl⟩
  freshProcedure := fun k => ⟨hprocedure k, rfl⟩

/-- A sound store corresponds to itself, everywhere. -/
theorem Sound.corresponds_self {store : Store} (h : store.Sound) :
    Corresponds .same ⟨Set.univ, Set.univ, False⟩ store store :=
  ClosedOn.corresponds_same h
    (fun _ _ _ => ⟨Set.mem_univ _, False.elim⟩) (fun _ => Set.mem_univ _) fun _ => Set.mem_univ _

/-- What is reached from some scopes, and the numbers not yet given out. -/
def Reaches.orFresh (store : Store) (starts : List ScopeId) : Set ScopeId :=
  {s | store.Reaches starts s ∨ store.nextScope ≤ s}

/-- A correspondence on a region is one on what is reached inside it. -/
theorem Corresponds.restrict (h : Corresponds r region a b)
    (hstarts : ∀ s ∈ starts, s ∈ region.scopes ∧ a.Has s) :
    Corresponds r { region with scopes := Reaches.orFresh a starts } a b := by
  have hsub : ∀ s ∈ Reaches.orFresh a starts, s ∈ region.scopes := by
    rintro s (hs | hs)
    · exact (h.closed.reaches_mem hstarts hs).1
    · obtain ⟨k, rfl⟩ := Nat.exists_eq_add_of_le hs
      exact (h.freshScope k).1
  -- a number that is not given out yet has no scope, so only reached scopes refer to anything
  have hreached {s : ScopeId} {scope : Scope} (hs : s ∈ Reaches.orFresh a starts)
      (hscope : a.scope? s = some scope) : a.Reaches starts s :=
    hs.resolve_right (Nat.not_le_of_lt (lt_nextScope hscope))
  constructor
  · exact fun hs => h.scope? (hsub _ hs)
  · constructor
    · exact fun hs hscope => h.closed.outer (hsub _ hs) hscope
    · intro s scope t hs hscope ht
      exact ⟨.inl ((hreached hs hscope).step hscope ht),
        (h.closed.references (hsub _ hs) hscope ht).2⟩
  · exact fun hs => h.serial (hsub _ hs)
  · exact h.injScope.mono hsub
  · exact h.injProcedure
  · exact fun k => ⟨.inr (Nat.le_add_right ..), (h.freshScope k).2⟩
  · exact h.freshProcedure

/-- Only the scopes of the region count in a correspondence. -/
theorem Corresponds.replace (h : Corresponds r region a b)
    (ha : ∀ s ∈ region.scopes, a'.scope? s = a.scope? s)
    (hb : ∀ s ∈ region.scopes, b'.scope? (r.scope s) = b.scope? (r.scope s))
    (haScope : a'.nextScope = a.nextScope) (hbScope : b'.nextScope = b.nextScope)
    (haProcedure : a'.nextProcedure = a.nextProcedure)
    (hbProcedure : b'.nextProcedure = b.nextProcedure) : Corresponds r region a' b' := by
  constructor
  · intro s hs
    rw [hb s hs, ha s hs, h.scope? hs]
  · constructor
    · intro s scope hs hscope
      rw [ha s hs] at hscope
      rw [h.closed.outer hs hscope]
      cases hp : scope.parent? with
      | none => rfl
      | some p =>
        have hmem := (h.closed.references hs hscope (Scope.mem_references.2 (.inl hp))).1
        exact chain_congr (by rw [ha p hmem])
    · intro s scope t hs hscope ht
      rw [ha s hs] at hscope
      obtain ⟨hmem, found, hfound⟩ := h.closed.references hs hscope ht
      exact ⟨hmem, found, (ha t hmem).trans hfound⟩
  · intro s scope p hs hscope hp
    rw [ha s hs] at hscope
    obtain ⟨hmem, hlt⟩ := h.serial hs hscope hp
    exact ⟨hmem, haProcedure ▸ hlt⟩
  · exact h.injScope
  · exact h.injProcedure
  · rw [haScope, hbScope]
    exact h.freshScope
  · rw [haProcedure, hbProcedure]
    exact h.freshProcedure

/-- **What cannot be reached does not count**: stores that correspond still do after each of
them was replaced by one that keeps what is reached. -/
theorem Corresponds.keep (h : Corresponds .same region a b)
    (hstarts : ∀ s ∈ starts, s ∈ region.scopes ∧ a.Has s)
    (ha : Keeps starts a a') (hb : Keeps starts b b') :
    Corresponds .same { region with scopes := Reaches.orFresh a starts } a' b' := by
  have hrestrict := h.restrict hstarts
  have hnext : a.nextScope = b.nextScope := (h.freshScope 0).2
  refine hrestrict.replace ?_ ?_ ha.nextScope hb.nextScope ha.nextProcedure hb.nextProcedure
  · rintro s (hs | hs)
    · exact ha.scope? hs
    · rw [scope?_of_nextScope_le hs, scope?_of_nextScope_le (ha.nextScope ▸ hs)]
  · rintro s (hs | hs)
    · exact hb.scope? (hs.congr fun t ht => (hrestrict.scope?_same (.inl ht)).symm)
    · change b'.scope? s = b.scope? s
      rw [hnext] at hs
      rw [scope?_of_nextScope_le hs, scope?_of_nextScope_le (hb.nextScope ▸ hs)]

/-! ### Emptying in both stores -/

/-- The root of a scope of the region, under other numbers. -/
theorem Corresponds.rootOf (h : Corresponds r region a b) (hs : s ∈ region.scopes) :
    b.rootOf (r.scope s) = r.scope (a.rootOf s) := by
  rw [Store.rootOf, Store.rootOf, h.chain hs, List.getLast?_map, Option.getD_map]

/-- The same scopes of the region are in the tree of a scope of the region. -/
theorem Corresponds.mem_treeOf (h : Corresponds .same region a b) (ha : a.Sound)
    (hareg : a.Registered) (hb : b.Sound) (hbreg : b.Registered) (hs : s ∈ region.scopes)
    (ht : t ∈ region.scopes) : t ∈ b.treeOf s ↔ t ∈ a.treeOf s := by
  have hroot {u : ScopeId} (hu : u ∈ region.scopes) : b.rootOf u = a.rootOf u := h.rootOf hu
  have hhas : b.Has t ↔ a.Has t := by rw [Has, Has, h.scope?_same ht]
  rw [hbreg.mem_treeOf hb, hareg.mem_treeOf ha, hroot hs, hroot ht, hhas]

/-- Emptying the same scopes of the region in both stores. -/
theorem Corresponds.emptyAll (h : Corresponds r region a b) {listed listed' : List ScopeId}
    (hlisted : ∀ s ∈ region.scopes, r.scope s ∈ listed' ↔ s ∈ listed) :
    Corresponds r region (a.emptyAll listed) (b.emptyAll listed') := by
  constructor
  · intro s hs
    rw [scope?_emptyAll, scope?_emptyAll, h.scope? hs]
    by_cases hmem : s ∈ listed
    · rw [if_pos hmem, if_pos ((hlisted s hs).2 hmem), Option.map_map, Option.map_map]
      rfl
    · rw [if_neg hmem, if_neg (mt (hlisted s hs).1 hmem)]
  · exact h.closed.emptyAll listed
  · intro s scope p hs hscope hp
    obtain ⟨found, hfound, hsame⟩ := scope?_of_emptyAll hscope
    rw [hsame] at hp
    split at hp
    · exact absurd hp List.not_mem_nil
    · obtain ⟨hmem, hlt⟩ := h.serial hs hfound hp
      exact ⟨hmem, fun hnumbered => (nextProcedure_emptyAll ..).symm ▸ hlt hnumbered⟩
  · exact h.injScope
  · exact h.injProcedure
  · simpa using h.freshScope
  · simpa using h.freshProcedure

end Store
end StrictScheme
