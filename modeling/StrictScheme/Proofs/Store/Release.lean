/-
# What releasing and clearing leave

`Store.release` counts and marks, and what it leaves unmarked are the scopes of the tree
that neither the host nor another tree leads to (`Store.Registered.mem_garbage`).
Nothing outside the emptied scopes refers to them, and an emptied scope refers to its
parent alone, so settling takes all of them out, the innermost first
(`Store.Sound.scope?_release_of_mem_garbage`).  Every other scope that is left has the
bindings it had (`Store.Sound.scope?_of_release`), and what the host reaches is left
(`Store.scope?_release_of_reaches`).
-/

import Mathlib.Data.Finset.Max
import StrictScheme.Proofs.Store.Marking
import StrictScheme.Proofs.Store.Settle

namespace StrictScheme
namespace Store

variable {store : Store} {roots listed : List ScopeId} {held : List Referent} {s t u : ScopeId}
  {scope : Scope}

/-! ### Settling a sound store -/

/-- What a scope that is left refers to is left. -/
theorem Sound.scope?_settle_of_mem_references (h : store.Sound)
    (hs : (store.settle roots).scope? s = some scope) (ht : t ∈ scope.references) :
    (store.settle roots).scope? t = store.scope? t := by
  have hkept : store.HoldsUp roots (insert t {u | (store.settle roots).Has u}) := by
    rintro u (rfl | hu)
    · exact ⟨h.has_of_mem_references (scope?_of_settle hs) ht,
        .inr ⟨s, .inr ⟨scope, hs⟩, scope, scope?_of_settle hs, ht⟩⟩
    · refine (holdsUp_of_settle roots store u hu).imp_right (.imp_right ?_)
      rintro ⟨v, hv, found, hfound, hu⟩
      exact ⟨v, .inr hv, found, hfound, hu⟩
  exact scope?_settle_of_holdsUp hkept (.inl rfl)

/-- **Settling keeps a store sound.** -/
theorem Sound.settle (h : store.Sound) (roots : List ScopeId) : (store.settle roots).Sound where
  outer := by
    intro s scope _ hs
    rw [h.outer (scope?_of_settle hs)]
    cases hp : scope.parent? with
    | none => rfl
    | some p =>
      have hleft := h.scope?_settle_of_mem_references hs (Scope.mem_references.2 (.inl hp))
      exact chain_congr (by rw [hleft])
  references := by
    intro s scope t _ hs ht
    obtain ⟨found, hfound⟩ := h.has_of_mem_references (scope?_of_settle hs) ht
    exact ⟨Set.mem_univ t, found, (h.scope?_settle_of_mem_references hs ht).trans hfound⟩

/-! ### Emptying -/

/-- The listed scopes are emptied, and the others are as they were. -/
@[simp] theorem scope?_emptyAll (store : Store) (listed : List ScopeId) (t : ScopeId) :
    (store.emptyAll listed).scope? t =
      if t ∈ listed then (store.scope? t).map Scope.emptied else store.scope? t := by
  induction listed generalizing store with
  | nil => simp [emptyAll]
  | cons s rest ih =>
    have hrest : store.emptyAll (s :: rest) = (store.update s Scope.emptied).emptyAll rest := rfl
    rw [hrest, ih, scope?_update]
    -- emptying a scope once more changes nothing
    have htwice : Scope.emptied ∘ Scope.emptied = Scope.emptied := rfl
    by_cases hts : t = s <;> by_cases ht : t ∈ rest <;> simp [hts, ht, htwice]

/-- Emptying scopes gives no number back. -/
@[simp] theorem nextScope_emptyAll (store : Store) (listed : List ScopeId) :
    (store.emptyAll listed).nextScope = store.nextScope := by
  induction listed generalizing store with
  | nil => rfl
  | cons s rest ih => exact (ih _).trans (nextScope_update ..)

/-- Nor does it take the number of a procedure. -/
@[simp] theorem nextProcedure_emptyAll (store : Store) (listed : List ScopeId) :
    (store.emptyAll listed).nextProcedure = store.nextProcedure := by
  induction listed generalizing store with
  | nil => rfl
  | cons s rest ih => exact ih _

/-- A scope after emptying: as it was, or without its bindings. -/
theorem scope?_of_emptyAll (h : (store.emptyAll listed).scope? s = some scope) :
    ∃ found, store.scope? s = some found ∧
      scope = if s ∈ listed then found.emptied else found := by
  rw [scope?_emptyAll] at h
  split at h
  · obtain ⟨found, hfound, rfl⟩ := Option.map_eq_some_iff.1 h
    exact ⟨found, hfound, (if_pos (by assumption)).symm⟩
  · exact ⟨scope, h, (if_neg (by assumption)).symm⟩

/-- A scope is as it was, or it was emptied. -/
theorem eq_or_emptied_of_emptyAll (h : (store.emptyAll listed).scope? s = some scope) :
    ∃ found, store.scope? s = some found ∧ (scope = found ∨ scope = found.emptied) := by
  obtain ⟨found, hfound, hsame⟩ := scope?_of_emptyAll h
  refine ⟨found, hfound, ?_⟩
  split at hsame
  · exact .inr hsame
  · exact .inl hsame

/-- Emptying scopes leaves all chains. -/
@[simp] theorem chain_emptyAll (store : Store) (listed : List ScopeId) (s : ScopeId) :
    (store.emptyAll listed).chain s = store.chain s := by
  induction listed generalizing store with
  | nil => rfl
  | cons t rest ih => exact (ih _).trans (chain_update Scope.outer_emptied store t s)

/-- It takes no scope out. -/
theorem has_emptyAll (store : Store) (listed : List ScopeId) (s : ScopeId) :
    (store.emptyAll listed).Has s ↔ store.Has s := by
  induction listed generalizing store with
  | nil => rfl
  | cons t rest ih => exact (ih _).trans (has_update store t Scope.emptied s)

/-- **Emptying keeps a region closed.** -/
theorem ClosedOn.emptyAll {region : Set ScopeId} (h : store.ClosedOn region)
    (listed : List ScopeId) : (store.emptyAll listed).ClosedOn region where
  outer := by
    intro s scope hs hscope
    obtain ⟨found, hfound, hsame⟩ := scope?_of_emptyAll hscope
    have houter : scope.outer = found.outer := by rw [hsame]; split <;> rfl
    have hparent : scope.parent? = found.parent? := congrArg List.head? houter
    rw [houter, hparent, h.outer hs hfound]
    cases found.parent? with
    | none => rfl
    | some p => exact (chain_emptyAll store listed p).symm
  references := by
    intro s scope t hs hscope ht
    obtain ⟨found, hfound, hsame⟩ := scope?_of_emptyAll hscope
    rw [has_emptyAll]
    refine h.references hs hfound ?_
    rw [hsame] at ht
    split at ht
    · rw [Scope.references_emptied] at ht
      exact List.mem_append_left _ ht
    · exact ht

/-- It keeps the store sound. -/
theorem Sound.emptyAll (h : store.Sound) (listed : List ScopeId) :
    (store.emptyAll listed).Sound :=
  ClosedOn.emptyAll h listed

/-! ### Dropping dead entries -/

/-- Dropping dead entries leaves all chains. -/
@[simp] theorem chain_retain (store : Store) (s t : ScopeId) :
    (store.retain s).chain t = store.chain t :=
  chain_congr (by rw [scope?_retain])

/-- Dropping dead entries keeps a region closed. -/
theorem ClosedOn.retain {region : Set ScopeId} (h : store.ClosedOn region) (s : ScopeId) :
    (store.retain s).ClosedOn region where
  outer := by
    intro t scope ht hscope
    rw [scope?_retain] at hscope
    rw [h.outer ht hscope]
    cases scope.parent? with
    | none => rfl
    | some p => exact (chain_retain store s p).symm
  references := by
    intro t scope u ht hscope hu
    rw [scope?_retain] at hscope
    rw [has_retain]
    exact h.references ht hscope hu

/-- It keeps the store sound. -/
theorem Sound.retain (h : store.Sound) (s : ScopeId) : (store.retain s).Sound :=
  ClosedOn.retain h s

/-- The registry of a tree gives the same scopes without its dead entries. -/
theorem treeOf_retain (store : Store) (s t : ScopeId) :
    (store.retain s).treeOf t = store.treeOf t := by
  have halive : (store.retain s).isAlive = store.isAlive :=
    funext fun u => by rw [isAlive, isAlive, scope?_retain]
  have hentries (id : RegistryId) :
      ((store.retain s).registries[id]?.getD {}).entries.toList.filter store.isAlive =
        (store.registries[id]?.getD {}).entries.toList.filter store.isAlive := by
    rcases store.entries_retain s id with hsame | hsame
    · rw [hsame]
    · rw [hsame, List.filter_filter]
      simp only [Bool.and_self]
  unfold treeOf
  rw [scope?_retain, registryOf_retain, halive]
  split
  · cases store.registryOf[t]? with
    | none => rfl
    | some id => exact hentries id
  · rfl

/-- **Dropping dead entries leaves the same garbage.** -/
theorem garbage_retain (store : Store) (held : List Referent) (s t : ScopeId) :
    (store.retain s).garbage held t = store.garbage held t := by
  have hmarking : (store.retain s).unmarkedTree held (store.treeOf t) =
      store.unmarkedTree held (store.treeOf t) := by
    unfold retain
    split <;> rfl
  simp only [garbage, treeOf_retain, hmarking, Marking.run_congr fun u => scope?_retain store s u]

/-! ### Releasing -/

/-- A release empties the garbage and lets the rest settle; the dead entries that it drops first are
no scopes. -/
theorem release_eq (store : Store) (held : List Referent) (s : ScopeId) :
    store.release held s =
      ((store.garbage held s).length,
        ((store.retain s).emptyAll (store.garbage held s)).settle
          (held.map Referent.scopeOf)) := by
  have hrelease : store.release held s =
      (((store.retain s).garbage held s).length,
        ((store.retain s).emptyAll ((store.retain s).garbage held s)).settle
          (held.map Referent.scopeOf)) := rfl
  rw [hrelease, garbage_retain]

/-- A scope that a release leaves: as it was, or without its bindings. -/
theorem eq_or_emptied_of_release (ht : (store.release held s).2.scope? t = some scope) :
    ∃ found, store.scope? t = some found ∧ (scope = found ∨ scope = found.emptied) := by
  rw [release_eq] at ht
  obtain ⟨found, hfound, hsame⟩ := eq_or_emptied_of_emptyAll (scope?_of_settle ht)
  exact ⟨found, (scope?_retain ..).symm.trans hfound, hsame⟩

/-- No scope is emptied twice. -/
theorem Registered.nodup_garbage (h : store.Registered) (held : List Referent) (s : ScopeId) :
    (store.garbage held s).Nodup :=
  (h.nodup_treeOf s).sublist (Marking.sublist_run ..)

variable (h : store.Sound) (hreg : store.Registered)
include h hreg

/-- Only scopes of the tree are emptied. -/
theorem Sound.rootOf_of_mem_garbage (ht : t ∈ store.garbage held s) :
    store.rootOf t = store.rootOf s := by
  obtain ⟨hhas, hreach⟩ := (hreg.mem_garbage h).1 ht
  by_contra hroot
  exact hreach (.start (List.mem_append_right _ (mem_others.2 ⟨hhas, hroot⟩)))

/-- What the host reaches is not emptied. -/
theorem Sound.not_mem_garbage_of_reaches (ht : store.Reaches (held.map Referent.scopeOf) t) :
    t ∉ store.garbage held s :=
  fun hmem => ((hreg.mem_garbage h).1 hmem).2
    (ht.mono fun _ hu => .start (List.mem_append_left _ hu))

/-- A scope that is not emptied refers to none that is. -/
theorem Sound.not_mem_garbage_of_mem_references (ht : store.scope? t = some scope)
    (hkept : t ∉ store.garbage held s) (hu : u ∈ scope.references) :
    u ∉ store.garbage held s := by
  intro hgarbage
  refine hkept ((hreg.mem_garbage h).2 ⟨⟨scope, ht⟩, fun hreach => ?_⟩)
  exact ((hreg.mem_garbage h).1 hgarbage).2 (hreach.step ht hu)

/-- **What is emptied ceases to exist.**  Of the emptied scopes that were left, take one with
the most scopes around it: only an emptied scope can refer to it, as its parent, and that one
has more scopes around it. -/
theorem Sound.scope?_release_of_mem_garbage (ht : t ∈ store.garbage held s) :
    (store.release held s).2.scope? t = none := by
  classical
  rw [release_eq]
  set emptied := store.garbage held s with hemptied
  set after := ((store.retain s).emptyAll emptied).settle (held.map Referent.scopeOf) with hafter
  have hfound {u : ScopeId} {scope : Scope} (hu : after.scope? u = some scope) :
      ∃ found, store.scope? u = some found ∧
        scope = if u ∈ emptied then found.emptied else found := by
    obtain ⟨found, hfound, hsame⟩ := scope?_of_emptyAll (scope?_of_settle hu)
    rw [scope?_retain] at hfound
    exact ⟨found, hfound, hsame⟩
  by_contra hne
  let left := emptied.toFinset.filter after.Has
  have hleft : left.Nonempty := by
    obtain ⟨scope, hscope⟩ := Option.ne_none_iff_exists'.1 hne
    exact ⟨t, Finset.mem_filter.2 ⟨List.mem_toFinset.2 ht, scope, hscope⟩⟩
  obtain ⟨u, hu, hmax⟩ := left.exists_max_image (fun u => (store.chain u).length) hleft
  obtain ⟨humem, huhas⟩ := Finset.mem_filter.1 hu
  rw [List.mem_toFinset] at humem
  rcases (holdsUp_settle _ ((store.retain s).emptyAll emptied) u huhas).2 with hroot | hreferred
  · exact h.not_mem_garbage_of_reaches hreg (.start hroot) humem
  · obtain ⟨v, hv, scope, hscope, href⟩ := hreferred
    obtain ⟨found, hfound, hsame⟩ := hfound hscope
    by_cases hvmem : v ∈ emptied
    · rw [hsame, if_pos hvmem, Scope.references_emptied, Option.mem_toList] at href
      have hlonger := hmax v (Finset.mem_filter.2 ⟨List.mem_toFinset.2 hvmem, hv⟩)
      rw [ClosedOn.chain_parent h (Set.mem_univ v) hfound href, List.length_cons] at hlonger
      omega
    · rw [hsame, if_neg hvmem] at href
      exact h.not_mem_garbage_of_mem_references hreg hfound hvmem href humem

/-- **Whatever is left has the bindings it had.** -/
theorem Sound.scope?_of_release (ht : (store.release held s).2.scope? t = some scope) :
    t ∉ store.garbage held s ∧ store.scope? t = some scope := by
  have hmem : t ∉ store.garbage held s := fun hmem =>
    Option.some_ne_none scope (ht.symm.trans (h.scope?_release_of_mem_garbage hreg hmem))
  rw [release_eq] at ht
  have hbefore := scope?_of_settle ht
  rw [scope?_emptyAll, if_neg hmem, scope?_retain] at hbefore
  exact ⟨hmem, hbefore⟩

/-- **What the host reaches is left as it was.** -/
theorem Sound.scope?_release_of_reaches (ht : store.Reaches (held.map Referent.scopeOf) t) :
    (store.release held s).2.scope? t = store.scope? t := by
  have hsame : ∀ u, store.Reaches (held.map Referent.scopeOf) u →
      store.scope? u = ((store.retain s).emptyAll (store.garbage held s)).scope? u := by
    intro u hu
    rw [scope?_emptyAll, if_neg (h.not_mem_garbage_of_reaches hreg hu), scope?_retain]
  rw [release_eq, scope?_settle_of_reaches (ht.congr hsame), ← hsame t ht]

omit hreg in
/-- A release keeps the store sound. -/
theorem Sound.release (held : List Referent) (s : ScopeId) : (store.release held s).2.Sound := by
  rw [release_eq]
  exact ((h.retain s).emptyAll _).settle _

omit h in
/-- Settling leaves the registries right. -/
theorem Registered.settle (roots : List ScopeId) : (store.settle roots).Registered :=
  hreg.of_sub (nextScope_settle ..) (registryOf_settle ..) (registries_settle ..)
    fun hs => ⟨_, scope?_of_settle hs, rfl⟩

omit h in
/-- **A release keeps the registries right.** -/
theorem Registered.release (held : List Referent) (s : ScopeId) :
    (store.release held s).2.Registered := by
  rw [release_eq]
  exact ((hreg.retain s).emptyAll _).settle _

omit h hreg in
/-- A release gives no number back. -/
@[simp] theorem nextScope_release (store : Store) (held : List Referent) (s : ScopeId) :
    (store.release held s).2.nextScope = store.nextScope := by
  rw [release_eq, nextScope_settle, nextScope_emptyAll, nextScope_retain]

omit h hreg in
/-- Nor does it take the number of a procedure. -/
@[simp] theorem nextProcedure_release (store : Store) (held : List Referent) (s : ScopeId) :
    (store.release held s).2.nextProcedure = store.nextProcedure := by
  rw [release_eq, nextProcedure_settle, nextProcedure_emptyAll, nextProcedure_retain]

end Store
end StrictScheme
