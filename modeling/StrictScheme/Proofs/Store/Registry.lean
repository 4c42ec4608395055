/-
# What the registries hold

A registry may have entries of scopes that no longer exist, but it lacks none of those
that do: when a scope is entered in a list that is full, only dead entries are dropped
(`Registry.exists_register`).  So every existing scope is in the registry of its tree,
and every entry of a registry belongs to one tree (`Store.Registered`).  This holds from
the first scope on, whatever is done to the store.

In a sound store two scopes have a registry in common exactly when they have their root
in common (`Store.Registered.registryOf_eq_iff`).  What is looked up in the registry of a
scope is therefore the tree of the scope (`Store.Registered.mem_treeOf`).
-/

import StrictScheme.Proofs.Store.Reach
import StrictScheme.Store.Release

namespace StrictScheme

variable {store a b : Store} {scope found : Scope} {s t : ScopeId} {id : RegistryId}
  {registry : Registry}

/-! ### One registry -/

namespace Registry

/-- A scope is entered behind all others. -/
theorem entries_push (registry : Registry) (s : ScopeId) :
    (registry.push s).entries = registry.entries.push s := rfl

/-- Dropping the dead entries keeps the others in their order. -/
theorem toList_retain (registry : Registry) (isAlive : ScopeId → Bool) :
    (registry.retain isAlive).entries.toList = registry.entries.toList.filter isAlive :=
  Array.toList_filter ..

/-- **Entering a scope loses none that exists.**  The new entry comes after some of the old ones,
and all that are alive are among them. -/
theorem exists_register (registry : Registry) (isAlive : ScopeId → Bool) (s : ScopeId) :
    ∃ kept : List ScopeId, (registry.register isAlive s).entries.toList = kept ++ [s] ∧
      kept.Sublist registry.entries.toList ∧
      ∀ t ∈ registry.entries.toList, isAlive t = true → t ∈ kept := by
  unfold register
  split
  · refine ⟨registry.entries.toList.filter isAlive, ?_, List.filter_sublist, fun t ht halive => ?_⟩
    · rw [entries_push, Array.toList_push, toList_retain]
    · exact List.mem_filter.2 ⟨ht, halive⟩
  · refine ⟨registry.entries.toList, ?_, List.Sublist.refl _, fun t ht _ => ht⟩
    rw [entries_push, Array.toList_push]

end Registry

namespace Store

/-- The scopes that are alive are those that exist. -/
theorem isAlive_eq_true : store.isAlive s = true ↔ store.Has s :=
  Option.isSome_iff_exists

/-! ### The registries of a store -/

/-- A registry has an entry of a scope. -/
def Lists (store : Store) (id : RegistryId) (s : ScopeId) : Prop :=
  s ∈ (store.registries[id]?.getD {}).entries.toList

/-- Only a registry that there is lists scopes. -/
theorem Lists.lt_size (h : store.Lists id s) : id < store.registries.size := by
  by_contra hge
  rw [Lists, Array.getElem?_eq_none (Nat.le_of_not_lt hge)] at h
  exact absurd h List.not_mem_nil

/-- Every existing scope is in the registry of its tree, and a registry has the scopes of one
tree. -/
structure Registered (store : Store) : Prop where
  size : store.registryOf.size = store.nextScope
  /-- A scope shares the registry of its parent. -/
  parent : ∀ {s scope p}, store.scope? s = some scope → scope.parent? = some p →
    store.registryOf[p]? = store.registryOf[s]?
  /-- No two roots share a registry. -/
  root : ∀ {s scope t found}, store.scope? s = some scope → scope.parent? = none →
    store.scope? t = some found → found.parent? = none →
    store.registryOf[s]? = store.registryOf[t]? → s = t
  /-- Every existing scope is in its registry. -/
  entered : ∀ {s}, store.Has s → ∃ id, store.registryOf[s]? = some id ∧ store.Lists id s
  /-- What is in a registry was entered there. -/
  registryOf : ∀ {id s}, store.Lists id s → store.registryOf[s]? = some id
  /-- No scope is entered twice. -/
  nodup : ∀ id : RegistryId, (store.registries[id]?.getD {}).entries.toList.Nodup

/-- There is nothing in a new store. -/
theorem registered_empty : ({} : Store).Registered where
  size := rfl
  parent := nofun
  root := nofun
  entered h := absurd h.lt_nextScope (Nat.not_lt_zero _)
  registryOf := nofun
  nodup _ := List.nodup_nil

/-! ### Making a scope -/

/-- A new scope belongs to the registry that was chosen for it. -/
theorem registryOf_push (store : Store) (scope : Scope) :
    (store.push scope).registryOf = store.registryOf.push (store.registryFor scope) := rfl

/-- Making a scope touches no registry but its own. -/
theorem registries_push (hle : store.registryFor scope ≤ store.registries.size) (id : RegistryId) :
    (store.push scope).registries[id]? =
      if id = store.registryFor scope then
        some ((store.registries[id]?.getD {}).register store.isAlive store.nextScope)
      else store.registries[id]? := by
  have hpush : (store.push scope).registries =
      (if store.registryFor scope = store.registries.size then store.registries.push {}
        else store.registries).modify (store.registryFor scope)
          (·.register store.isAlive store.nextScope) := rfl
  rw [hpush, Array.getElem?_modify]
  by_cases hnew : store.registryFor scope = store.registries.size
  · rw [if_pos hnew, Array.getElem?_push, hnew]
    by_cases hid : id = store.registries.size
    · subst hid
      simp
    · rw [if_neg (Ne.symm hid), if_neg hid, if_neg hid]
  · rw [if_neg hnew]
    by_cases hid : id = store.registryFor scope
    · subst hid
      have hlt : store.registryFor scope < store.registries.size := Nat.lt_of_le_of_ne hle hnew
      simp [hlt]
    · rw [if_neg (Ne.symm hid), if_neg hid]

/-- What the registries have once a scope is made: the entries there were, but for dead ones, and
the new scope in its registry. -/
theorem exists_entries_push (hle : store.registryFor scope ≤ store.registries.size)
    (id : RegistryId) :
    ∃ kept : List ScopeId, kept.Sublist (store.registries[id]?.getD {}).entries.toList ∧
      (∀ t, store.Lists id t → store.Has t → t ∈ kept) ∧
      ((store.push scope).registries[id]?.getD {}).entries.toList =
        if id = store.registryFor scope then kept ++ [store.nextScope] else kept := by
  rw [registries_push hle]
  split
  · obtain ⟨kept, hkept, hsub, halive⟩ := Registry.exists_register
      (store.registries[id]?.getD {}) store.isAlive store.nextScope
    exact ⟨kept, hsub, fun t ht hhas => halive t ht (isAlive_eq_true.2 hhas), hkept⟩
  · exact ⟨_, List.Sublist.refl _, fun t ht _ => ht, rfl⟩

/-- A new scope is entered in its registry. -/
theorem lists_push_self (hle : store.registryFor scope ≤ store.registries.size) :
    (store.push scope).Lists (store.registryFor scope) store.nextScope := by
  obtain ⟨kept, -, -, hentries⟩ := exists_entries_push hle (store.registryFor scope)
  rw [Lists, hentries, if_pos rfl]
  exact List.mem_append_right _ (List.mem_singleton_self _)

/-- **No existing scope loses its entry** when another one is made. -/
theorem Lists.push (hle : store.registryFor scope ≤ store.registries.size)
    (h : store.Lists id t) (ht : store.Has t) : (store.push scope).Lists id t := by
  obtain ⟨kept, -, hkept, hentries⟩ := exists_entries_push hle id
  rw [Lists, hentries]
  split
  · exact List.mem_append_left _ (hkept t h ht)
  · exact hkept t h ht

/-- The new scope is the only one that is entered. -/
theorem Lists.of_push (hle : store.registryFor scope ≤ store.registries.size)
    (h : (store.push scope).Lists id t) :
    store.Lists id t ∨ id = store.registryFor scope ∧ t = store.nextScope := by
  obtain ⟨kept, hsub, -, hentries⟩ := exists_entries_push hle id
  rw [Lists, hentries] at h
  split at h
  · next hid =>
    rw [List.mem_append, List.mem_singleton] at h
    exact h.imp (fun h => hsub.subset h) fun ht => ⟨hid, ht⟩
  · exact .inl (hsub.subset h)

namespace Registered

variable (h : store.Registered)
include h

/-- Only scopes that were made belong to a registry. -/
theorem lt_nextScope (hs : store.registryOf[s]? = some id) : s < store.nextScope :=
  h.size ▸ (Array.getElem?_eq_some_iff.1 hs).1

/-- An existing scope hands on its registry to the scopes that are made in it. -/
theorem registryFor_eq {p : ScopeId} (hp : scope.parent? = some p) (hhas : store.Has p) :
    store.registryOf[p]? = some (store.registryFor scope) := by
  obtain ⟨id, hid, -⟩ := h.entered hhas
  rw [registryFor, hp, Option.bind_some, hid, Option.getD_some]

/-- The registry for a new scope is there already, or it comes next. -/
theorem registryFor_le (hparent : ∀ p, scope.parent? = some p → store.Has p) :
    store.registryFor scope ≤ store.registries.size := by
  cases hp : scope.parent? with
  | none => rw [registryFor, hp, Option.bind_none, Option.getD_none]
  | some p =>
    obtain ⟨id, hid, hlists⟩ := h.entered (hparent p hp)
    rw [Option.some.inj ((h.registryFor_eq hp (hparent p hp)).symm.trans hid)]
    exact Nat.le_of_lt hlists.lt_size

/-- A new root has a registry that no scope has. -/
theorem registryOf_ne_registryFor (hp : scope.parent? = none) (hs : store.Has s) :
    store.registryOf[s]? ≠ some (store.registryFor scope) := by
  obtain ⟨id, hid, hlists⟩ := h.entered hs
  rw [registryFor, hp, Option.bind_none, Option.getD_none, hid]
  exact fun heq => Nat.ne_of_lt hlists.lt_size (Option.some.inj heq)

/-- The new scope belongs to its registry. -/
theorem registryOf_push_self (scope : Scope) :
    (store.push scope).registryOf[store.nextScope]? = some (store.registryFor scope) := by
  rw [registryOf_push, Array.getElem?_push, if_pos h.size.symm]

/-- The other scopes belong to the registries that they did. -/
theorem registryOf_push_of_lt (scope : Scope) (ht : t < store.nextScope) :
    (store.push scope).registryOf[t]? = store.registryOf[t]? := by
  rw [registryOf_push, Array.getElem?_push, if_neg (h.size ▸ Nat.ne_of_lt ht)]

/-- No root comes to share a registry with another one when a scope is made. -/
theorem root_push {other : Scope} (hs : (store.push scope).scope? s = some found)
    (hsroot : found.parent? = none) (ht : (store.push scope).scope? t = some other)
    (htroot : other.parent? = none)
    (hsame : (store.push scope).registryOf[s]? = (store.push scope).registryOf[t]?) : s = t := by
  rw [scope?_push] at hs ht
  -- a root is the new scope, or it was there before
  split at hs <;> split at ht
  · next hs' ht' => exact hs'.trans ht'.symm
  · next hs' _ =>
    obtain rfl := Option.some.inj hs
    rw [hs', h.registryOf_push_self, h.registryOf_push_of_lt _ (Store.lt_nextScope ht)] at hsame
    exact absurd hsame.symm (h.registryOf_ne_registryFor hsroot ⟨other, ht⟩)
  · next _ ht' =>
    obtain rfl := Option.some.inj ht
    rw [ht', h.registryOf_push_self, h.registryOf_push_of_lt _ (Store.lt_nextScope hs)] at hsame
    exact absurd hsame (h.registryOf_ne_registryFor htroot ⟨found, hs⟩)
  · rw [h.registryOf_push_of_lt _ (Store.lt_nextScope hs),
      h.registryOf_push_of_lt _ (Store.lt_nextScope ht)] at hsame
    exact h.root hs hsroot ht htroot hsame

/-- No scope comes to be entered twice when a scope is made. -/
theorem nodup_push (hle : store.registryFor scope ≤ store.registries.size) (id : RegistryId) :
    ((store.push scope).registries[id]?.getD {}).entries.toList.Nodup := by
  obtain ⟨kept, hsub, -, hentries⟩ := exists_entries_push hle id
  have hkept := (h.nodup id).sublist hsub
  rw [hentries]
  split
  · refine List.nodup_append.2 ⟨hkept, List.pairwise_singleton .., fun t ht u hu => ?_⟩
    -- what was entered before has a smaller number
    rw [List.mem_singleton.1 hu]
    exact Nat.ne_of_lt (h.lt_nextScope (h.registryOf (hsub.subset ht)))
  · exact hkept

/-- **Making a scope keeps the registries right**, if its parent exists. -/
theorem push (hparent : ∀ p, scope.parent? = some p → store.Has p) :
    (store.push scope).Registered := by
  have hle := h.registryFor_le hparent
  have hnew := h.registryOf_push_self scope
  have hold {t : ScopeId} (ht : t < store.nextScope) := h.registryOf_push_of_lt scope ht
  refine ⟨?size, ?parent, h.root_push, ?entered, ?registryOf, h.nodup_push hle⟩
  case size => rw [registryOf_push, Array.size_push, h.size, nextScope_push]
  case parent =>
    intro s found p hs hp
    rw [scope?_push] at hs
    split at hs
    · next heq =>
      obtain rfl := Option.some.inj hs
      rw [heq, hnew, hold (hparent p hp).lt_nextScope, h.registryFor_eq hp (hparent p hp)]
    · obtain ⟨id, hid, -⟩ := h.entered ⟨found, hs⟩
      have hshared := (h.parent hs hp).trans hid
      rw [hold (h.lt_nextScope hshared), hold (h.lt_nextScope hid), h.parent hs hp]
  case entered =>
    rintro s ⟨found, hs⟩
    rw [scope?_push] at hs
    split at hs
    · next heq => exact heq ▸ ⟨_, hnew, lists_push_self hle⟩
    · obtain ⟨id, hid, hlists⟩ := h.entered ⟨found, hs⟩
      exact ⟨id, (hold (h.lt_nextScope hid)).trans hid, hlists.push hle ⟨found, hs⟩⟩
  case registryOf =>
    intro id s hlists
    rcases hlists.of_push hle with hlists | ⟨rfl, rfl⟩
    · have hid := h.registryOf hlists
      rw [hold (h.lt_nextScope hid), hid]
    · exact hnew

/-- **A new scope keeps the registries right**, whatever it is made in. -/
theorem newScope (parent : Option ScopeId) (bindings : Table Value) :
    (store.newScope parent bindings).2.Registered := by
  refine h.push fun p hp => ?_
  cases parent with
  | none => cases hp
  | some q =>
    have hhead : (store.chain q).head? = some p := hp
    exact eq_of_head?_chain hhead ▸ has_of_mem_chain (List.mem_of_head? hhead)

/-! ### Other changes -/

/-- **Whatever makes no scope and leaves the links to parents keeps the registries right**, even if
entries of scopes that do not exist are dropped. -/
theorem of_kept (hnext : b.nextScope = store.nextScope) (hof : b.registryOf = store.registryOf)
    (hsub : ∀ {s scope}, b.scope? s = some scope →
      ∃ found, store.scope? s = some found ∧ scope.parent? = found.parent?)
    (hentries : ∀ id : RegistryId, (b.registries[id]?.getD {}).entries.toList.Sublist
      (store.registries[id]?.getD {}).entries.toList)
    (hkept : ∀ {id t}, store.Lists id t → b.Has t → b.Lists id t) : b.Registered where
  size := by rw [hof, hnext, h.size]
  parent := by
    intro s scope p hs hp
    obtain ⟨found, hfound, hparent⟩ := hsub hs
    rw [hof]
    exact h.parent hfound (hparent.symm.trans hp)
  root := by
    intro s scope t other hs hsroot ht htroot hsame
    obtain ⟨found, hfound, hparent⟩ := hsub hs
    obtain ⟨found', hfound', hparent'⟩ := hsub ht
    rw [hof] at hsame
    exact h.root hfound (hparent.symm.trans hsroot) hfound' (hparent'.symm.trans htroot) hsame
  entered := by
    rintro s ⟨scope, hs⟩
    obtain ⟨found, hfound, -⟩ := hsub hs
    obtain ⟨id, hid, hlists⟩ := h.entered ⟨found, hfound⟩
    exact ⟨id, hof ▸ hid, hkept hlists ⟨scope, hs⟩⟩
  registryOf {id s} hlists := by
    rw [hof]
    exact h.registryOf ((hentries id).subset hlists)
  nodup id := (h.nodup id).sublist (hentries id)

/-- So does what leaves all entries where they are. -/
theorem of_sub (hnext : b.nextScope = store.nextScope) (hof : b.registryOf = store.registryOf)
    (hregistries : b.registries = store.registries)
    (hsub : ∀ {s scope}, b.scope? s = some scope →
      ∃ found, store.scope? s = some found ∧ scope.parent? = found.parent?) : b.Registered := by
  refine h.of_kept hnext hof hsub (fun id => ?_) fun {id t} hlists _ => ?_
  · exact hregistries ▸ List.Sublist.refl _
  · rwa [Lists, hregistries]

/-- A change that leaves the scopes around a scope leaves the registries right. -/
theorem update {change : Scope → Scope} (hchange : ∀ scope, (change scope).outer = scope.outer)
    (s : ScopeId) : (store.update s change).Registered := by
  refine h.of_sub (nextScope_update ..) rfl rfl fun {t scope} ht => ?_
  rw [scope?_update] at ht
  split at ht
  · obtain ⟨found, hfound, rfl⟩ := Option.map_eq_some_iff.1 ht
    exact ⟨found, hfound, congrArg List.head? (hchange found)⟩
  · exact ⟨scope, ht, rfl⟩

/-- So does a binding. -/
theorem bind (s : ScopeId) (name : String) (v : Value) : (store.bind s name v).Registered :=
  h.update (Scope.outer_bind · name v) s

/-- So does a new procedure. -/
theorem newProcedure (name : String) (params : List String) (body : SExpr) (s : ScopeId) :
    (store.newProcedure name params body s).2.Registered :=
  h.of_sub rfl rfl rfl fun hs => ⟨_, hs, rfl⟩

/-- So does emptying scopes. -/
theorem emptyAll (listed : List ScopeId) : (store.emptyAll listed).Registered := by
  induction listed generalizing store with
  | nil => exact h
  | cons s rest ih => exact ih (h.update Scope.outer_emptied s)

end Registered

/-! ### Dropping dead entries -/

/-- Dropping dead entries leaves all scopes as they are. -/
@[simp] theorem scope?_retain (store : Store) (s t : ScopeId) :
    (store.retain s).scope? t = store.scope? t := by
  unfold retain
  split <;> rfl

/-- It gives no number back. -/
@[simp] theorem nextScope_retain (store : Store) (s : ScopeId) :
    (store.retain s).nextScope = store.nextScope := by
  unfold retain
  split <;> rfl

/-- Nor does it take the number of a procedure. -/
@[simp] theorem nextProcedure_retain (store : Store) (s : ScopeId) :
    (store.retain s).nextProcedure = store.nextProcedure := by
  unfold retain
  split <;> rfl

/-- Scopes belong to the registries that they did. -/
@[simp] theorem registryOf_retain (store : Store) (s : ScopeId) :
    (store.retain s).registryOf = store.registryOf := by
  unfold retain
  split <;> rfl

/-- The same scopes exist. -/
theorem has_retain (store : Store) (s t : ScopeId) : (store.retain s).Has t ↔ store.Has t := by
  rw [Has, Has, scope?_retain]

/-- In each registry the entries stay, or else just those of existing scopes. -/
theorem entries_retain (store : Store) (s : ScopeId) (id : RegistryId) :
    ((store.retain s).registries[id]?.getD {}).entries.toList =
        (store.registries[id]?.getD {}).entries.toList ∨
      ((store.retain s).registries[id]?.getD {}).entries.toList =
        (store.registries[id]?.getD {}).entries.toList.filter store.isAlive := by
  unfold retain
  split
  · next mine _ =>
    rw [Array.getElem?_modify]
    split
    · cases store.registries[id]? with
      | none => exact .inl rfl
      | some registry => exact .inr (registry.toList_retain store.isAlive)
    · exact .inl rfl
  · exact .inl rfl

/-- **Dropping dead entries keeps the registries right.** -/
theorem Registered.retain (h : store.Registered) (s : ScopeId) :
    (store.retain s).Registered := by
  refine h.of_kept (nextScope_retain ..) (registryOf_retain ..) (fun {t scope} ht => ?_)
    (fun id => ?_) fun {id t} hlists ht => ?_
  · exact ⟨scope, (scope?_retain ..).symm.trans ht, rfl⟩
  · rcases store.entries_retain s id with hsame | hsame
    · exact hsame ▸ List.Sublist.refl _
    · exact hsame ▸ List.filter_sublist
  · unfold Lists at hlists ⊢
    rcases store.entries_retain s id with hsame | hsame
    · rwa [hsame]
    · rw [hsame]
      exact List.mem_filter.2 ⟨hlists, isAlive_eq_true.2 ((has_retain ..).1 ht)⟩

/-! ### The registry of a tree -/

/-- Every tree has a root that exists, and its scopes share the registry of the root. -/
theorem Registered.root_spec (h : store.Registered) (hsound : store.Sound) (hs : store.Has s) :
    store.registryOf[store.rootOf s]? = store.registryOf[s]? ∧
      ∃ scope, store.scope? (store.rootOf s) = some scope ∧ scope.parent? = none := by
  refine ClosedOn.chain_induction hsound
    (motive := fun s => store.registryOf[store.rootOf s]? = store.registryOf[s]? ∧
      ∃ scope, store.scope? (store.rootOf s) = some scope ∧ scope.parent? = none)
    ?root ?inside (Set.mem_univ s) hs
  case root =>
    intro s scope _ hscope hp hchain
    have hroot : store.rootOf s = s := by
      rw [rootOf, hchain]
      rfl
    rw [hroot]
    exact ⟨rfl, scope, hscope, hp⟩
  case inside =>
    intro s p scope _ hscope hp _ ih
    rw [hsound.rootOf_parent hscope hp]
    exact ⟨ih.1.trans (h.parent hscope hp), ih.2⟩

/-- **Two scopes have one registry if and only if they have one root.** -/
theorem Registered.registryOf_eq_iff (h : store.Registered) (hsound : store.Sound)
    (hs : store.Has s) (ht : store.Has t) :
    store.registryOf[s]? = store.registryOf[t]? ↔ store.rootOf s = store.rootOf t := by
  obtain ⟨hsame, scope, hscope, hroot⟩ := h.root_spec hsound hs
  obtain ⟨hsame', found, hfound, hroot'⟩ := h.root_spec hsound ht
  rw [← hsame, ← hsame']
  exact ⟨h.root hscope hroot hfound hroot', congrArg (store.registryOf[·]?)⟩

/-- **The registry of a scope gives its tree.** -/
theorem Registered.mem_treeOf (h : store.Registered) (hsound : store.Sound) :
    t ∈ store.treeOf s ↔ store.Has t ∧ store.rootOf t = store.rootOf s := by
  unfold treeOf
  cases hscope : store.scope? s with
  | none =>
    have hroot : store.rootOf s = s := by
      rw [rootOf, chain_eq_nil hscope]
      rfl
    refine iff_of_false List.not_mem_nil ?_
    rintro ⟨ht, hsame⟩
    obtain ⟨-, found, hfound, -⟩ := h.root_spec hsound ht
    rw [hsame, hroot, hscope] at hfound
    cases hfound
  | some scope =>
    have hs : store.Has s := ⟨scope, hscope⟩
    obtain ⟨id, hid, -⟩ := h.entered hs
    dsimp only
    rw [hid, Option.bind_some, List.mem_filter, isAlive_eq_true, and_comm]
    refine and_congr_right fun ht => ?_
    rw [← h.registryOf_eq_iff hsound ht hs, hid]
    refine ⟨h.registryOf, fun hshared => ?_⟩
    obtain ⟨other, hother, hlists⟩ := h.entered ht
    rw [← Option.some.inj (hother.symm.trans hshared)]
    exact hlists

/-- Each scope of a tree is listed once. -/
theorem Registered.nodup_treeOf (h : store.Registered) (s : ScopeId) :
    (store.treeOf s).Nodup := by
  unfold treeOf
  split
  · cases hid : store.registryOf[s]? with
    | none => exact List.nodup_nil
    | some id => exact (h.nodup id).filter _
  · exact List.nodup_nil

end Store
end StrictScheme
