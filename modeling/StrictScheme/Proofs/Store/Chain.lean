/-
# Names seen from a scope

Going outward from a scope along the links to parents, another scope is met before any
that binds a name, or it stays hidden behind one that does (`Store.MeetsFirst`).  Looking a
name up finds the scope that binds it and is met first (`Store.Sound.binder?_eq_some_iff`).

So the effect of one binding is settled for all scopes at once: those that meet the scope
of the binding first see the new value, and the others see what they saw
(`Store.Sound.lookup_bind_of_meetsFirst`, `Store.Sound.lookup_bind_of_not_meetsFirst`).  A
definition binds in the scope itself, and an assignment in the nearest scope that binds
the name already.
-/

import StrictScheme.Proofs.Session.Sound

namespace StrictScheme

variable {store : Store} {s t u p : ScopeId} {scope : Scope} {name key : String} {v : Value}

namespace Store

/-! ### Looking up along a chain -/

/-- A scope that binds a name is the first to do so from there. -/
theorem binder?_of_bindsLocally (h : store.bindsLocally s name = true) :
    store.binder? s name = some s := by
  obtain ⟨scope, hscope⟩ := has_of_bindsLocally h
  rw [binder?, chain_eq hscope, List.find?_cons, h]

/-- What a scope binds itself is found first. -/
theorem lookup_of_local? (h : store.local? s name = some v) : store.lookup s name = some v := by
  have hbound : store.bindsLocally s name = true := by rw [bindsLocally, h, Option.isSome_some]
  rw [lookup, binder?_of_bindsLocally hbound, Option.bind_some, h]

/-- From a scope that does not exist, no name stands for anything. -/
theorem lookup_of_not_has (h : ¬ store.Has s) (name : String) : store.lookup s name = none := by
  have hnone : store.scope? s = none := Option.eq_none_iff_forall_ne_some.2 fun scope hscope =>
    h ⟨scope, hscope⟩
  rw [lookup, binder?, chain_eq_nil hnone]
  rfl

/-- From a scope without a parent, that scope binds a name or none does. -/
theorem binder?_of_chain_eq_singleton (h : store.chain t = [t]) (name : String) :
    store.binder? t name = if store.bindsLocally t name then some t else none := by
  rw [binder?, h, List.find?_singleton]

/-- From a scope with a parent, that scope binds a name, or it is found from the parent. -/
theorem binder?_of_chain_eq_cons (h : store.chain t = t :: store.chain p) (name : String) :
    store.binder? t name = if store.bindsLocally t name then some t else store.binder? p name := by
  rw [binder?, h, List.find?_cons, binder?]
  cases store.bindsLocally t name <;> rfl

/-- From a scope without a parent, a name stands for what it is bound to there. -/
theorem lookup_of_chain_eq_singleton (h : store.chain t = [t]) (name : String) :
    store.lookup t name = store.local? t name := by
  rw [lookup, binder?_of_chain_eq_singleton h]
  cases hbound : store.bindsLocally t name with
  | true => rfl
  | false => exact (local?_eq_none_of_bindsLocally hbound).symm

/-- A name is looked up in the scope itself and then from its parent. -/
theorem lookup_of_chain_eq_cons (h : store.chain t = t :: store.chain p) (name : String) :
    store.lookup t name = (store.local? t name).or (store.lookup p name) := by
  rw [lookup, binder?_of_chain_eq_cons h]
  cases hbound : store.bindsLocally t name with
  | true =>
    obtain ⟨w, hw⟩ := Option.isSome_iff_exists.1 hbound
    rw [if_pos rfl, Option.bind_some, hw, Option.some_or]
  | false =>
    rw [local?_eq_none_of_bindsLocally hbound, Option.none_or, lookup]
    rfl

/-- A binding leaves the links to parents as they are. -/
theorem chain_bind_eq_cons (h : store.chain t = t :: store.chain p) (s : ScopeId) (name : String)
    (v : Value) :
    (store.bind s name v).chain t = t :: (store.bind s name v).chain p := by
  rw [chain_bind, chain_bind, h]

/-! ### Walking outward -/

/-- Going outward from `t` along the links to parents, `s` is met before any scope that binds the
name. -/
inductive MeetsFirst (store : Store) (name : String) : (t s : ScopeId) → Prop
  | here (s : ScopeId) : MeetsFirst store name s s
  | outward {t p s : ScopeId} {scope : Scope} (ht : store.scope? t = some scope)
      (hp : scope.parent? = some p) (hfree : store.bindsLocally t name = false)
      (h : MeetsFirst store name p s) : MeetsFirst store name t s

/-- From `t` outward, `u` is the nearest scope that binds the name. -/
structure IsNearestBinder (store : Store) (name : String) (t u : ScopeId) : Prop where
  meets : store.MeetsFirst name t u
  binds : store.bindsLocally u name = true

namespace Sound

variable (h : store.Sound)
include h

/-- A scope that is met first is found, if it binds the name. -/
theorem binder?_eq_some (hmeets : store.MeetsFirst name t u)
    (hbinds : store.bindsLocally u name = true) : store.binder? t name = some u := by
  induction hmeets with
  | here u => exact binder?_of_bindsLocally hbinds
  | outward ht hp hfree _ ih =>
    rw [binder?_of_chain_eq_cons (ClosedOn.chain_parent h (Set.mem_univ _) ht hp), hfree]
    exact ih hbinds

/-- **Looking a name up finds the nearest scope that binds it.** -/
theorem binder?_eq_some_iff : store.binder? t name = some u ↔ store.IsNearestBinder name t u := by
  refine ⟨fun hu => ⟨?_, bindsLocally_of_binder? hu⟩, fun hu => h.binder?_eq_some hu.1 hu.2⟩
  have hhas : store.Has t := has_of_mem_chain (List.mem_of_find?_eq_some hu)
  refine ClosedOn.chain_induction h
    (motive := fun t => store.binder? t name = some u → store.MeetsFirst name t u)
    ?root ?inside (Set.mem_univ t) hhas hu
  case root =>
    intro t scope _ _ _ hchain hu
    rw [binder?_of_chain_eq_singleton hchain] at hu
    split at hu
    · exact Option.some.inj hu ▸ .here t
    · exact absurd hu nofun
  case inside =>
    intro t p scope _ hscope hp hchain ih hu
    rw [binder?_of_chain_eq_cons hchain] at hu
    split at hu
    · exact Option.some.inj hu ▸ .here t
    · next hfree => exact .outward hscope hp (Bool.eq_false_iff.2 hfree) (ih hu)

/-! ### What one binding changes -/

/-- **Scopes that meet the scope of a binding first see the new value.** -/
theorem lookup_bind_of_meetsFirst (hs : store.Has s) (hmeets : store.MeetsFirst name t s)
    (v : Value) : (store.bind s name v).lookup t name = some v := by
  have hself := lookup_of_local? (local?_bind_self hs name v)
  induction hmeets with
  | here s => exact hself
  | @outward t p s scope ht hp hfree _ ih =>
    by_cases hts : t = s
    · rw [hts]
      exact hself
    · have hchain := ClosedOn.chain_parent h (Set.mem_univ t) ht hp
      rw [lookup_of_chain_eq_cons (chain_bind_eq_cons hchain ..),
        local?_bind_of_ne fun hts' => absurd hts' hts, local?_eq_none_of_bindsLocally hfree,
        Option.none_or, ih hs hself]

/-- **All other names and scopes see what they saw.** -/
theorem lookup_bind_of_not_meetsFirst (hmeets : ¬ (key = name ∧ store.MeetsFirst name t s))
    (v : Value) : (store.bind s name v).lookup t key = store.lookup t key := by
  by_cases hhas : store.Has t
  · refine ClosedOn.chain_induction h
      (motive := fun t => ¬ (key = name ∧ store.MeetsFirst name t s) →
        (store.bind s name v).lookup t key = store.lookup t key)
      ?root ?inside (Set.mem_univ t) hhas hmeets
    case root =>
      intro t scope _ _ _ hchain hmeets
      rw [lookup_of_chain_eq_singleton hchain,
        lookup_of_chain_eq_singleton ((chain_bind ..).trans hchain), local?_bind_of_ne]
      rintro rfl hkey
      exact hmeets ⟨hkey, .here t⟩
    case inside =>
      intro t p scope _ hscope hp hchain ih hmeets
      have hlocal : (store.bind s name v).local? t key = store.local? t key := by
        refine local?_bind_of_ne (fun hts hkey => hmeets ⟨hkey, ?_⟩) v
        exact hts ▸ .here t
      rw [lookup_of_chain_eq_cons hchain,
        lookup_of_chain_eq_cons (chain_bind_eq_cons hchain ..), hlocal]
      cases hbound : store.bindsLocally t key with
      | true =>
        obtain ⟨w, hw⟩ := Option.isSome_iff_exists.1 hbound
        rw [hw, Option.some_or, Option.some_or]
      | false =>
        rw [ih fun ⟨hkey, hp'⟩ => hmeets ⟨hkey, .outward hscope hp (hkey ▸ hbound) hp'⟩]
  · have hgone : ¬ (store.bind s name v).Has t := mt (has_update ..).1 hhas
    rw [lookup_of_not_has hhas, lookup_of_not_has hgone]

/-- Two scopes have the same nearest binder if the one's is met first from the other. -/
theorem exists_isNearestBinder_iff (hu : store.binder? s name = some u) :
    (∃ w, store.IsNearestBinder name s w ∧ store.IsNearestBinder name t w) ↔
      store.MeetsFirst name t u := by
  constructor
  · rintro ⟨w, hsw, htw⟩
    rw [← h.binder?_eq_some_iff, hu] at hsw
    exact Option.some.inj hsw ▸ htw.meets
  · exact fun hmeets =>
      ⟨u, h.binder?_eq_some_iff.1 hu, hmeets, bindsLocally_of_binder? hu⟩

end Sound
end Store

open Store

/-- **What a definition and an assignment change, seen from every scope.**  A definition fails,
and changes nothing, if its scope binds the name already; otherwise its value is seen from just
those scopes that meet its scope before any other that binds the name.  An assignment fails, and
changes nothing, if the name is not found; otherwise its value is seen from just those scopes that
have the same nearest binder.  What is seen of other names, and from other scopes, stays.

The store of every session that a host can come to is sound (`Session.Reachable.sound`), and
evaluations keep it so. -/
theorem Store.Sound.lookup_after_write (h : store.Sound) (hs : store.Has s) (name : String)
    (v : Value) :
    (∀ e after, Action.define s name v store = .error e after ↔
      store.bindsLocally s name = true ∧ e = .duplicateDefinition name ∧ after = store) ∧
    (∀ after, Action.define s name v store = .ok () after → ∀ t key,
      (key = name ∧ store.MeetsFirst name t s → after.lookup t key = some v) ∧
      (¬ (key = name ∧ store.MeetsFirst name t s) →
        after.lookup t key = store.lookup t key)) ∧
    (∀ e after, Action.assign s name v store = .error e after ↔
      store.lookup s name = none ∧ e = .undefinedVariable name ∧ after = store) ∧
    ∀ after, Action.assign s name v store = .ok () after → ∀ t key,
      (key = name ∧ (∃ u, store.IsNearestBinder name s u ∧ store.IsNearestBinder name t u) →
        after.lookup t key = some v) ∧
      (¬ (key = name ∧ ∃ u, store.IsNearestBinder name s u ∧ store.IsNearestBinder name t u) →
        after.lookup t key = store.lookup t key) := by
  refine ⟨fun e after => Action.define_eq_error, fun after hafter t key => ?_,
    fun e after => Action.assign_eq_error, fun after hafter t key => ?_⟩
  · obtain ⟨-, rfl⟩ := Action.define_eq_ok.1 hafter
    refine ⟨?_, fun hmeets => h.lookup_bind_of_not_meetsFirst hmeets v⟩
    rintro ⟨rfl, hmeets⟩
    exact h.lookup_bind_of_meetsFirst hs hmeets v
  · obtain ⟨u, hu, rfl⟩ := Action.assign_eq_ok.1 hafter
    rw [h.exists_isNearestBinder_iff hu]
    refine ⟨?_, fun hmeets => h.lookup_bind_of_not_meetsFirst hmeets v⟩
    rintro ⟨rfl, hmeets⟩
    exact h.lookup_bind_of_meetsFirst (has_of_bindsLocally (bindsLocally_of_binder? hu)) hmeets v

/-- A session in which two scopes stand side by side in the global scope, one of them with a scope
in it. -/
def Session.branching : Session :=
  ((new {}).steps
    [.define .global "x" (.number 1), .newScope "a" (some .global),
      .newScope "b" (some (.handle "a")), .newScope "c" (some .global)]).2

/-- A definition that is refused, one that a scope inside sees, and an assignment that a scope beside
sees. -/
theorem Session.branching_lookup_after_write :
    let store := branching.store
    let defined := store.bind 1 "x" (.number 2)
    let assigned := store.bind 0 "x" (.number 3)
    Action.define 0 "x" (.number 2) store = .error (.duplicateDefinition "x") store ∧
      Action.define 1 "x" (.number 2) store = .ok () defined ∧
      defined.lookup 2 "x" = some (.number 2) ∧
      Action.assign 1 "x" (.number 3) store = .ok () assigned ∧
      assigned.lookup 3 "x" = some (.number 3) := by
  intro store defined assigned
  have hsound : store.Sound := ((Reachable.new {}).steps _).sound.store
  have hglobal : store.Has 0 := Option.isSome_iff_exists.1 (by decide +kernel)
  have hhas : store.Has 1 := Option.isSome_iff_exists.1 (by decide +kernel)
  obtain ⟨scope, hscope, hparent⟩ : ∃ scope, store.scope? 2 = some scope ∧ scope.parent? = some 1 :=
    Option.bind_eq_some_iff.1 (by decide +kernel)
  have hmeets : store.MeetsFirst "x" 2 1 := .outward hscope hparent (by decide +kernel) (.here 1)
  have hdefined : Action.define 1 "x" (.number 2) store = .ok () defined :=
    Action.define_eq_ok.2 ⟨by decide +kernel, rfl⟩
  have hassigned : Action.assign 1 "x" (.number 3) store = .ok () assigned :=
    Action.assign_eq_ok.2 ⟨0, by decide +kernel, rfl⟩
  have hshared : ∃ u, store.IsNearestBinder "x" 1 u ∧ store.IsNearestBinder "x" 3 u :=
    ⟨0, hsound.binder?_eq_some_iff.1 (by decide +kernel),
      hsound.binder?_eq_some_iff.1 (by decide +kernel)⟩
  obtain ⟨hfails, -⟩ := hsound.lookup_after_write hglobal "x" (.number 2)
  obtain ⟨-, hdefine, -⟩ := hsound.lookup_after_write hhas "x" (.number 2)
  obtain ⟨-, -, -, hassign⟩ := hsound.lookup_after_write hhas "x" (.number 3)
  exact ⟨(hfails _ _).2 ⟨by decide +kernel, rfl, rfl⟩, hdefined,
    (hdefine _ hdefined 2 "x").1 ⟨rfl, hmeets⟩, hassigned,
    (hassign _ hassigned 3 "x").1 ⟨rfl, hshared⟩⟩

end StrictScheme
