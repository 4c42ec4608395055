/-
# Laws of the store

What each operation on the store does to the scopes in it: which scope is found
under a number afterwards, and which number comes next.  With these an operation is
never opened again.
-/

import StrictScheme.Proofs.Table
import StrictScheme.Store.Reclaim

namespace StrictScheme

variable {store : Store} {s t : ScopeId} {scope : Scope}

/-! ### Single scopes -/

/-- A value is a user procedure just when it is made of one. -/
theorem Value.procedure?_eq_some {v : Value} {p : Procedure} :
    v.procedure? = some p ↔ v = .procedure p := by
  cases v <;> simp [procedure?]

namespace Scope

/-- Binding a name in a scope leaves the scopes around it. -/
@[simp] theorem outer_bind (scope : Scope) (name : String) (v : Value) :
    (scope.bind name v).outer = scope.outer := rfl

/-- It leaves the scope that it was made in, too. -/
@[simp] theorem parent?_bind (scope : Scope) (name : String) (v : Value) :
    (scope.bind name v).parent? = scope.parent? := rfl

/-- Emptying a scope leaves the scopes around it. -/
@[simp] theorem outer_emptied (scope : Scope) : scope.emptied.outer = scope.outer := rfl

/-- It leaves the scope that it was made in, too. -/
@[simp] theorem parent?_emptied (scope : Scope) : scope.emptied.parent? = scope.parent? := rfl

/-- An emptied scope binds no procedure. -/
@[simp] theorem procedures_emptied (scope : Scope) : scope.emptied.procedures = [] := rfl

/-- The procedures of a scope are those among the values it binds. -/
theorem mem_procedures {p : Procedure} :
    p ∈ scope.procedures ↔ Value.procedure p ∈ scope.bindings.values := by
  simp only [procedures, List.mem_filterMap, Value.procedure?_eq_some, exists_eq_right]

/-- A binding adds no procedure but the one that is bound. -/
theorem mem_procedures_bind {p : Procedure} {name : String} {v : Value}
    (h : p ∈ (scope.bind name v).procedures) : v = .procedure p ∨ p ∈ scope.procedures := by
  rw [mem_procedures] at h ⊢
  exact (Table.mem_values_insert h).imp_left Eq.symm

/-- A scope refers to the one it was made in, and to those of the procedures it binds. -/
theorem mem_references :
    t ∈ scope.references ↔
      scope.parent? = some t ∨ ∃ p ∈ scope.procedures, p.scope = t := by
  simp [references, Option.mem_toList]

/-- An emptied scope refers to the scope it was made in, and to nothing else. -/
theorem references_emptied (scope : Scope) :
    scope.emptied.references = scope.parent?.toList := by
  simp [references]

end Scope

namespace Store

/-! ### The scope under a number -/

/-- Scopes that exist have lower numbers than the next one. -/
theorem lt_nextScope (h : store.scope? s = some scope) : s < store.nextScope := by
  obtain ⟨hlt, -⟩ := Array.getElem?_eq_some_iff.1 (Option.join_eq_some_iff.1 h)
  exact hlt

/-- No scope exists from the next number on. -/
theorem scope?_of_nextScope_le (h : store.nextScope ≤ s) : store.scope? s = none := by
  rw [scope?, Array.getElem?_eq_none h]
  rfl

/-- A new scope is found under the next number, and the others where they were. -/
@[simp] theorem scope?_push (store : Store) (scope : Scope) (t : ScopeId) :
    (store.push scope).scope? t =
      if t = store.nextScope then some scope else store.scope? t := by
  by_cases h : t = store.nextScope
  · subst h
    simp [scope?, push, nextScope]
  · have hne : t ≠ store.scopes.size := h
    simp [scope?, push, Array.getElem?_push, h, hne]

/-- Changing a scope changes what is found under its number only. -/
@[simp] theorem scope?_update (store : Store) (s : ScopeId) (change : Scope → Scope)
    (t : ScopeId) :
    (store.update s change).scope? t =
      if t = s then (store.scope? t).map change else store.scope? t := by
  simp only [scope?, update, Array.getElem?_modify]
  by_cases h : t = s
  · rw [if_pos h, if_pos h.symm]
    cases store.scopes[t]? with
    | none => rfl
    | some slot => rfl
  · rw [if_neg h, if_neg (Ne.symm h)]

/-- A binding is found in its scope only. -/
@[simp] theorem scope?_bind (store : Store) (s : ScopeId) (name : String) (v : Value)
    (t : ScopeId) :
    (store.bind s name v).scope? t =
      if t = s then (store.scope? t).map (·.bind name v) else store.scope? t :=
  scope?_update ..

/-- An erased scope is gone, and the others are as they were. -/
@[simp] theorem scope?_erase (store : Store) (s t : ScopeId) :
    (store.erase s).scope? t = if t = s then none else store.scope? t := by
  simp only [scope?, erase, Array.getElem?_setIfInBounds]
  by_cases h : s = t
  · subst h
    rw [if_pos rfl, if_pos rfl]
    split <;> rfl
  · rw [if_neg h, if_neg (Ne.symm h)]

/-- Making a procedure leaves all scopes as they are. -/
@[simp] theorem scope?_newProcedure (store : Store) (name : String) (params : List String)
    (body : SExpr) (s t : ScopeId) :
    (store.newProcedure name params body s).2.scope? t = store.scope? t := rfl

/-! ### The next numbers -/

/-- A new scope takes a number. -/
@[simp] theorem nextScope_push (store : Store) (scope : Scope) :
    (store.push scope).nextScope = store.nextScope + 1 := by
  simp [push, nextScope]

/-- Changing a scope takes no number. -/
@[simp] theorem nextScope_update (store : Store) (s : ScopeId) (change : Scope → Scope) :
    (store.update s change).nextScope = store.nextScope := by
  simp [update, nextScope]

/-- Nor does a binding. -/
@[simp] theorem nextScope_bind (store : Store) (s : ScopeId) (name : String) (v : Value) :
    (store.bind s name v).nextScope = store.nextScope :=
  nextScope_update ..

/-- A new procedure takes no number of a scope. -/
@[simp] theorem nextScope_newProcedure (store : Store) (name : String) (params : List String)
    (body : SExpr) (s : ScopeId) :
    (store.newProcedure name params body s).2.nextScope = store.nextScope := rfl

/-- A new scope takes no number of a procedure. -/
@[simp] theorem nextProcedure_push (store : Store) (scope : Scope) :
    (store.push scope).nextProcedure = store.nextProcedure := rfl

/-- Nor does a binding. -/
@[simp] theorem nextProcedure_bind (store : Store) (s : ScopeId) (name : String) (v : Value) :
    (store.bind s name v).nextProcedure = store.nextProcedure := rfl

/-- A new procedure takes a number. -/
@[simp] theorem nextProcedure_newProcedure (store : Store) (name : String)
    (params : List String) (body : SExpr) (s : ScopeId) :
    (store.newProcedure name params body s).2.nextProcedure = store.nextProcedure + 1 := rfl

/-! ### Existing scopes -/

/-- A scope exists in a store. -/
def Has (store : Store) (s : ScopeId) : Prop :=
  ∃ scope, store.scope? s = some scope

/-- Changing a scope leaves the same scopes in existence. -/
theorem has_update (store : Store) (s : ScopeId) (change : Scope → Scope) (t : ScopeId) :
    (store.update s change).Has t ↔ store.Has t := by
  rw [Has, Has, scope?_update]
  by_cases h : t = s
  · rw [if_pos h]
    cases store.scope? t with
    | none => simp
    | some scope => simp
  · rw [if_neg h]

/-- A scope that exists has a lower number than the next one. -/
theorem Has.lt_nextScope (h : store.Has t) : t < store.nextScope := by
  obtain ⟨scope, hscope⟩ := h
  exact Store.lt_nextScope hscope

/-- So its number is not the next one. -/
theorem ne_nextScope (h : store.Has t) : t ≠ store.nextScope :=
  Nat.ne_of_lt h.lt_nextScope

/-- Making a scope leaves the others as they are. -/
theorem scope?_push_of_has (scope : Scope) (h : store.Has t) :
    (store.push scope).scope? t = store.scope? t := by
  rw [scope?_push, if_neg (ne_nextScope h)]

/-- Scopes that exist still do when another one is made. -/
theorem has_push (scope : Scope) (h : store.Has t) : (store.push scope).Has t := by
  rw [Has, scope?_push_of_has scope h]
  exact h

/-- A new scope exists. -/
theorem has_newScope (store : Store) (parent : Option ScopeId) (bindings : Table Value) :
    (store.newScope parent bindings).2.Has store.nextScope :=
  ⟨⟨store.enclosing parent, bindings⟩, by rw [newScope, scope?_push, if_pos rfl]⟩

/-- The numbers listed are those of the scopes that exist. -/
theorem mem_ids : s ∈ store.ids ↔ store.Has s := by
  rw [ids, List.mem_filter, List.mem_range, Option.isSome_iff_exists]
  exact and_iff_right_of_imp fun ⟨_, h⟩ => lt_nextScope h

/-- Each of them is listed once. -/
theorem nodup_ids (store : Store) : store.ids.Nodup :=
  List.nodup_range.filter _

/-- What is gathered from all slots comes from the scopes that exist. -/
theorem mem_flatMap_scopes {α : Type} (f : Scope → List α) {x : α} :
    (x ∈ store.scopes.toList.flatMap fun slot =>
      match slot with
      | some scope => f scope
      | none => []) ↔ ∃ u scope, store.scope? u = some scope ∧ x ∈ f scope := by
  rw [List.mem_flatMap]
  constructor
  · rintro ⟨slot, hslot, hx⟩
    cases slot with
    | none => exact absurd hx List.not_mem_nil
    | some scope =>
      obtain ⟨u, hu⟩ := List.mem_iff_getElem?.1 hslot
      refine ⟨u, scope, ?_, hx⟩
      rw [scope?, ← Array.getElem?_toList, hu]
      rfl
  · rintro ⟨u, scope, hu, hx⟩
    have hget : store.scopes[u]? = some (some scope) := Option.join_eq_some_iff.1 hu
    rw [← Array.getElem?_toList] at hget
    exact ⟨some scope, List.mem_of_getElem? hget, hx⟩

/-- The chain of a scope is the scope and the ones around it. -/
theorem chain_eq (h : store.scope? s = some scope) : store.chain s = s :: scope.outer := by
  rw [chain, h]

/-- A scope that does not exist has no chain. -/
theorem chain_eq_nil (h : store.scope? s = none) : store.chain s = [] := by
  rw [chain, h]

/-- Only the chain of a scope that exists has scopes in it. -/
theorem has_of_mem_chain (h : t ∈ store.chain s) : store.Has s := by
  cases hs : store.scope? s with
  | none => rw [chain_eq_nil hs] at h; exact absurd h List.not_mem_nil
  | some scope => exact ⟨scope, hs⟩

/-- A chain starts with the scope itself. -/
theorem eq_of_head?_chain (h : (store.chain s).head? = some t) : s = t := by
  cases hs : store.scope? s with
  | none => rw [chain_eq_nil hs] at h; exact absurd h nofun
  | some scope => rw [chain_eq hs] at h; exact Option.some.inj h

/-- Chains are made of the scopes around a scope, whatever is bound in them. -/
theorem chain_congr {other : Store}
    (h : (store.scope? s).map Scope.outer = (other.scope? s).map Scope.outer) :
    store.chain s = other.chain s := by
  cases hs : store.scope? s with
  | none =>
    rw [hs, Option.map_none] at h
    rw [chain_eq_nil hs, chain_eq_nil (Option.map_eq_none_iff.1 h.symm)]
  | some scope =>
    rw [hs, Option.map_some] at h
    obtain ⟨found, hfound, houter⟩ := Option.map_eq_some_iff.1 h.symm
    rw [chain_eq hs, chain_eq hfound, houter]

/-- A change that leaves the scopes around a scope leaves all chains. -/
theorem chain_update {change : Scope → Scope} (h : ∀ scope, (change scope).outer = scope.outer)
    (store : Store) (s t : ScopeId) : (store.update s change).chain t = store.chain t := by
  refine chain_congr ?_
  rw [scope?_update]
  split
  · rw [Option.map_map]
    exact congrArg (fun f => (store.scope? t).map f) (funext h)
  · rfl

/-- Bindings leave all chains. -/
theorem chain_bind (store : Store) (s : ScopeId) (name : String) (v : Value) (t : ScopeId) :
    (store.bind s name v).chain t = store.chain t :=
  chain_update (Scope.outer_bind · name v) store s t

/-- So does a new scope, for those that exist. -/
theorem chain_push (scope : Scope) (h : store.Has t) :
    (store.push scope).chain t = store.chain t :=
  chain_congr (by rw [scope?_push_of_has scope h])

/-! ### Single bindings -/

/-- A scope that binds a name to something exists. -/
theorem has_of_local? {name : String} {v : Value} (h : store.local? s name = some v) :
    store.Has s := by
  obtain ⟨scope, hscope, -⟩ := Option.bind_eq_some_iff.1 h
  exact ⟨scope, hscope⟩

/-- A scope that binds a name exists. -/
theorem has_of_bindsLocally {name : String} (h : store.bindsLocally s name = true) :
    store.Has s := by
  obtain ⟨v, hv⟩ := Option.isSome_iff_exists.1 h
  exact has_of_local? hv

/-- The scope that is found to bind a name does so. -/
theorem bindsLocally_of_binder? {name : String} (h : store.binder? s name = some t) :
    store.bindsLocally t name = true :=
  List.find?_some (p := fun u => store.bindsLocally u name) h

/-- What a scope binds a name to is up to that scope. -/
theorem local?_congr {other : Store} (h : store.scope? t = other.scope? t) (name : String) :
    store.local? t name = other.local? t name := by
  rw [local?, local?, h]

/-- The name that was just bound stands for the new value. -/
theorem local?_bind_self (h : store.Has s) (name : String) (v : Value) :
    (store.bind s name v).local? s name = some v := by
  obtain ⟨scope, hscope⟩ := h
  rw [local?, scope?_bind, if_pos rfl, hscope]
  exact (Table.get?_insert ..).trans (if_pos rfl)

/-- Other names, and the same name in other scopes, stand for what they did. -/
theorem local?_bind_of_ne {name key : String} (h : t = s → key ≠ name) (v : Value) :
    (store.bind s name v).local? t key = store.local? t key := by
  rw [local?, local?, scope?_bind]
  split
  · next hts =>
    cases store.scope? t with
    | none => rfl
    | some scope => exact (Table.get?_insert ..).trans (if_neg (h hts).symm)
  · rfl

/-- Another value for a name that a scope binds leaves it to the same scopes to bind names. -/
theorem bindsLocally_bind_of_bindsLocally {name : String}
    (h : store.bindsLocally t name = true) (v : Value) (u : ScopeId) (key : String) :
    (store.bind t name v).bindsLocally u key = store.bindsLocally u key := by
  by_cases hkey : u = t ∧ key = name
  · obtain ⟨rfl, rfl⟩ := hkey
    rw [h, bindsLocally, local?_bind_self (has_of_bindsLocally h)]
    rfl
  · rw [bindsLocally, local?_bind_of_ne fun hut hname => hkey ⟨hut, hname⟩, bindsLocally]

/-- The procedures that a name stands for are bound in a scope around. -/
theorem exists_procedure_of_lookup {name : String} {v : Value} {p : Procedure}
    (h : store.lookup s name = some v) (hp : v.procedure? = some p) :
    ∃ t ∈ store.chain s, ∃ scope, store.scope? t = some scope ∧ p ∈ scope.procedures := by
  obtain ⟨t, ht, hlocal⟩ := Option.bind_eq_some_iff.1 h
  obtain ⟨scope, hscope, hget⟩ := Option.bind_eq_some_iff.1 hlocal
  exact ⟨t, List.mem_of_find?_eq_some ht, scope, hscope,
    List.mem_filterMap.2 ⟨v, Table.mem_values_of_get? hget, hp⟩⟩

/-- A scope that does not bind a name has nothing under it. -/
theorem local?_eq_none_of_bindsLocally {name : String} (h : store.bindsLocally s name = false) :
    store.local? s name = none :=
  Option.isNone_iff_eq_none.1 (Option.isSome_eq_false_iff.1 h)

/-- A name stands for nothing just when no scope around binds it. -/
theorem lookup_eq_none_iff : store.lookup s name = none ↔ store.binder? s name = none := by
  cases ht : store.binder? s name with
  | none => simp [lookup, ht]
  | some t =>
    obtain ⟨w, hw⟩ := Option.isSome_iff_exists.1 (bindsLocally_of_binder? ht)
    simp [lookup, ht, hw]

end Store

/-! ### Definitions and assignments -/

namespace Action

variable {name : String} {v : Value} {e : Error} {after : Store}

/-- A definition is refused, and changes nothing, when its scope binds the name. -/
theorem define_eq_error :
    define s name v store = .error e after ↔
      store.bindsLocally s name = true ∧ e = .duplicateDefinition name ∧ after = store := by
  change (if store.bindsLocally s name = true then _ else _ : Action Unit) store = _ ↔ _
  cases store.bindsLocally s name with
  | true => exact ⟨fun h => by cases h; exact ⟨rfl, rfl, rfl⟩, fun ⟨_, he, ha⟩ => he ▸ ha ▸ rfl⟩
  | false => exact ⟨nofun, nofun⟩

/-- Otherwise it binds the name in its scope. -/
theorem define_eq_ok :
    define s name v store = .ok () after ↔
      store.bindsLocally s name = false ∧ after = store.bind s name v := by
  change (if store.bindsLocally s name = true then _ else _ : Action Unit) store = _ ↔ _
  cases store.bindsLocally s name with
  | true => exact ⟨nofun, nofun⟩
  | false => exact ⟨fun h => by cases h; exact ⟨rfl, rfl⟩, fun ⟨_, ha⟩ => ha ▸ rfl⟩

/-- Reading the store. -/
theorem get_bind_apply {α : Type} (f : Store → Action α) : (get >>= f) store = f store store :=
  rfl

/-- An assignment is refused, and changes nothing, when the name is not found. -/
theorem assign_eq_error :
    assign s name v store = .error e after ↔
      store.lookup s name = none ∧ e = .undefinedVariable name ∧ after = store := by
  rw [Store.lookup_eq_none_iff, assign, get_bind_apply]
  cases store.binder? s name with
  | none =>
    constructor
    · intro h
      cases h
      exact ⟨rfl, rfl, rfl⟩
    · rintro ⟨-, rfl, rfl⟩
      rfl
  | some t =>
    constructor
    · intro h
      cases h
    · rintro ⟨h, -⟩
      cases h

/-- Otherwise it binds the name where it is found. -/
theorem assign_eq_ok :
    assign s name v store = .ok () after ↔
      ∃ t, store.binder? s name = some t ∧ after = store.bind t name v := by
  rw [assign, get_bind_apply]
  cases store.binder? s name with
  | none =>
    constructor
    · intro h
      cases h
    · rintro ⟨t, h, -⟩
      cases h
  | some t =>
    constructor
    · intro h
      cases h
      exact ⟨t, rfl, rfl⟩
    · rintro ⟨u, hu, rfl⟩
      rw [Option.some.inj hu]
      rfl

end Action
end StrictScheme
