/-
# Stores that correspond

Two stores correspond on a region when each scope of the region is, in the second
store, what it is in the first one, under a renaming; what stands outside the region
is left open.  The region is closed under references, and it holds every number that
is still to be given out, so it stays the same while a program runs.

Looking up a name gives the same value in both (`Corresponds.lookup`), and each way
to change a store keeps the correspondence: binding a name (`Corresponds.bind`),
making a scope (`Corresponds.newScope`) and making a procedure
(`Corresponds.newProcedure`).
-/

import Mathlib.Data.List.Basic
import Mathlib.Data.List.Find
import StrictScheme.Inspect
import StrictScheme.Proofs.Eval.Renaming
import StrictScheme.Proofs.Lockstep
import StrictScheme.Proofs.Store.Registry

namespace StrictScheme

/-- Some scopes and some serial numbers of procedures. -/
@[ext]
structure Region where
  scopes : Set ScopeId
  procedures : Set ProcedureId
  /-- Whether serial numbers are in use only once they were given out. -/
  numbered : Prop

/-- A serial number can be in use in a region. -/
def Region.Admits (region : Region) (store : Store) (id : ProcedureId) : Prop :=
  id ∈ region.procedures ∧ (region.numbered → id < store.nextProcedure)

/-- A value can be used in a region: if it is a user procedure, its scope is one of the region
that exists. -/
def Value.IsIn (v : Value) (region : Region) (store : Store) : Prop :=
  ∀ p, v.procedure? = some p →
    p.scope ∈ region.scopes ∧ store.Has p.scope ∧ region.Admits store p.id

/-- A value without a reference can be used everywhere. -/
theorem Value.isIn_of_procedure?_eq_none {v : Value} {region : Region} {store : Store}
    (h : v.procedure? = none) : v.IsIn region store := by
  intro p hp
  rw [h] at hp
  cases hp

namespace Store

/-- What a program may do to a store: it takes no scope out, and it touches nothing outside the
region. -/
structure Extends (region : Region) (before after : Store) : Prop where
  has : ∀ {s}, before.Has s → after.Has s
  outside : ∀ {s}, s ∉ region.scopes → after.scope? s = before.scope? s
  nextScope : before.nextScope ≤ after.nextScope
  nextProcedure : before.nextProcedure ≤ after.nextProcedure
  registered : before.Registered → after.Registered

/-- The second store is, on a region, the first one under a renaming. -/
structure Corresponds (r : Renaming) (region : Region) (a b : Store) : Prop where
  scope? : ∀ {s}, s ∈ region.scopes → b.scope? (r.scope s) = (a.scope? s).map (Scope.rename r)
  closed : a.ClosedOn region.scopes
  serial : ∀ {s scope p}, s ∈ region.scopes → a.scope? s = some scope → p ∈ scope.procedures →
    region.Admits a p.id
  injScope : Set.InjOn r.scope region.scopes
  injProcedure : Set.InjOn r.procedure region.procedures
  freshScope : ∀ k, a.nextScope + k ∈ region.scopes ∧
    r.scope (a.nextScope + k) = b.nextScope + k
  freshProcedure : ∀ k, a.nextProcedure + k ∈ region.procedures ∧
    r.procedure (a.nextProcedure + k) = b.nextProcedure + k

/-- Stores that correspond, and what a program may do to the first one. -/
def correspondence (r : Renaming) (region : Region) : Coupling Store Store where
  Related := Corresponds r region
  Allowed := Extends region
  refl _ := ⟨fun h => h, fun _ => rfl, Nat.le_refl _, Nat.le_refl _, id⟩
  trans h h' := ⟨fun hs => h'.has (h.has hs), fun hs => (h'.outside hs).trans (h.outside hs),
    h.nextScope.trans h'.nextScope, h.nextProcedure.trans h'.nextProcedure,
    h'.registered ∘ h.registered⟩

variable {r : Renaming} {region : Region} {a b : Store} {s t : ScopeId} {name : String}
  {v : Value}

/-- A serial number that can be in use still can when a program has run. -/
theorem Extends.admits {id : ProcedureId} (hle : a.Extends region b) (h : region.Admits a id) :
    region.Admits b id :=
  ⟨h.1, fun hnumbered => (h.2 hnumbered).trans_le hle.nextProcedure⟩

/-- Whatever a program does, the values at hand can still be used. -/
theorem Extends.isIn (hle : a.Extends region b) (h : v.IsIn region a) : v.IsIn region b :=
  fun p hp => ⟨(h p hp).1, hle.has (h p hp).2.1, hle.admits (h p hp).2.2⟩

/-- A binding in the region is something that a program may do. -/
theorem extends_bind (hs : s ∈ region.scopes) (name : String) (v : Value) :
    a.Extends region (a.bind s name v) where
  has := (has_update ..).2
  outside := by
    intro t ht
    rw [scope?_bind, if_neg (ne_of_mem_of_not_mem hs ht).symm]
  nextScope := (nextScope_bind ..).ge
  nextProcedure := Nat.le_refl _
  registered h := h.bind s name v

/-- So is a new scope. -/
theorem extends_newScope (hnext : a.nextScope ∈ region.scopes) (parent : Option ScopeId)
    (bindings : Table Value) : a.Extends region (a.newScope parent bindings).2 where
  has := has_push _
  outside := by
    intro t ht
    exact (scope?_push ..).trans (if_neg (ne_of_mem_of_not_mem hnext ht).symm)
  nextScope := (nextScope_push ..).ge.trans' (Nat.le_succ _)
  nextProcedure := Nat.le_refl _
  registered h := h.newScope parent bindings

/-- So is a new procedure. -/
theorem extends_newProcedure (region : Region) (a : Store) (name : String) (params : List String)
    (body : SExpr) (s : ScopeId) : a.Extends region (a.newProcedure name params body s).2 where
  has h := h
  outside _ := rfl
  nextScope := Nat.le_refl _
  nextProcedure := Nat.le_succ _
  registered h := h.newProcedure name params body s

namespace Corresponds

/-! ### Looking names up -/

/-- Under the renaming that changes nothing, the scopes of the region are the same. -/
theorem scope?_same (h : Corresponds .same region a b) (hs : s ∈ region.scopes) :
    b.scope? s = a.scope? s := by
  have hrename : Scope.rename .same = id := funext Scope.rename_same
  have hscope := h.scope? hs
  rwa [hrename, Option.map_id_apply] at hscope

/-- The chain of a scope of the region, under other numbers. -/
theorem chain (h : Corresponds r region a b) (hs : s ∈ region.scopes) :
    b.chain (r.scope s) = (a.chain s).map r.scope := by
  cases hscope : a.scope? s with
  | none => rw [chain_eq_nil hscope, chain_eq_nil (by rw [h.scope? hs, hscope]; rfl), List.map_nil]
  | some scope =>
    rw [chain_eq hscope, chain_eq (by rw [h.scope? hs, hscope]; rfl), Scope.outer_rename,
      List.map_cons]

/-- What encloses a new scope of the region, under other numbers. -/
theorem enclosing (h : Corresponds r region a b) {parent : Option ScopeId}
    (hparent : ∀ p ∈ parent, p ∈ region.scopes) :
    b.enclosing (parent.map r.scope) = (a.enclosing parent).map r.scope := by
  cases parent with
  | none => rfl
  | some p => exact h.chain (hparent p rfl)

/-- What a scope of the region binds a name to, under other numbers. -/
theorem local? (h : Corresponds r region a b) (hs : s ∈ region.scopes) (name : String) :
    b.local? (r.scope s) name = (a.local? s name).map (Value.rename r) := by
  rw [Store.local?, Store.local?, h.scope? hs]
  cases a.scope? s with
  | none => rfl
  | some scope => exact Scope.get?_rename ..

/-- A scope of the region binds a name in both stores or in none. -/
theorem bindsLocally (h : Corresponds r region a b) (hs : s ∈ region.scopes) (name : String) :
    b.bindsLocally (r.scope s) name = a.bindsLocally s name := by
  rw [Store.bindsLocally, Store.bindsLocally, h.local? hs, Option.isSome_map]

/-- The scope that binds a name, under other numbers. -/
theorem binder? (h : Corresponds r region a b) (hs : s ∈ region.scopes) (name : String) :
    b.binder? (r.scope s) name = (a.binder? s name).map r.scope := by
  rw [Store.binder?, Store.binder?, h.chain hs, List.find?_map]
  congr 1
  refine List.find?_congr fun t ht => ?_
  exact h.bindsLocally (h.closed.chain_mem hs ht).1 name

/-- That scope is one of the region, and it exists. -/
theorem binder?_mem (h : Corresponds r region a b) (hs : s ∈ region.scopes)
    (ht : a.binder? s name = some t) : t ∈ region.scopes ∧ a.Has t :=
  h.closed.chain_mem hs (List.mem_of_find?_eq_some ht)

/-- What a scope of the region binds can be used there. -/
theorem isIn_of_local? (h : Corresponds r region a b) (hs : s ∈ region.scopes)
    (hv : a.local? s name = some v) : v.IsIn region a := by
  intro p hp
  obtain ⟨scope, hscope, hget⟩ := Option.bind_eq_some_iff.1 hv
  have hmem : p ∈ scope.procedures :=
    List.mem_filterMap.2 ⟨v, Table.mem_values_of_get? hget, hp⟩
  obtain ⟨hregion, hhas⟩ := h.closed.references hs hscope
    (Scope.mem_references.2 (.inr ⟨p, hmem, rfl⟩))
  exact ⟨hregion, hhas, h.serial hs hscope hmem⟩

/-- **A name has the same value in both stores.** -/
theorem lookup (h : Corresponds r region a b) (hs : s ∈ region.scopes) (name : String) :
    b.lookup (r.scope s) name = (a.lookup s name).map (Value.rename r) := by
  rw [Store.lookup, Store.lookup, h.binder? hs]
  cases ht : a.binder? s name with
  | none => rfl
  | some t => exact h.local? (h.binder?_mem hs ht).1 name

/-- What a name stands for in the region can be used there. -/
theorem isIn_of_lookup (h : Corresponds r region a b) (hs : s ∈ region.scopes)
    (hv : a.lookup s name = some v) : v.IsIn region a := by
  obtain ⟨t, ht, hlocal⟩ := Option.bind_eq_some_iff.1 hv
  exact h.isIn_of_local? (h.binder?_mem hs ht).1 hlocal

/-! ### What a host is shown -/

/-- The parent of a scope of the region, under other numbers. -/
theorem parent? (h : Corresponds r region a b) (hs : s ∈ region.scopes) :
    (b.scope? (r.scope s)).bind Scope.parent? =
      ((a.scope? s).bind Scope.parent?).map r.scope := by
  rw [h.scope? hs]
  cases a.scope? s with
  | none => rfl
  | some scope => simp [Scope.parent?, Scope.rename]

/-- The parent of a scope of the region is one. -/
theorem parent?_mem (h : Corresponds r region a b) (hs : s ∈ region.scopes)
    (ht : (a.scope? s).bind Scope.parent? = some t) : t ∈ region.scopes ∧ a.Has t := by
  obtain ⟨scope, hscope, hparent⟩ := Option.bind_eq_some_iff.1 ht
  exact h.closed.references hs hscope (Scope.mem_references.2 (.inl hparent))

/-- Corresponding scopes bind the same names. -/
theorem namesIn (h : Corresponds r region a b) {listed : List ScopeId}
    (hlisted : ∀ t ∈ listed, t ∈ region.scopes) :
    b.namesIn (listed.map r.scope) = a.namesIn listed := by
  rw [Store.namesIn, Store.namesIn, List.flatMap_map]
  congr 1
  refine List.flatMap_congr fun t ht => ?_
  rw [h.scope? (hlisted t ht)]
  cases a.scope? t with
  | none => rfl
  | some scope => exact Table.names_map ..

/-- **A listing shows the same in both stores.** -/
theorem listing (h : Corresponds r region a b) (hs : s ∈ region.scopes) :
    b.listing (r.scope s) = a.listing s := by
  rw [Store.listing, Store.listing, h.chain hs,
    h.namesIn fun t ht => (h.closed.chain_mem hs ht).1]
  refine List.filterMap_congr fun name _ => ?_
  rw [h.lookup hs]
  cases a.lookup s name with
  | none => rfl
  | some v => simp [Binding.ofValue]

/-- The structural form of a scope is the same in both stores. -/
theorem inspect (h : Corresponds r region a b) (hs : s ∈ region.scopes) :
    b.inspect (r.scope s) = a.inspect s := by
  rw [Store.inspect, Store.inspect, h.chain hs, List.map_map]
  congr 1
  refine List.map_congr_left fun t ht => ?_
  exact h.namesIn fun u hu =>
    List.mem_singleton.1 hu ▸ (h.closed.chain_mem hs ht).1

/-! ### Changing a store -/

/-- **Binding a name in both stores.** -/
theorem bind (h : Corresponds r region a b) (hs : s ∈ region.scopes) (name : String)
    (hv : v.IsIn region a) :
    Corresponds r region (a.bind s name v) (b.bind (r.scope s) name (v.rename r)) where
  scope? := by
    intro t ht
    rw [scope?_bind, scope?_bind, h.scope? ht]
    by_cases hts : t = s
    · subst hts
      rw [if_pos rfl, if_pos rfl, Option.map_map, Option.map_map]
      exact congrArg (fun f => (a.scope? t).map f)
        (funext fun scope => (Scope.rename_bind scope name v).symm)
    · rw [if_neg hts, if_neg fun hr => hts (h.injScope ht hs hr)]
  closed := by
    constructor
    · intro t scope ht hscope
      have hchain (p : Option ScopeId) : (a.bind s name v).enclosing p = a.enclosing p := by
        cases p with
        | none => rfl
        | some p => exact chain_update (Scope.outer_bind · name v) a s p
      rw [scope?_bind] at hscope
      split at hscope
      · obtain ⟨found, hfound, rfl⟩ := Option.map_eq_some_iff.1 hscope
        rw [Scope.outer_bind, Scope.parent?_bind, hchain, h.closed.outer ht hfound]
      · rw [hchain, h.closed.outer ht hscope]
    · intro t scope u ht hscope hu
      suffices u ∈ region.scopes ∧ a.Has u from ⟨this.1, (has_update ..).2 this.2⟩
      rw [scope?_bind] at hscope
      split at hscope
      · obtain ⟨found, hfound, rfl⟩ := Option.map_eq_some_iff.1 hscope
        rcases Scope.mem_references.1 hu with hp | ⟨p, hp, rfl⟩
        · exact h.closed.references ht hfound (Scope.mem_references.2 (.inl hp))
        · rcases Scope.mem_procedures_bind hp with rfl | hp
          · exact ⟨(hv p rfl).1, (hv p rfl).2.1⟩
          · exact h.closed.references ht hfound (Scope.mem_references.2 (.inr ⟨p, hp, rfl⟩))
      · exact h.closed.references ht hscope hu
  serial := by
    intro t scope p ht hscope hp
    rw [scope?_bind] at hscope
    split at hscope
    · obtain ⟨found, hfound, rfl⟩ := Option.map_eq_some_iff.1 hscope
      rcases Scope.mem_procedures_bind hp with rfl | hp
      · exact (hv p rfl).2.2
      · exact h.serial ht hfound hp
    · exact h.serial ht hscope hp
  injScope := h.injScope
  injProcedure := h.injProcedure
  freshScope := by simpa using h.freshScope
  freshProcedure := h.freshProcedure

/-- **Making a scope in both stores.** -/
theorem newScope (h : Corresponds r region a b) {parent : Option ScopeId}
    (hparent : ∀ p ∈ parent, p ∈ region.scopes ∧ a.Has p) {bindings : Table Value}
    (hbindings : ∀ v ∈ bindings.values, v.IsIn region a) :
    Corresponds r region (a.newScope parent bindings).2
      (b.newScope (parent.map r.scope) (bindings.map (Value.rename r))).2 := by
  obtain ⟨hnext, hrnext⟩ := h.freshScope 0
  rw [Nat.add_zero, Nat.add_zero] at hrnext
  rw [Nat.add_zero] at hnext
  have hchain {p : Option ScopeId} (hp : ∀ q ∈ p, a.Has q) (scope : Scope) :
      (a.push scope).enclosing p = a.enclosing p := by
    cases p with
    | none => rfl
    | some p => exact chain_push scope (hp p rfl)
  -- the parent of the new scope is the first of its chain, which exists
  have hhead : (a.enclosing parent).head? = parent := by
    cases parent with
    | none => rfl
    | some p =>
      obtain ⟨-, scope, hscope⟩ := hparent p rfl
      rw [enclosing_some, chain_eq hscope, List.head?_cons]
  constructor
  · intro t ht
    simp only [Store.newScope]
    rw [scope?_push, scope?_push]
    by_cases hts : t = a.nextScope
    · subst hts
      rw [if_pos rfl, if_pos hrnext, Option.map_some, Scope.rename,
        h.enclosing fun p hp => (hparent p hp).1]
    · rw [if_neg hts, if_neg fun hr => hts (h.injScope ht hnext (hr.trans hrnext.symm)),
        h.scope? ht]
  · constructor
    · intro t scope ht hscope
      simp only [Store.newScope] at hscope ⊢
      rw [scope?_push] at hscope
      split at hscope
      · obtain rfl := Option.some.inj hscope
        rw [Scope.parent?, hhead, hchain fun p hp => (hparent p hp).2]
      · rw [h.closed.outer ht hscope, hchain]
        intro p hp
        exact (h.closed.references ht hscope (Scope.mem_references.2 (.inl hp))).2
    · intro t scope u ht hscope hu
      suffices u ∈ region.scopes ∧ a.Has u from ⟨this.1, has_push _ this.2⟩
      simp only [Store.newScope] at hscope
      rw [scope?_push] at hscope
      split at hscope
      · obtain rfl := Option.some.inj hscope
        rcases Scope.mem_references.1 hu with hp | ⟨p, hp, rfl⟩
        · exact hparent u (hhead.symm.trans hp)
        · obtain ⟨hregion, hhas, -⟩ := hbindings _ (Scope.mem_procedures.1 hp) p rfl
          exact ⟨hregion, hhas⟩
      · exact h.closed.references ht hscope hu
  · intro t scope p ht hscope hp
    simp only [Store.newScope] at hscope
    rw [scope?_push] at hscope
    split at hscope
    · obtain rfl := Option.some.inj hscope
      exact (hbindings _ (Scope.mem_procedures.1 hp) p rfl).2.2
    · exact h.serial ht hscope hp
  · exact h.injScope
  · exact h.injProcedure
  · intro k
    simp only [Store.newScope]
    rw [nextScope_push, nextScope_push, Nat.add_assoc, Nat.add_assoc]
    exact h.freshScope (1 + k)
  · exact h.freshProcedure

/-- **Making a procedure in both stores.** -/
theorem newProcedure (h : Corresponds r region a b) (name : String) (params : List String)
    (body : SExpr) (s : ScopeId) :
    Corresponds r region (a.newProcedure name params body s).2
      (b.newProcedure name params body (r.scope s)).2 where
  scope? := h.scope?
  closed := ⟨h.closed.outer, h.closed.references⟩
  serial hs hscope hp :=
    (extends_newProcedure region a name params body s).admits (h.serial hs hscope hp)
  injScope := h.injScope
  injProcedure := h.injProcedure
  freshScope := h.freshScope
  freshProcedure k := by
    rw [nextProcedure_newProcedure, nextProcedure_newProcedure, Nat.add_assoc, Nat.add_assoc]
    exact h.freshProcedure (1 + k)

/-- A procedure made in both stores is the same under the renaming. -/
theorem newProcedure_rename (h : Corresponds r region a b) (name : String) (params : List String)
    (body : SExpr) (s : ScopeId) :
    (b.newProcedure name params body (r.scope s)).1 =
      (a.newProcedure name params body s).1.rename r := by
  have hnext := (h.freshProcedure 0).2
  rw [Nat.add_zero, Nat.add_zero] at hnext
  simp only [Store.newProcedure, Procedure.rename, hnext]

/-- A procedure made in the region can be used there. -/
theorem newProcedure_isIn (h : Corresponds r region a b) (name : String) (params : List String)
    (body : SExpr) (hs : s ∈ region.scopes) (ha : a.Has s) :
    (Value.procedure (a.newProcedure name params body s).1).IsIn region
      (a.newProcedure name params body s).2 := by
  intro p hp
  obtain rfl := Option.some.inj hp
  exact ⟨hs, ha, (h.freshProcedure 0).1, fun _ => Nat.lt_succ_self _⟩

end Corresponds
end Store
end StrictScheme
