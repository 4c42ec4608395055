/-
# Stores that are divided

A region divides a store when no reference leads across its border, in either
direction, and when the serial numbers of the procedures bound inside are those of the
region and of those bound outside are others (`Store.Divided`).  Then what is settled,
emptied or released on one side has nothing to do with the other side.

Take two stores that correspond on such a region, and referrers from outside that
agree there.  Each way to take scopes out leaves stores that correspond again
(`Corresponds.settle`, `Corresponds.emptyAll_settle`), and a release empties equally many
scopes in both (`Corresponds.release`).  As long as the scopes outside hold themselves
up, they stay as they are (`Store.Reclaimed`).
-/

import StrictScheme.Proofs.Store.Keep

namespace StrictScheme

variable {r : Renaming} {region : Region} {a b : Store} {s t : ScopeId} {scope : Scope}
  {roots roots' outer starts starts' listed : List ScopeId} {held held' : List Referent}

/-! ### Regions -/

namespace Region

/-- What is not in a region. -/
def compl (region : Region) : Region :=
  ⟨region.scopesᶜ, region.proceduresᶜ, region.numbered⟩

/-- A region under other numbers. -/
def image (r : Renaming) (region : Region) : Region :=
  ⟨r.scope '' region.scopes, r.procedure '' region.procedures, region.numbered⟩

/-- What is not outside a region is in it. -/
@[simp] theorem compl_compl (region : Region) : region.compl.compl = region := by
  simp [compl]

/-- Keeping all numbers leaves a region. -/
@[simp] theorem image_same (region : Region) : region.image .same = region :=
  Region.ext (Set.image_id' _) (Set.image_id' _) rfl

end Region

/-- The procedures of a scope, under other numbers. -/
theorem Scope.procedures_rename (scope : Scope) :
    (scope.rename r).procedures = scope.procedures.map (Procedure.rename r) := by
  have hprocedure (v : Value) :
      (v.rename r).procedure? = v.procedure?.map (Procedure.rename r) := by
    cases v <;> rfl
  simp only [procedures, rename, Table.values_map, List.filterMap_map, List.map_filterMap,
    Function.comp_def, hprocedure]

/-- What a scope refers to, under other numbers. -/
theorem Scope.references_rename (scope : Scope) :
    (scope.rename r).references = scope.references.map r.scope := by
  have hparent : (scope.rename r).parent? = scope.parent?.map r.scope := by
    simp [parent?, rename]
  rw [references, references, hparent, procedures_rename, List.map_append, List.map_map,
    List.map_map]
  congr 1
  cases scope.parent? <;> rfl

namespace Store

/-! ### Borders that no reference crosses -/

/-- No reference leads across the border of a region, and the procedures inside have the serial
numbers of the region, all of which were given out. -/
structure Divided (store : Store) (region : Region) : Prop where
  sound : store.Sound
  registered : store.Registered
  references : ∀ {s scope t}, store.scope? s = some scope → t ∈ scope.references →
    (t ∈ region.scopes ↔ s ∈ region.scopes)
  serials : ∀ {s scope p}, store.scope? s = some scope → p ∈ scope.procedures →
    (p.id ∈ region.procedures ↔ s ∈ region.scopes) ∧ p.id < store.nextProcedure

namespace Divided

/-- What divides a store divides it from the other side, too. -/
theorem compl (h : a.Divided region) : a.Divided region.compl where
  sound := h.sound
  registered := h.registered
  references hs ht := not_congr (h.references hs ht)
  serials hs hp := ⟨not_congr (h.serials hs hp).1, (h.serials hs hp).2⟩

/-- The inside is closed under references. -/
theorem closedOn (h : a.Divided region) : a.ClosedOn region.scopes where
  outer _ hscope := h.sound.outer hscope
  references hs hscope ht :=
    ⟨(h.references hscope ht).2 hs, h.sound.has_of_mem_references hscope ht⟩

/-- The procedures bound inside have serial numbers of the region. -/
theorem admits {p : Procedure} (h : a.Divided region) (hs : s ∈ region.scopes)
    (hscope : a.scope? s = some scope) (hp : p ∈ scope.procedures) : region.Admits a p.id :=
  ⟨(h.serials hscope hp).1.2 hs, fun _ => (h.serials hscope hp).2⟩

/-- The root of a scope inside is inside. -/
theorem rootOf_mem (h : a.Divided region) (hs : s ∈ region.scopes) :
    a.rootOf s ∈ region.scopes := by
  cases hlast : (a.chain s).getLast? with
  | none => rwa [rootOf, hlast]
  | some t =>
    rw [rootOf, hlast]
    exact (h.closedOn.chain_mem hs (List.mem_of_getLast? hlast)).1

/-- **A tree lies on one side of the border.** -/
theorem rootOf_mem_iff (h : a.Divided region) : a.rootOf s ∈ region.scopes ↔ s ∈ region.scopes :=
  ⟨fun hroot => by_contra fun hs => h.compl.rootOf_mem hs hroot, h.rootOf_mem⟩

/-- Taking scopes out and emptying them opens no way across the border. -/
theorem of_sub (h : a.Divided region) (hsound : b.Sound) (hregistered : b.Registered)
    (hsub : ∀ {s scope}, b.scope? s = some scope →
      ∃ found, a.scope? s = some found ∧ (scope = found ∨ scope = found.emptied))
    (hnext : b.nextProcedure = a.nextProcedure) : b.Divided region where
  sound := hsound
  registered := hregistered
  references hs ht := by
    obtain ⟨found, hfound, rfl | rfl⟩ := hsub hs
    · exact h.references hfound ht
    · rw [Scope.references_emptied, Option.mem_toList] at ht
      exact h.references hfound (Scope.mem_references.2 (.inl ht))
  serials hs hp := by
    obtain ⟨found, hfound, rfl | rfl⟩ := hsub hs
    · rw [hnext]
      exact h.serials hfound hp
    · exact absurd hp List.not_mem_nil

/-- Settling opens no way across the border. -/
theorem settle (h : a.Divided region) (roots : List ScopeId) : (a.settle roots).Divided region :=
  h.of_sub (h.sound.settle roots) (h.registered.settle roots)
    (fun hs => ⟨_, scope?_of_settle hs, .inl rfl⟩) (nextProcedure_settle ..)

/-- Nor does emptying scopes. -/
theorem emptyAll (h : a.Divided region) (listed : List ScopeId) :
    (a.emptyAll listed).Divided region :=
  h.of_sub (h.sound.emptyAll listed) (h.registered.emptyAll listed) eq_or_emptied_of_emptyAll
    (nextProcedure_emptyAll ..)

/-- Nor does dropping dead entries from a registry. -/
theorem retain (h : a.Divided region) (s : ScopeId) : (a.retain s).Divided region :=
  h.of_sub (h.sound.retain s) (h.registered.retain s)
    (fun ht => ⟨_, (scope?_retain ..).symm.trans ht, .inl rfl⟩) (nextProcedure_retain ..)

/-- **A program that works in the region opens no way across the border.** -/
theorem extend {other : Store} (h : a.Divided region) (hle : a.Extends region b)
    (hb : Corresponds r region b other) (hnumbered : region.numbered) : b.Divided region where
  registered := hle.registered h.registered
  sound := by
    constructor
    · intro s scope _ hscope
      by_cases hs : s ∈ region.scopes
      · exact hb.closed.outer hs hscope
      · rw [hle.outside hs] at hscope
        rw [h.sound.outer hscope]
        cases hp : scope.parent? with
        | none => rfl
        | some p =>
          have hout := mt (h.references hscope (Scope.mem_references.2 (.inl hp))).1 hs
          exact chain_congr (by rw [hle.outside hout])
    · intro s scope t _ hscope ht
      refine ⟨Set.mem_univ t, ?_⟩
      by_cases hs : s ∈ region.scopes
      · exact (hb.closed.references hs hscope ht).2
      · rw [hle.outside hs] at hscope
        exact hle.has (h.sound.has_of_mem_references hscope ht)
  references := by
    intro s scope t hscope ht
    by_cases hs : s ∈ region.scopes
    · exact iff_of_true (hb.closed.references hs hscope ht).1 hs
    · rw [hle.outside hs] at hscope
      exact h.references hscope ht
  serials := by
    intro s scope p hscope hp
    by_cases hs : s ∈ region.scopes
    · obtain ⟨hmem, hlt⟩ := hb.serial hs hscope hp
      exact ⟨iff_of_true hmem hs, hlt hnumbered⟩
    · rw [hle.outside hs] at hscope
      obtain ⟨hiff, hlt⟩ := h.serials hscope hp
      exact ⟨hiff, hlt.trans_le hle.nextProcedure⟩

end Divided

/-! ### Two stores that are divided alike -/

/-- The same scopes of the region are listed in both stores. -/
def Agree (r : Renaming) (region : Region) (listed listed' : List ScopeId) : Prop :=
  ∀ s ∈ region.scopes, r.scope s ∈ listed' ↔ s ∈ listed

/-- Lists that agree piece by piece agree. -/
theorem Agree.append (h : Agree r region roots roots') (h' : Agree r region starts starts') :
    Agree r region (roots ++ starts) (roots' ++ starts') := by
  intro s hs
  rw [List.mem_append, List.mem_append, h s hs, h' s hs]

/-- Lists in the region agree if one is the other under the renaming. -/
theorem agree_map (hinj : Set.InjOn r.scope region.scopes)
    (hlisted : ∀ s ∈ listed, s ∈ region.scopes) :
    Agree r region listed (listed.map r.scope) := by
  intro s hs
  constructor
  · intro h
    obtain ⟨t, ht, hts⟩ := List.mem_map.1 h
    rwa [← hinj (hlisted t ht) hs hts]
  · exact List.mem_map_of_mem

namespace Corresponds

/-- A scope of the region exists in both stores or in none. -/
theorem has_iff (h : Corresponds r region a b) (hs : s ∈ region.scopes) :
    b.Has (r.scope s) ↔ a.Has s := by
  rw [Has, Has, h.scope? hs]
  cases a.scope? s <;> simp

/-- Numbers that were given out stand for numbers that were given out. -/
theorem scope_lt (h : Corresponds r region a b) (hs : s ∈ region.scopes)
    (hlt : s < a.nextScope) : r.scope s < b.nextScope := by
  by_contra hge
  obtain ⟨k, hk⟩ := Nat.exists_eq_add_of_le (Nat.le_of_not_lt hge)
  obtain ⟨hmem, hfresh⟩ := h.freshScope k
  rw [h.injScope hs hmem (hk.trans hfresh.symm)] at hlt
  exact Nat.not_lt.2 (Nat.le_add_right ..) hlt

/-- A serial number of the region was given out in both stores. -/
theorem procedure_lt {id : ProcedureId} (h : Corresponds r region a b)
    (hid : id ∈ region.procedures) (hlt : id < a.nextProcedure) :
    r.procedure id < b.nextProcedure := by
  by_contra hge
  obtain ⟨k, hk⟩ := Nat.exists_eq_add_of_le (Nat.le_of_not_lt hge)
  obtain ⟨hmem, hfresh⟩ := h.freshProcedure k
  rw [h.injProcedure hid hmem (hk.trans hfresh.symm)] at hlt
  exact Nat.not_lt.2 (Nat.le_add_right ..) hlt

/-- A value that can be used in the region can be used in its image. -/
theorem isIn_rename {v : Value} (h : Corresponds r region a b) (hv : v.IsIn region a) :
    (v.rename r).IsIn (region.image r) b := by
  cases v with
  | procedure p =>
    rintro _ ⟨rfl⟩
    obtain ⟨hmem, hhas, hid, hlt⟩ := hv p rfl
    exact ⟨Set.mem_image_of_mem _ hmem, (h.has_iff hmem).2 hhas, Set.mem_image_of_mem _ hid,
      fun hnumbered => h.procedure_lt hid (hlt hnumbered)⟩
  | number | boolean | builtin => exact Value.isIn_of_procedure?_eq_none rfl

/-- What refers to a scope of the region in the second store does so in the first one. -/
theorem referrer (h : Corresponds r region a b) (hb : b.Divided (region.image r)) {u : ScopeId}
    (hu : b.scope? u = some scope) (hs : s ∈ region.scopes) (ht : r.scope s ∈ scope.references) :
    ∃ w ∈ region.scopes, r.scope w = u ∧
      ∃ found, a.scope? w = some found ∧ s ∈ found.references := by
  obtain ⟨w, hw, rfl⟩ := (hb.references hu ht).1 (Set.mem_image_of_mem _ hs)
  rw [h.scope? hw] at hu
  obtain ⟨found, hfound, rfl⟩ := Option.map_eq_some_iff.1 hu
  rw [Scope.references_rename] at ht
  obtain ⟨t, ht, hts⟩ := List.mem_map.1 ht
  obtain ⟨htmem, -⟩ := h.closed.references hw hfound ht
  exact ⟨w, hw, rfl, found, hfound, h.injScope htmem hs hts ▸ ht⟩

/-- What a scope of the region refers to in the first store is referred to in the second. -/
theorem mem_references (h : Corresponds r region a b) (hs : s ∈ region.scopes)
    (hscope : a.scope? s = some scope) (ht : t ∈ scope.references) :
    ∃ found, b.scope? (r.scope s) = some found ∧ r.scope t ∈ found.references := by
  refine ⟨scope.rename r, by rw [h.scope? hs, hscope]; rfl, ?_⟩
  rw [Scope.references_rename]
  exact List.mem_map_of_mem ht

/-! ### Settling both stores -/

/-- What holds itself up in the first store does so, inside the region, in the second one. -/
theorem holdsUp_image (h : Corresponds r region a b) (ha : a.Divided region)
    (hroots : Agree r region roots roots') {kept : Set ScopeId} (hkept : a.HoldsUp roots kept) :
    b.HoldsUp roots' (r.scope '' (kept ∩ region.scopes)) := by
  rintro _ ⟨s, ⟨hs, hregion⟩, rfl⟩
  obtain ⟨hhas, href⟩ := hkept s hs
  refine ⟨(h.has_iff hregion).2 hhas, href.imp (hroots s hregion).2 ?_⟩
  rintro ⟨u, hu, scope, hscope, hs⟩
  have huregion := (ha.references hscope hs).1 hregion
  obtain ⟨found, hfound, hmem⟩ := h.mem_references huregion hscope hs
  exact ⟨r.scope u, ⟨u, ⟨hu, huregion⟩, rfl⟩, found, hfound, hmem⟩

/-- What holds itself up in the second store does so, inside the region, in the first one. -/
theorem holdsUp_preimage (h : Corresponds r region a b) (hb : b.Divided (region.image r))
    (hroots : Agree r region roots roots') {kept : Set ScopeId} (hkept : b.HoldsUp roots' kept) :
    a.HoldsUp roots {s | s ∈ region.scopes ∧ r.scope s ∈ kept} := by
  rintro s ⟨hregion, hs⟩
  obtain ⟨hhas, href⟩ := hkept _ hs
  refine ⟨(h.has_iff hregion).1 hhas, href.imp (hroots s hregion).1 ?_⟩
  rintro ⟨u, hu, scope, hscope, hmem⟩
  obtain ⟨w, hw, rfl, found, hfound, hmem⟩ := h.referrer hb hscope hregion hmem
  exact ⟨w, ⟨hw, hu⟩, found, hfound, hmem⟩

/-- **Settling both stores.** -/
theorem settle (h : Corresponds r region a b) (ha : a.Divided region)
    (hb : b.Divided (region.image r)) (hroots : Agree r region roots roots') :
    Corresponds r region (a.settle roots) (b.settle roots') where
  scope? := by
    intro s hs
    -- Settling keeps the largest set that holds itself up.  Of such a set the part in the region
    -- holds itself up in the other store too, so what one store keeps the other keeps as well.
    cases hleft : (a.settle roots).scope? s with
    | some scope =>
      have hkept := h.holdsUp_image ha hroots (holdsUp_of_settle roots a)
      rw [scope?_settle_of_holdsUp hkept ⟨s, ⟨⟨scope, hleft⟩, hs⟩, rfl⟩, h.scope? hs,
        scope?_of_settle hleft]
    | none =>
      refine Option.eq_none_iff_forall_ne_some.2 fun scope hscope => ?_
      have hkept := h.holdsUp_preimage hb hroots (holdsUp_of_settle roots' b)
      have hsame := scope?_settle_of_holdsUp hkept ⟨hs, scope, hscope⟩
      obtain ⟨found, hfound⟩ := (h.has_iff hs).1 ⟨scope, scope?_of_settle hscope⟩
      rw [hleft, hfound] at hsame
      cases hsame
  closed := (ha.settle roots).closedOn
  serial hs hscope hp := (ha.settle roots).admits hs hscope hp
  injScope := h.injScope
  injProcedure := h.injProcedure
  freshScope := by simpa using h.freshScope
  freshProcedure := by simpa using h.freshProcedure

/-! ### Releasing and clearing in both stores -/

/-- From referrers that agree inside, the same scopes of the region are reached. -/
theorem reaches_iff (h : Corresponds r region a b) (ha : a.Divided region)
    (hb : b.Divided (region.image r)) (hstarts : Agree r region starts starts')
    (ht : t ∈ region.scopes) : b.Reaches starts' (r.scope t) ↔ a.Reaches starts t := by
  constructor
  · intro hreach
    generalize hu : r.scope t = u at hreach
    induction hreach generalizing t with
    | start hstart => exact .start ((hstarts t ht).1 (hu ▸ hstart))
    | step _ hscope hmem ih =>
      obtain ⟨w, hw, rfl, found, hfound, hmem⟩ := h.referrer hb hscope ht (hu ▸ hmem)
      exact (ih hw rfl).step hfound hmem
  · intro hreach
    induction hreach with
    | start hstart => exact .start ((hstarts _ ht).2 hstart)
    | step _ hscope hmem ih =>
      have hs := (ha.references hscope hmem).1 ht
      obtain ⟨found, hfound, hmem⟩ := h.mem_references hs hscope hmem
      exact (ih hs).step hfound hmem

/-- Scopes of the region have the same root in both stores. -/
theorem rootOf_eq_iff (h : Corresponds r region a b) (ha : a.Divided region)
    (hs : s ∈ region.scopes) (ht : t ∈ region.scopes) :
    b.rootOf (r.scope s) = b.rootOf (r.scope t) ↔ a.rootOf s = a.rootOf t := by
  rw [h.rootOf hs, h.rootOf ht]
  exact h.injScope.eq_iff (ha.rootOf_mem hs) (ha.rootOf_mem ht)

/-- The tree of a scope of the region is the same tree in both stores. -/
theorem agree_treeOf (h : Corresponds r region a b) (ha : a.Divided region)
    (hb : b.Divided (region.image r)) (hs : s ∈ region.scopes) :
    Agree r region (a.treeOf s) (b.treeOf (r.scope s)) := by
  intro t ht
  rw [ha.registered.mem_treeOf ha.sound, hb.registered.mem_treeOf hb.sound, h.has_iff ht,
    h.rootOf_eq_iff ha ht hs]

/-- A release has the same scopes of the region to empty in both stores. -/
theorem agree_garbage (h : Corresponds r region a b) (ha : a.Divided region)
    (hb : b.Divided (region.image r))
    (hheld : Agree r region (held.map Referent.scopeOf) (held'.map Referent.scopeOf))
    (hs : s ∈ region.scopes) :
    Agree r region (a.garbage held s) (b.garbage held' (r.scope s)) := by
  have hothers : Agree r region (a.others (a.rootOf s)) (b.others (b.rootOf (r.scope s))) := by
    intro t ht
    rw [mem_others, mem_others, h.has_iff ht, ne_eq, ne_eq, h.rootOf_eq_iff ha ht hs]
  intro t ht
  rw [ha.registered.mem_garbage ha.sound, hb.registered.mem_garbage hb.sound, h.has_iff ht,
    h.reaches_iff ha hb (hheld.append hothers) ht]

end Corresponds

/-- Only scopes of the region are released with a tree of the region. -/
theorem Divided.garbage_mem (h : a.Divided region) (hs : s ∈ region.scopes)
    (ht : t ∈ a.garbage held s) : t ∈ region.scopes := by
  rw [← h.rootOf_mem_iff, h.sound.rootOf_of_mem_garbage h.registered ht]
  exact h.rootOf_mem hs

/-- The whole tree of a scope inside is inside. -/
theorem Divided.treeOf_mem (h : a.Divided region) (hs : s ∈ region.scopes)
    (ht : t ∈ a.treeOf s) : t ∈ region.scopes := by
  rw [← h.rootOf_mem_iff, ((h.registered.mem_treeOf h.sound).1 ht).2]
  exact h.rootOf_mem hs

namespace Corresponds

/-- **A release empties equally many scopes in both stores.** -/
theorem length_garbage (h : Corresponds r region a b) (ha : a.Divided region)
    (hb : b.Divided (region.image r))
    (hheld : Agree r region (held.map Referent.scopeOf) (held'.map Referent.scopeOf))
    (hs : s ∈ region.scopes) :
    (b.garbage held' (r.scope s)).length = (a.garbage held s).length := by
  have hagree := h.agree_garbage ha hb hheld hs
  have hmem : ∀ t ∈ a.garbage held s, t ∈ region.scopes := fun t => ha.garbage_mem hs
  have hnodup : ((a.garbage held s).map r.scope).Nodup :=
    (ha.registered.nodup_garbage ..).map_on fun t ht u hu => h.injScope (hmem t ht) (hmem u hu)
  have hperm : (b.garbage held' (r.scope s)).Perm ((a.garbage held s).map r.scope) := by
    refine (List.perm_ext_iff_of_nodup (hb.registered.nodup_garbage ..) hnodup).2
      fun u => ⟨fun hu => ?_, ?_⟩
    · obtain ⟨t, ht, rfl⟩ := hb.garbage_mem (Set.mem_image_of_mem _ hs) hu
      exact List.mem_map_of_mem ((hagree t ht).1 hu)
    · intro hu
      obtain ⟨t, ht, rfl⟩ := List.mem_map.1 hu
      exact (hagree t (hmem t ht)).2 ht
  rw [hperm.length_eq, List.length_map]

/-- Emptying the same scopes in both stores, and settling them. -/
theorem emptyAll_settle (h : Corresponds r region a b) (ha : a.Divided region)
    (hb : b.Divided (region.image r)) (hroots : Agree r region roots roots')
    {listed' : List ScopeId} (hlisted : Agree r region listed listed') :
    Corresponds r region ((a.emptyAll listed).settle roots) ((b.emptyAll listed').settle roots') :=
  (h.emptyAll hlisted).settle (ha.emptyAll listed) (hb.emptyAll listed') hroots

/-- Dropping dead entries in both stores. -/
theorem retain (h : Corresponds r region a b) (s t : ScopeId) :
    Corresponds r region (a.retain s) (b.retain t) :=
  h.replace (fun _ _ => scope?_retain ..) (fun _ _ => scope?_retain ..) (nextScope_retain ..)
    (nextScope_retain ..) (nextProcedure_retain ..) (nextProcedure_retain ..)

/-- **Releasing the same tree in both stores**: equally many scopes are emptied. -/
theorem release (h : Corresponds r region a b) (ha : a.Divided region)
    (hb : b.Divided (region.image r))
    (hheld : Agree r region (held.map Referent.scopeOf) (held'.map Referent.scopeOf))
    (hs : s ∈ region.scopes) :
    (b.release held' (r.scope s)).1 = (a.release held s).1 ∧
      Corresponds r region (a.release held s).2 (b.release held' (r.scope s)).2 := by
  rw [release_eq, release_eq]
  exact ⟨h.length_garbage ha hb hheld hs, (h.retain s (r.scope s)).emptyAll_settle (ha.retain s)
    (hb.retain _) hheld (h.agree_garbage ha hb hheld hs)⟩

end Corresponds

/-! ### The other side of the border -/

/-- What taking scopes out leaves: a store that is divided as before, with what the host refers to
and with the scopes outside the region as they were. -/
structure Reclaimed (region : Region) (roots : List ScopeId) (before after : Store) : Prop where
  divided : after.Divided region
  has : ∀ s ∈ roots, before.Has s → after.Has s
  outside : ∀ {s}, s ∉ region.scopes → after.scope? s = before.scope? s
  nextScope : after.nextScope = before.nextScope
  nextProcedure : after.nextProcedure = before.nextProcedure

/-- What is reclaimed inside in two steps is reclaimed inside. -/
theorem Reclaimed.trans {c : Store} (h : Reclaimed region roots a b)
    (h' : Reclaimed region roots b c) : Reclaimed region roots a c where
  divided := h'.divided
  has s hs ha := h'.has s hs (h.has s hs ha)
  outside hs := (h'.outside hs).trans (h.outside hs)
  nextScope := h'.nextScope.trans h.nextScope
  nextProcedure := h'.nextProcedure.trans h.nextProcedure

/-- Fewer referrers are held on to as well. -/
theorem Reclaimed.mono {fewer : List ScopeId} (h : Reclaimed region roots a b)
    (hsub : ∀ s ∈ fewer, s ∈ roots) : Reclaimed region fewer a b :=
  { h with has := fun s hs => h.has s (hsub s hs) }

/-- The scopes outside a region hold themselves up, with the help of some scopes. -/
def Steady (store : Store) (region : Region) (outer : List ScopeId) : Prop :=
  store.HoldsUp outer {s | s ∉ region.scopes ∧ store.Has s}

/-- Whether the outside is steady is up to the scopes outside. -/
theorem Steady.congr (h : a.Steady region outer)
    (hsame : ∀ {s}, s ∉ region.scopes → b.scope? s = a.scope? s) : b.Steady region outer := by
  rintro s ⟨hs, hhas⟩
  have hhas' : a.Has s := by rwa [Has, hsame hs] at hhas
  refine ⟨hhas, (h s ⟨hs, hhas'⟩).2.imp_right ?_⟩
  rintro ⟨u, ⟨hu, found, hfound⟩, scope, hscope, hmem⟩
  rw [← hsame hu] at hfound hscope
  exact ⟨u, ⟨hu, found, hfound⟩, scope, hscope, hmem⟩

/-- Settling takes scopes out inside only, as long as the outside is steady. -/
theorem Divided.reclaimed_settle (h : a.Divided region) (hsteady : a.Steady region outer)
    (houter : ∀ s ∈ outer, s ∈ roots) : Reclaimed region roots a (a.settle roots) where
  divided := h.settle roots
  has s hs ha := (keeps_settle roots a).has hs ha
  outside := by
    have hkept : a.HoldsUp roots {s | s ∉ region.scopes ∧ a.Has s} :=
      fun t ht => (hsteady t ht).imp_right (.imp_left (houter t))
    intro s hs
    by_cases hhas : a.Has s
    · exact scope?_settle_of_holdsUp hkept ⟨hs, hhas⟩
    · have hnone : a.scope? s = none :=
        Option.eq_none_iff_forall_ne_some.2 fun scope hscope => hhas ⟨scope, hscope⟩
      rw [hnone]
      exact Option.eq_none_iff_forall_ne_some.2 fun scope hscope =>
        hhas ⟨scope, scope?_of_settle hscope⟩
  nextScope := nextScope_settle ..
  nextProcedure := nextProcedure_settle ..

/-- Emptying scopes of the region leaves the outside as it is. -/
theorem Divided.reclaimed_emptyAll (h : a.Divided region)
    (hlisted : ∀ s ∈ listed, s ∈ region.scopes) :
    Reclaimed region roots a (a.emptyAll listed) where
  divided := h.emptyAll listed
  has _ _ ha := (has_emptyAll ..).2 ha
  outside hs := by rw [scope?_emptyAll, if_neg fun hmem => hs (hlisted _ hmem)]
  nextScope := nextScope_emptyAll ..
  nextProcedure := nextProcedure_emptyAll ..

/-- So does dropping dead entries. -/
theorem Divided.reclaimed_retain (h : a.Divided region) (s : ScopeId) :
    Reclaimed region roots a (a.retain s) where
  divided := h.retain s
  has t _ ha := (has_retain a s t).2 ha
  outside _ := scope?_retain ..
  nextScope := nextScope_retain ..
  nextProcedure := nextProcedure_retain ..

/-- Emptying scopes of the region, and settling. -/
theorem Divided.reclaimed_emptyAll_settle (h : a.Divided region) (hsteady : a.Steady region outer)
    (houter : ∀ s ∈ outer, s ∈ roots) (hlisted : ∀ s ∈ listed, s ∈ region.scopes) :
    Reclaimed region roots a ((a.emptyAll listed).settle roots) := by
  have hempty : Reclaimed region roots a (a.emptyAll listed) := h.reclaimed_emptyAll hlisted
  exact hempty.trans
    (hempty.divided.reclaimed_settle (hsteady.congr hempty.outside) houter)

/-- Releasing the tree of a scope of the region. -/
theorem Divided.reclaimed_release (h : a.Divided region) (hsteady : a.Steady region outer)
    (houter : ∀ t ∈ outer, t ∈ held.map Referent.scopeOf) (hs : s ∈ region.scopes) :
    Reclaimed region (held.map Referent.scopeOf) a (a.release held s).2 := by
  have hretain : Reclaimed region (held.map Referent.scopeOf) a (a.retain s) :=
    h.reclaimed_retain s
  rw [release_eq]
  exact hretain.trans (hretain.divided.reclaimed_emptyAll_settle (hsteady.congr hretain.outside)
    houter fun t => h.garbage_mem hs)

end Store
end StrictScheme
