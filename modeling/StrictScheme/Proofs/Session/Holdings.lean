/-
# What a host has under its names

A host has the global scope of its interpreter, handles, slots and watches.  Each step
mentions some of their names (`Step.names`), and it is carried out on what stands under
these: `Session.holdings` is the part of a session that some of the names cover.

The scopes that holdings refer to are their roots, and the serial numbers in them are
those of the procedures in slots and of the watched ones.
-/

import StrictScheme.Proofs.Eval.Correspondence
import StrictScheme.Session.Perform

namespace StrictScheme

/-! ### The names in a step -/

/-- The name of something that a host has. -/
inductive HostName where
  | global
  | handle (name : String)
  | slot (name : String)
  | watch (name : String)
deriving DecidableEq, Repr

/-- The name under which a host has a scope. -/
def ScopeName.hostName : ScopeName → HostName
  | .global => .global
  | .handle name => .handle name

/-- The names in the description of a value. -/
def ValueSource.names : ValueSource → List HostName
  | .procedure _ _ _ scope => scope.toList.map ScopeName.hostName
  | .slot name => [.slot name]
  | .number _ | .boolean _ | .builtin _ => []

/-- All names that a step mentions. -/
def Step.names : Step → List HostName
  | .evaluate _ scope slot | .evaluateDefault _ scope slot | .evaluateTree _ scope _ slot
  | .special _ _ scope _ slot | .get scope _ slot => scope.hostName :: slot.toList.map .slot
  | .read _ | .config => []
  | .listing scope _ | .bindsLocally scope _ | .isRoot scope | .clear scope | .release scope
  | .register scope _ | .inspectScope scope => [scope.hostName]
  | .newScope name outer => .handle name :: outer.toList.map ScopeName.hostName
  | .newGlobal name | .dropHandle name => [.handle name]
  | .keepScope name scope | .parent scope name => [.handle name, scope.hostName]
  | .definingScope name slot => [.handle name, .slot slot]
  | .define scope _ value | .assign scope _ value => scope.hostName :: value.names
  | .sameScope a b => [a.hostName, b.hostName]
  | .keep value slot => .slot slot :: value.names
  | .dropSlot slot => [.slot slot]
  | .watch slot name => [.slot slot, .watch name]
  | .isAlive name => [.watch name]
  | .equal a b => a.names ++ b.names
  | .convert value _ | .procedureName value | .inspectValue value => value.names
  | .dropInterpreter => [.global]

/-! ### Holdings -/

/-- What a host has. -/
@[ext]
structure Holdings where
  global : Option ScopeId
  handles : Table ScopeId
  slots : Table Value
  watches : Table ProcedureId

/-- What a host has under some of the names. -/
def Session.holdings (session : Session) (names : HostName → Bool) : Holdings where
  global := if names .global then session.global else none
  handles := session.handles.only fun name => names (.handle name)
  slots := session.slots.only fun name => names (.slot name)
  watches := session.watches.only fun name => names (.watch name)

namespace Holdings

/-- The same under other numbers. -/
def rename (r : Renaming) (held : Holdings) : Holdings where
  global := held.global.map r.scope
  handles := held.handles.map r.scope
  slots := held.slots.map (Value.rename r)
  watches := held.watches.map r.procedure

/-- The scopes that are referred to, directly or through a procedure. -/
def roots (held : Holdings) : List ScopeId :=
  held.global.toList ++ held.handles.values ++ held.slots.values.flatMap Session.captured

/-- The serial numbers of the procedures in slots and of those that are watched. -/
def serials (held : Holdings) : List ProcedureId :=
  (held.slots.values.filterMap Value.procedure?).map Procedure.id ++ held.watches.values

/-- Everything that is referred to is in a region, and exists. -/
structure IsIn (held : Holdings) (region : Region) (store : Store) : Prop where
  roots : ∀ s ∈ held.roots, s ∈ region.scopes ∧ store.Has s
  serials : ∀ id ∈ held.serials, region.Admits store id

end Holdings

variable {held : Holdings} {region : Region} {store : Store} {r : Renaming} {s : ScopeId}
  {id : ProcedureId} {v : Value}

/-- A value refers to a scope only if it is a procedure that was defined there. -/
theorem Session.mem_captured : s ∈ captured v ↔ ∃ p, v.procedure? = some p ∧ p.scope = s := by
  simp [captured, Option.mem_toList]

namespace Holdings

/-- The roots are the global scope, the handles, and the scopes of procedures in slots. -/
theorem mem_roots :
    s ∈ held.roots ↔ held.global = some s ∨ s ∈ held.handles.values ∨
      ∃ v ∈ held.slots.values, s ∈ Session.captured v := by
  simp only [roots, List.mem_append, Option.mem_toList, List.mem_flatMap, or_assoc]

/-- The serial numbers are those of procedures in slots, and those that are watched. -/
theorem mem_serials :
    id ∈ held.serials ↔
      (∃ p, .procedure p ∈ held.slots.values ∧ p.id = id) ∨ id ∈ held.watches.values := by
  simp only [serials, List.mem_append, List.mem_map, List.mem_filterMap,
    Value.procedure?_eq_some, exists_eq_right]

/-- The roots under other numbers. -/
theorem roots_rename : (held.rename r).roots = held.roots.map r.scope := by
  have hcaptured (v : Value) :
      Session.captured (v.rename r) = (Session.captured v).map r.scope := by
    cases v <;> rfl
  cases hglobal : held.global <;>
    simp [roots, rename, hglobal, List.flatMap_map, List.map_flatMap, hcaptured]

/-- Only the numbers that occur count in a renaming. -/
theorem rename_congr {r' : Renaming} (hscopes : ∀ s ∈ held.roots, r'.scope s = r.scope s)
    (hserials : ∀ id ∈ held.serials, r'.procedure id = r.procedure id) :
    held.rename r' = held.rename r := by
  refine Holdings.ext ?_ ?_ ?_ ?_
  · cases hglobal : held.global with
    | none => simp [rename, hglobal]
    | some s => simp [rename, hglobal, hscopes s (mem_roots.2 (.inl hglobal))]
  · exact Table.map_congr fun s hs => hscopes s (mem_roots.2 (.inr (.inl hs)))
  · refine Table.map_congr fun v hv => ?_
    cases v with
    | procedure p =>
      have hscope := hscopes p.scope (mem_roots.2 (.inr (.inr ⟨_, hv, Session.mem_captured.2
        ⟨p, rfl, rfl⟩⟩)))
      have hid := hserials p.id (mem_serials.2 (.inl ⟨p, hv, rfl⟩))
      simp only [Value.rename, Procedure.rename, hscope, hid]
    | number | boolean | builtin => rfl
  · exact Table.map_congr fun id hid => hserials id (mem_serials.2 (.inr hid))

/-! ### Holdings in a region -/

/-- The value in a slot can be used in the region. -/
theorem IsIn.slot (h : held.IsIn region store) (hv : v ∈ held.slots.values) :
    v.IsIn region store := by
  intro p hp
  obtain ⟨hregion, hhas⟩ := h.roots p.scope
    (mem_roots.2 (.inr (.inr ⟨v, hv, Session.mem_captured.2 ⟨p, hp, rfl⟩⟩)))
  rw [Value.procedure?_eq_some.1 hp] at hv
  exact ⟨hregion, hhas, h.serials p.id (mem_serials.2 (.inl ⟨p, hv, rfl⟩))⟩

/-- Holdings stay in a region when a program has run there. -/
theorem IsIn.extends {after : Store} (h : held.IsIn region store)
    (hle : store.Extends region after) : held.IsIn region after where
  roots s hs := (h.roots s hs).imp_right hle.has
  serials id hid := hle.admits (h.serials id hid)

/-- A handle to a scope of the region may be added. -/
theorem IsIn.insertHandle (h : held.IsIn region store) (name : String)
    (hs : s ∈ region.scopes ∧ store.Has s) :
    { held with handles := held.handles.insert name s }.IsIn region store where
  roots t ht := by
    rcases mem_roots.1 ht with ht | ht | ht
    · exact h.roots t (mem_roots.2 (.inl ht))
    · rcases Table.mem_values_insert ht with rfl | ht
      · exact hs
      · exact h.roots t (mem_roots.2 (.inr (.inl ht)))
    · exact h.roots t (mem_roots.2 (.inr (.inr ht)))
  serials := h.serials

/-- A handle may be dropped. -/
theorem IsIn.eraseHandle (h : held.IsIn region store) (name : String) :
    { held with handles := held.handles.erase name }.IsIn region store where
  roots t ht := by
    refine h.roots t (mem_roots.2 ((mem_roots.1 ht).imp_right (.imp_left ?_)))
    exact Table.mem_values_erase
  serials := h.serials

/-- A value that can be used in the region may be kept. -/
theorem IsIn.insertSlot (h : held.IsIn region store) (name : String)
    (hv : v.IsIn region store) :
    { held with slots := held.slots.insert name v }.IsIn region store where
  roots t ht := by
    rcases mem_roots.1 ht with ht | ht | ⟨u, hu, htu⟩
    · exact h.roots t (mem_roots.2 (.inl ht))
    · exact h.roots t (mem_roots.2 (.inr (.inl ht)))
    · rcases Table.mem_values_insert hu with rfl | hu
      · obtain ⟨p, hp, rfl⟩ := Session.mem_captured.1 htu
        exact ⟨(hv p hp).1, (hv p hp).2.1⟩
      · exact h.roots t (mem_roots.2 (.inr (.inr ⟨u, hu, htu⟩)))
  serials id hid := by
    rcases mem_serials.1 hid with ⟨p, hp, rfl⟩ | hid
    · rcases Table.mem_values_insert hp with rfl | hp
      · exact (hv p rfl).2.2
      · exact h.serials p.id (mem_serials.2 (.inl ⟨p, hp, rfl⟩))
    · exact h.serials id (mem_serials.2 (.inr hid))

/-- A slot may be dropped. -/
theorem IsIn.eraseSlot (h : held.IsIn region store) (name : String) :
    { held with slots := held.slots.erase name }.IsIn region store where
  roots t ht := by
    refine h.roots t (mem_roots.2 ((mem_roots.1 ht).imp_right (.imp_right ?_)))
    rintro ⟨u, hu, ht⟩
    exact ⟨u, Table.mem_values_erase hu, ht⟩
  serials id hid := by
    refine h.serials id (mem_serials.2 ((mem_serials.1 hid).imp_left ?_))
    rintro ⟨p, hp, hid⟩
    exact ⟨p, Table.mem_values_erase hp, hid⟩

/-- A serial number of the region may be watched. -/
theorem IsIn.insertWatch (h : held.IsIn region store) (name : String)
    (hid : region.Admits store id) :
    { held with watches := held.watches.insert name id }.IsIn region store where
  roots := h.roots
  serials other hother := by
    rcases mem_serials.1 hother with hother | hother
    · exact h.serials other (mem_serials.2 (.inl hother))
    · rcases Table.mem_values_insert hother with rfl | hother
      · exact hid
      · exact h.serials other (mem_serials.2 (.inr hother))

end Holdings
end StrictScheme
