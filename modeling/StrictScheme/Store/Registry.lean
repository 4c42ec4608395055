/-
# Registries

The scopes of a tree are entered in one list when they are made, the registry of the
tree. An entry does not keep its scope in existence. The entries of scopes that have
ceased to exist are dropped when the list is full, before it is made to grow, and when
the tree is released.
-/

import StrictScheme.Value

namespace StrictScheme

/-- The number of a registry in its store. -/
abbrev RegistryId := Nat

/-- The scopes of a tree, in the order in which they were made. -/
structure Registry where
  /-- How many entries there is room for. -/
  capacity : Nat := 0
  entries : Array ScopeId := #[]
deriving Repr, Inhabited

namespace Registry

/-- Drops the entries of scopes that no longer exist. -/
def retain (registry : Registry) (isAlive : ScopeId → Bool) : Registry :=
  { registry with entries := registry.entries.filter isAlive }

/-- Adds an entry, with twice the room if there is none left. -/
def push (registry : Registry) (s : ScopeId) : Registry :=
  let { capacity, entries } := registry
  let capacity := if entries.size = capacity then max 4 (2 * capacity) else capacity
  { capacity, entries := entries.push s }

/-- Enters a scope. A list that is full is cleared of dead entries first. -/
def register (registry : Registry) (isAlive : ScopeId → Bool) (s : ScopeId) : Registry :=
  if registry.entries.size = registry.capacity then (registry.retain isAlive).push s
  else registry.push s

end Registry

end StrictScheme
