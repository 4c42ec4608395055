/-
# Which scopes exist

A scope exists as long as something refers to it: the host, a scope made in it, or
a user procedure that was defined in it and is bound somewhere. `settle` takes out
the scopes that nothing refers to, again and again until each one left is referred
to. Scopes that refer to each other in a circle stay.
-/

import StrictScheme.Store.Basic

namespace StrictScheme

/-- The scopes that a scope refers to: the one it was made in, and those in which the
procedures it binds were defined. -/
def Scope.references (scope : Scope) : List ScopeId :=
  scope.parent?.toList ++ scope.procedures.map Procedure.scope

namespace Store

/-- The number of scopes that exist. -/
def population (store : Store) : Nat :=
  store.scopes.countP Option.isSome

/-- Every scope that some existing scope refers to, with repetitions. -/
def allReferences (store : Store) : List ScopeId :=
  store.scopes.toList.flatMap fun slot =>
    match slot with
    | some scope => scope.references
    | none => []

/-! ### Taking out what nothing refers to -/

/-- For each of `size` scopes, whether it is in a list. -/
def marks (size : Nat) (listed : List ScopeId) : Array Bool :=
  listed.foldl (fun marked s => marked.setIfInBounds s true) (Array.replicate size false)

/-- Keeps the scopes that the host (`roots`) or an existing scope refers to. -/
def prune (roots : List ScopeId) (store : Store) : Store :=
  let referred := marks store.scopes.size (roots ++ store.allReferences)
  { store with
    scopes := store.scopes.mapIdx fun s slot => if referred[s]? = some true then slot else none }

/-- Takes out scopes until each one left is referred to. -/
def settle (roots : List ScopeId) (store : Store) : Store :=
  let pruned := store.prune roots
  if pruned.population < store.population then pruned.settle roots else store
termination_by store.population

end Store

end StrictScheme
