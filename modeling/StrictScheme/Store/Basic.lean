/-
# Scopes and the store

A scope holds bindings and knows the scopes around it, from the one it was made in
out to the root. These never change; only bindings do. The scopes that share a
root form a tree.

The store holds all scopes by number. Numbers are given out in order and are not
used again, so a scope that has ceased to exist leaves a gap. A name is looked up
in the scope itself and then outward, and the nearest binding counts.

A new scope is entered in the registry of its parent, or in a new one if it is a root.
-/

import StrictScheme.Store.Registry
import StrictScheme.Table
import StrictScheme.Value

namespace StrictScheme

/-- A set of bindings, inside the scopes around it. -/
structure Scope where
  /-- The scopes around this one, the nearest first and the root last. -/
  outer : List ScopeId := []
  bindings : Table Value := {}
deriving Repr, Inhabited

namespace Scope

/-- The scope that this one was made in. -/
def parent? (scope : Scope) : Option ScopeId :=
  scope.outer.head?

/-- The user procedures bound in a scope. -/
def procedures (scope : Scope) : List Procedure :=
  scope.bindings.values.filterMap Value.procedure?

/-- The scope with one more binding, or with another value for a name it binds. -/
def bind (scope : Scope) (name : String) (v : Value) : Scope :=
  { scope with bindings := scope.bindings.insert name v }

/-- The scope without its bindings. -/
def emptied (scope : Scope) : Scope :=
  { scope with bindings := {} }

end Scope

/-- All scopes that exist, the registries of their trees, and the serial number of the next user
procedure. -/
structure Store where
  scopes : Array (Option Scope) := #[]
  /-- For each scope the registry that it was entered in, which is that of its tree. -/
  registryOf : Array RegistryId := #[]
  registries : Array Registry := #[]
  nextProcedure : ProcedureId := 0
deriving Repr, Inhabited

/-- A computation that reads and changes the store. What it did before it failed stays done. -/
abbrev Action := EStateM Error Store

namespace Store

/-! ### Looking around -/

/-- The scope with a given number, if it exists. -/
def scope? (store : Store) (s : ScopeId) : Option Scope :=
  (store.scopes[s]?).join

/-- A scope and those around it, the nearest first. -/
def chain (store : Store) (s : ScopeId) : List ScopeId :=
  match store.scope? s with
  | some scope => s :: scope.outer
  | none => []

/-- The scopes around a new scope: a parent and those around it, or none. -/
def enclosing (store : Store) (parent : Option ScopeId) : List ScopeId :=
  (parent.map store.chain).getD []

/-- The root of the tree that a scope belongs to. -/
def rootOf (store : Store) (s : ScopeId) : ScopeId :=
  ((store.chain s).getLast?).getD s

/-- The value that a scope itself binds to a name. -/
def local? (store : Store) (s : ScopeId) (name : String) : Option Value :=
  (store.scope? s).bind (·.bindings.get? name)

/-- Whether a scope itself binds a name. -/
def bindsLocally (store : Store) (s : ScopeId) (name : String) : Bool :=
  (store.local? s name).isSome

/-- The nearest scope, from `s` outward, that binds a name. -/
def binder? (store : Store) (s : ScopeId) (name : String) : Option ScopeId :=
  (store.chain s).find? (store.bindsLocally · name)

/-- The value of a name seen from a scope. -/
def lookup (store : Store) (s : ScopeId) (name : String) : Option Value :=
  (store.binder? s name).bind (store.local? · name)

/-! ### Making and changing scopes -/

/-- The registry for a new scope: that of its parent, or one that is new. -/
def registryFor (store : Store) (scope : Scope) : RegistryId :=
  (scope.parent?.bind (store.registryOf[·]?)).getD store.registries.size

/-- Adds a scope, which gets the next number, and enters it in its registry. -/
def push (store : Store) (scope : Scope) : Store :=
  let id := store.registryFor scope
  let { scopes, registryOf, registries, nextProcedure } := store
  let registries := if id = registries.size then registries.push {} else registries
  let isAlive s := (scopes[s]?).join.isSome
  let registries := registries.modify id (·.register isAlive scopes.size)
  { scopes := scopes.push (some scope), registryOf := registryOf.push id, registries,
    nextProcedure }

/-- The number of the next scope. -/
def nextScope (store : Store) : ScopeId :=
  store.scopes.size

/-- Makes a scope with the given bindings, inside `parent` or as a root. -/
def newScope (store : Store) (parent : Option ScopeId) (bindings : Table Value) :
    ScopeId × Store :=
  (store.nextScope, store.push ⟨store.enclosing parent, bindings⟩)

/-- Makes a user procedure, which nothing refers to yet. -/
def newProcedure (store : Store) (name : String) (params : List String) (body : SExpr)
    (s : ScopeId) : Procedure × Store :=
  (⟨store.nextProcedure, name, params, body, s⟩,
    { store with nextProcedure := store.nextProcedure + 1 })

/-- Changes a scope in place. -/
def update (store : Store) (s : ScopeId) (change : Scope → Scope) : Store :=
  { store with scopes := store.scopes.modify s (Option.map change) }

/-- Binds a name in a scope, whether or not it was bound there. -/
def bind (store : Store) (s : ScopeId) (name : String) (v : Value) : Store :=
  store.update s (·.bind name v)

/-- Takes a scope out of existence. -/
def erase (store : Store) (s : ScopeId) : Store :=
  { store with scopes := store.scopes.setIfInBounds s none }

/-- The numbers of the scopes that exist, in order. -/
def ids (store : Store) : List ScopeId :=
  (List.range store.scopes.size).filter fun s => (store.scope? s).isSome

end Store

/-- What a global scope binds at first: every primitive procedure under its own name. -/
def globalBindings : Table Value :=
  ({} : Table Value).insertAll (Primitive.all.map Primitive.name)
    (Primitive.all.map fun p => .builtin p.builtin)

namespace Action

/-- A result computed without the store. -/
def ofExcept {α : Type} : Except Error α → Action α
  | .ok a => pure a
  | .error e => throw e

/-- Introduces a binding; a scope binds a name only once. -/
def define (s : ScopeId) (name : String) (v : Value) : Action Unit := do
  if (← get).bindsLocally s name then throw (.duplicateDefinition name)
  modify (·.bind s name v)

/-- Gives another value to the nearest binding of a name. -/
def assign (s : ScopeId) (name : String) (v : Value) : Action Unit := do
  match (← get).binder? s name with
  | some t => modify (·.bind t name v)
  | none => throw (.undefinedVariable name)

end Action

end StrictScheme
