/-
# Releasing and clearing a tree

Scopes and procedures that refer to each other in a circle stay in existence, and
emptying a scope breaks the circles it is part of. `clear` empties all scopes of a tree,
and `release` those of them that can never be used again. Which scopes there are in a
tree is looked up in its registry.

Nobody keeps a list of what is held from outside a tree, so `release` finds that out by
counting. It counts all references to each scope and procedure of the tree, and then
those that the tree itself makes. What is referred to more often than the tree does it
is held from outside. From there `release` marks what references lead to inside the
tree, and it empties the scopes that are not marked.
-/

import StrictScheme.Store.Reclaim

namespace StrictScheme

/-- Something that is referred to. -/
inductive Referent where
  | scope (s : ScopeId)
  | procedure (p : Procedure)
deriving DecidableEq, Repr

namespace Referent

/-- The scope itself, or the one in which the procedure was defined. -/
def scopeOf : Referent → ScopeId
  | .scope s => s
  | .procedure p => p.scope

/-- The procedure that is referred to. -/
def procedure? : Referent → Option Procedure
  | .scope _ => none
  | .procedure p => some p

/-- The number under which references are sorted. -/
def number : Referent → Nat
  | .scope s => s
  | .procedure p => p.id

end Referent

/-- References that are sorted into buckets, so that they are quickly counted. -/
structure Tally where
  buckets : Array (List Referent)

namespace Tally

/-- The bucket of what is referred to. -/
def bucket (tally : Tally) (x : Referent) : Nat :=
  x.number % tally.buckets.size

/-- Adds a reference. -/
def add (tally : Tally) (x : Referent) : Tally :=
  let i := tally.bucket x
  ⟨tally.buckets.modify i (x :: ·)⟩

/-- The references of a list. -/
def ofList (listed : List Referent) : Tally :=
  listed.foldl add ⟨Array.replicate (listed.length + 1) []⟩

/-- How many references there are to something. -/
def count (tally : Tally) (x : Referent) : Nat :=
  (tally.buckets.getD (tally.bucket x) []).count x

end Tally

/-- What a scope refers to: the scope it was made in, and a procedure for each of its bindings
to one. -/
def Scope.referents (scope : Scope) : List Referent :=
  scope.parent?.toList.map .scope ++ scope.procedures.map .procedure

namespace Store

/-! ### The registry of a tree -/

/-- Whether a scope exists. -/
def isAlive (store : Store) (s : ScopeId) : Bool :=
  (store.scope? s).isSome

/-- Drops the dead entries in the registry of a scope. -/
def retain (store : Store) (s : ScopeId) : Store :=
  match store.registryOf[s]? with
  | some id => { store with registries := store.registries.modify id (·.retain store.isAlive) }
  | none => store

/-- The existing scopes of the tree of an existing scope, as the registry of the tree has them. -/
def treeOf (store : Store) (s : ScopeId) : List ScopeId :=
  match store.scope? s with
  | some _ =>
    let registry := (store.registryOf[s]?.bind (store.registries[·]?)).getD {}
    registry.entries.toList.filter store.isAlive
  | none => []

/-! ### Counting references -/

/-- The user procedures that are bound in some scopes, one for each binding. -/
def proceduresOf (store : Store) (scopes : List ScopeId) : List Procedure :=
  scopes.flatMap fun s => ((store.scope? s).map Scope.procedures).getD []

/-- What some scopes and procedures refer to, one entry for each reference. -/
def referentsOf (store : Store) (scopes : List ScopeId) (procedures : List Procedure) :
    List Referent :=
  (scopes.flatMap fun s => ((store.scope? s).map Scope.referents).getD []) ++
    procedures.map fun p => .scope p.scope

/-- All references that there are: those of the host, of the scopes that exist, and of the
procedures that the host or a scope refers to. -/
def allReferents (store : Store) (held : List Referent) : List Referent :=
  let procedures := held.filterMap Referent.procedure? ++ store.proceduresOf store.ids
  held ++ store.referentsOf store.ids procedures.eraseDups

/-- Whether something is referred to more often than from inside a tree. A release holds on to
what it works on, which counts once. -/
def isHeldOutside (all inside : Tally) (x : Referent) : Bool :=
  decide (1 + all.count x > 1 + inside.count x)

end Store

/-! ### Marking -/

/-- The state of a marking: what is still to be looked at, and what is not marked so far. -/
structure Marking where
  pendingProcedures : List Procedure
  pendingScopes : List ScopeId
  procedures : List Procedure
  scopes : List ScopeId

namespace Marking

/-- Marks a procedure, and if that is new the scope in which it was defined is looked at. -/
def markProcedure (marking : Marking) (tree : List ScopeId) (p : Procedure) : Marking :=
  if p ∈ marking.procedures then
    { marking with
      procedures := marking.procedures.filter (· != p)
      pendingScopes := [p.scope].filter (· ∈ tree) ++ marking.pendingScopes }
  else marking

/-- Marks a scope, and if that is new its procedures and its parent are looked at. -/
def markScope (marking : Marking) (store : Store) (tree : List ScopeId) (s : ScopeId) : Marking :=
  if s ∈ marking.scopes then
    let parent? := (store.scope? s).bind Scope.parent?
    { marking with
      scopes := marking.scopes.filter (· != s)
      pendingProcedures := store.proceduresOf [s] ++ marking.pendingProcedures
      pendingScopes := parent?.toList.filter (· ∈ tree) ++ marking.pendingScopes }
  else marking

/-- Looks at one thing more, at procedures before scopes. -/
def next? (marking : Marking) (store : Store) (tree : List ScopeId) : Option Marking :=
  match marking.pendingProcedures, marking.pendingScopes with
  | p :: rest, _ => some ({ marking with pendingProcedures := rest }.markProcedure tree p)
  | [], s :: rest => some ({ marking with pendingScopes := rest }.markScope store tree s)
  | [], [] => none

/-- How many things are not marked. -/
def unmarked (marking : Marking) : Nat :=
  marking.procedures.length + marking.scopes.length

/-- How many things are still to be looked at. -/
def pending (marking : Marking) : Nat :=
  marking.pendingProcedures.length + marking.pendingScopes.length

variable {marking after : Marking} {store : Store} {tree : List ScopeId}

/-- Marking a procedure leaves fewer unmarked, or nothing has changed. -/
theorem markProcedure_cases (marking : Marking) (tree : List ScopeId) (p : Procedure) :
    (marking.markProcedure tree p).unmarked < marking.unmarked ∨
      marking.markProcedure tree p = marking := by
  unfold markProcedure
  split
  · next hp =>
    refine .inl (Nat.add_lt_add_right ?_ _)
    exact List.length_filter_lt_length_iff_exists.2 ⟨p, hp, by simp⟩
  · exact .inr rfl

/-- Marking a scope leaves fewer unmarked, or nothing has changed. -/
theorem markScope_cases (marking : Marking) (store : Store) (tree : List ScopeId) (s : ScopeId) :
    (marking.markScope store tree s).unmarked < marking.unmarked ∨
      marking.markScope store tree s = marking := by
  unfold markScope
  split
  · next hs =>
    refine .inl (Nat.add_lt_add_left ?_ _)
    exact List.length_filter_lt_length_iff_exists.2 ⟨s, hs, by simp⟩
  · exact .inr rfl

/-- Each turn leaves fewer unmarked, or less to look at. -/
theorem lt_of_next? (h : marking.next? store tree = some after) :
    Prod.Lex (· < ·) (· < ·) (after.unmarked, after.pending)
      (marking.unmarked, marking.pending) := by
  unfold next? at h
  split at h
  · next p rest hpending =>
    obtain rfl := Option.some.inj h
    rcases markProcedure_cases { marking with pendingProcedures := rest } tree p with hlt | hsame
    · exact .left _ _ hlt
    · rw [hsame]
      exact .right _ (by simp [pending, hpending])
  · next s rest hnone hpending =>
    obtain rfl := Option.some.inj h
    rcases markScope_cases { marking with pendingScopes := rest } store tree s with hlt | hsame
    · exact .left _ _ hlt
    · rw [hsame]
      exact .right _ (by simp [pending, hpending])
  · cases h

/-- Goes on until there is nothing left to look at. -/
def run (marking : Marking) (store : Store) (tree : List ScopeId) : Marking :=
  match _ : marking.next? store tree with
  | some after => after.run store tree
  | none => marking
termination_by (marking.unmarked, marking.pending)
decreasing_by exact lt_of_next? (by assumption)

end Marking

namespace Store

/-! ### Emptying -/

/-- Takes the bindings out of some scopes. -/
def emptyAll (store : Store) (scopes : List ScopeId) : Store :=
  scopes.foldl (fun store s => store.update s Scope.emptied) store

/-- Where a marking starts: nothing is marked, and what is held from outside is looked at. -/
def unmarkedTree (store : Store) (held : List Referent) (scopes : List ScopeId) : Marking :=
  let procedures := (store.proceduresOf scopes).eraseDups
  let all := Tally.ofList (store.allReferents held)
  let inside := Tally.ofList (store.referentsOf scopes procedures)
  { pendingProcedures := procedures.filter fun p => isHeldOutside all inside (.procedure p)
    pendingScopes := scopes.filter fun s => isHeldOutside all inside (.scope s)
    procedures, scopes }

/-- The scopes of a tree that nothing outside the tree leads to; `held` is what the host refers
to, one entry for each reference. -/
def garbage (store : Store) (held : List Referent) (s : ScopeId) : List ScopeId :=
  let scopes := store.treeOf s
  ((store.unmarkedTree held scopes).run store scopes).scopes

/-- Empties the scopes of a tree that can never be used again, and tells how many there were. -/
def release (store : Store) (held : List Referent) (s : ScopeId) : Nat × Store :=
  let store := store.retain s
  let garbage := store.garbage held s
  (garbage.length, (store.emptyAll garbage).settle (held.map Referent.scopeOf))

/-- Empties every scope of a tree. -/
def clear (store : Store) (roots : List ScopeId) (s : ScopeId) : Store :=
  (store.emptyAll (store.treeOf s)).settle roots

end Store

end StrictScheme
