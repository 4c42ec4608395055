/-
# Listings

The names that can be seen from a scope, each once, with the kind and the written
form of its value. A name that several scopes bind is listed with the nearest
binding. Names come in the order of their code points.
-/

import StrictScheme.Store.Basic

namespace StrictScheme

/-- One line of a listing. -/
structure Binding where
  name : String
  kind : String
  text : String
deriving DecidableEq, Repr

namespace Binding

/-- A name and its value, described. -/
def ofValue (name : String) (v : Value) : Binding :=
  ⟨name, v.kind, v.print⟩

/-- Whether a line of a listing is about a builtin. -/
def isBuiltin (b : Binding) : Bool :=
  b.kind == "builtin"

/-- A line of a listing. -/
def print (b : Binding) : String :=
  b.name ++ " : " ++ b.kind ++ " = " ++ b.text

end Binding

/-- Strings in the order of their code points. -/
def sortNames (names : List String) : List String :=
  names.mergeSort fun a b => decide (a ≤ b)

namespace Store

/-- The names that some of the given scopes bind, each once. -/
def namesIn (store : Store) (scopes : List ScopeId) : List String :=
  (scopes.flatMap fun s => ((store.scope? s).map (·.bindings.names)).getD []).eraseDups

/-- Everything that can be seen from a scope, sorted by name. -/
def listing (store : Store) (s : ScopeId) : List Binding :=
  (sortNames (store.namesIn (store.chain s))).filterMap fun name =>
    (store.lookup s name).map (Binding.ofValue name)

end Store

end StrictScheme
