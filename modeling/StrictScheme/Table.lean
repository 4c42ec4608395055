/-
# Tables

A table maps names to entries. Each name occurs once; entries stay in the order in
which their names were first put in, and no answer depends on that order.
-/

namespace StrictScheme

/-- A finite map from names to entries. -/
structure Table (α : Type) where
  entries : List (String × α) := []
deriving Repr, Inhabited

namespace Table

variable {α : Type}

/-- The first entry under a name. -/
def lookup (name : String) : List (String × α) → Option α
  | [] => none
  | (key, entry) :: rest => if key = name then some entry else lookup name rest

/-- Replaces the entry under a name, or appends one. -/
def put (name : String) (new : α) : List (String × α) → List (String × α)
  | [] => [(name, new)]
  | (key, entry) :: rest =>
    if key = name then (key, new) :: rest else (key, entry) :: put name new rest

/-- The entry under a name. -/
def get? (table : Table α) (name : String) : Option α :=
  lookup name table.entries

/-- Whether there is an entry under a name. -/
def contains (table : Table α) (name : String) : Bool :=
  (table.get? name).isSome

/-- Puts an entry under a name, in the place of an earlier one. -/
def insert (table : Table α) (name : String) (entry : α) : Table α :=
  ⟨put name entry table.entries⟩

/-- Removes the entry under a name. -/
def erase (table : Table α) (name : String) : Table α :=
  ⟨table.entries.filter (·.1 != name)⟩

/-- All entries. -/
def values (table : Table α) : List α :=
  table.entries.map (·.2)

/-- All names. -/
def names (table : Table α) : List String :=
  table.entries.map (·.1)

/-- Puts entries under names, pair by pair; of two entries under one name the later one stays. -/
def insertAll (table : Table α) : List String → List α → Table α
  | name :: names, entry :: entries => (table.insert name entry).insertAll names entries
  | _, _ => table

end Table

end StrictScheme
