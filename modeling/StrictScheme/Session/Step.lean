/-
# Steps of a session

What a host can ask of a session, and what it can be told. Scopes and values are
referred to by the names the host gave them.
-/

import StrictScheme.Operation
import StrictScheme.Session.Basic
import StrictScheme.Store.Listing

namespace StrictScheme

/-- A scope, as the host refers to it. -/
inductive ScopeName where
  | global
  | handle (name : String)
deriving DecidableEq, Repr

/-- A value, as the host describes it. -/
inductive ValueSource where
  | number (n : Number)
  | boolean (b : Bool)
  /-- The builtin that a fresh global scope binds to a name. -/
  | builtin (name : String)
  /-- A new user procedure, defined in the given scope or in a new empty one. -/
  | procedure (name : String) (params : List String) (body : SExpr) (scope : Option ScopeName)
  /-- The value in a slot. -/
  | slot (name : String)
deriving Repr

/-- The kinds of value that a host can ask for. -/
inductive HostKind where
  | number
  | boolean
deriving DecidableEq, Repr

/-- A request of the host. A request that yields a value can name a slot to keep it in. -/
inductive Step where
  /-- Evaluates a text under the settings of the session. -/
  | evaluate (text : String) (scope : ScopeName) (slot : Option String)
  /-- Evaluates a text under the default settings. -/
  | evaluateDefault (text : String) (scope : ScopeName) (slot : Option String)
  /-- Evaluates a tree and releases nothing. -/
  | evaluateTree (tree : SExpr) (scope : ScopeName) (limit : UInt64) (slot : Option String)
  /-- Runs a special form directly. -/
  | special (form : SpecialForm) (operands : List SExpr) (scope : ScopeName) (depth : Depth)
      (slot : Option String)
  | read (text : String)
  | config
  /-- Lists what can be seen from a scope, builtins only if `all` is set. -/
  | listing (scope : ScopeName) (all : Bool)
  | newScope (name : String) (parent : Option ScopeName)
  | newGlobal (name : String)
  | keepScope (name : String) (scope : ScopeName)
  /-- Takes a handle to the scope in which the procedure in a slot was defined. -/
  | definingScope (name slot : String)
  | dropHandle (name : String)
  | parent (scope : ScopeName) (name : String)
  | get (scope : ScopeName) (name : String) (slot : Option String)
  | define (scope : ScopeName) (name : String) (value : ValueSource)
  | assign (scope : ScopeName) (name : String) (value : ValueSource)
  | bindsLocally (scope : ScopeName) (name : String)
  | isRoot (scope : ScopeName)
  | sameScope (a b : ScopeName)
  | clear (scope : ScopeName)
  | release (scope : ScopeName)
  | register (scope : ScopeName) (builtin : Builtin)
  | keep (value : ValueSource) (slot : String)
  | dropSlot (slot : String)
  /-- Watches the user procedure in a slot. -/
  | watch (slot name : String)
  | isAlive (name : String)
  | equal (a b : ValueSource)
  | convert (value : ValueSource) (kind : HostKind)
  | procedureName (value : ValueSource)
  | inspectScope (scope : ScopeName)
  | inspectValue (value : ValueSource)
  /-- Drops the interpreter, which clears its tree. -/
  | dropInterpreter
deriving Repr

/-- Why a request makes no sense. -/
inductive BadRequest where
  | unknownScope (name : ScopeName)
  | unknownSlot (name : String)
  | unknownWatch (name : String)
  | unknownBuiltin (name : String)
  | noProcedure (slot : String)
deriving Repr

/-- What a host is told. -/
inductive Answer where
  | value (v : Value)
  | absent
  | failure (e : Error)
  | done
  | tree (tree : SExpr)
  | config (config : Config)
  | listing (total : Nat) (shown : List Binding)
  | hasParent (b : Bool)
  | truth (b : Bool)
  | released (count : Nat)
  | number (n : Number)
  | boolean (b : Bool)
  | name (name : Option String)
  | inspection (text : String)
  | refused (reason : BadRequest)
deriving Repr

end StrictScheme
