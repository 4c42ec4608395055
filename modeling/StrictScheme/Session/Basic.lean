/-
# Sessions

A session is a store with a global scope, together with what the host of the
interpreter keeps: handles to scopes and values in slots, both by name, and watches
on user procedures. Handles, slots and the global scope keep things in existence;
a watch does not.

A text is evaluated in three steps: it is read, the tree is evaluated, and, while
the result is still held, the scopes that can never be used again are released. A
text that cannot be read changes nothing.
-/

import StrictScheme.Eval
import StrictScheme.Reader
import StrictScheme.Store.Release

namespace StrictScheme

/-- How texts are read and evaluated. -/
structure Config where
  /-- Whether a semicolon starts a comment. -/
  comments : Bool := false
  /-- How deep evaluations may be nested. -/
  maxDepth : UInt64 := 10000
deriving DecidableEq, Repr

/-- An interpreter and its host. -/
structure Session where
  config : Config
  store : Store
  /-- The global scope, until the interpreter is dropped. -/
  global : Option ScopeId
  handles : Table ScopeId := {}
  slots : Table Value := {}
  watches : Table ProcedureId := {}
deriving Repr

namespace Session

/-- A session in which nothing has happened yet. -/
def new (config : Config) : Session :=
  let (global, store) := ({} : Store).newScope none globalBindings
  { config, store, global := some global }

/-- The scope that a value keeps in existence. -/
def captured (v : Value) : List ScopeId :=
  v.procedure?.toList.map Procedure.scope

/-- The scopes that the host refers to, directly or through a procedure it holds. -/
def roots (session : Session) : List ScopeId :=
  session.global.toList ++ session.handles.values ++ session.slots.values.flatMap captured

/-- What the host refers to, one entry for each reference: scopes, and user procedures in slots. -/
def holders (session : Session) : List Referent :=
  (session.global.toList ++ session.handles.values).map .scope ++
    (session.slots.values.filterMap Value.procedure?).map .procedure

/-- What a result of an evaluation refers to. -/
def referents : Except Error Value → List Referent
  | .ok v => v.procedure?.toList.map .procedure
  | .error _ => []

/-- Takes out the scopes that nothing refers to any more. -/
def settle (session : Session) : Session :=
  { session with store := session.store.settle session.roots }

/-- Runs a computation on the store of a session. -/
def run {α : Type} (session : Session) (action : Action α) : Except Error α × Session :=
  let { store, .. } := session
  match action store with
  | .ok a store => (.ok a, { session with store })
  | .error e store => (.error e, { session with store })

/-- Releases what can never be used again in the tree of a scope; `held` is referred to besides
what the host refers to. What nothing refers to any more goes first: it holds nothing. -/
def release (session : Session) (s : ScopeId) (held : List Referent) : Nat × Session :=
  let held := held ++ session.holders
  let settled := session.store.settle (held.map Referent.scopeOf)
  let (count, store) := settled.release held s
  (count, { session with store })

/-- Evaluates a text in a scope. -/
def evaluateText (session : Session) (config : Config) (s : ScopeId) (text : String) :
    Except Error Value × Session :=
  match read config.comments text with
  | .error fault => (.error (.unreadable fault), session)
  | .ok tree =>
    let (result, session) := session.run (evaluate config.maxDepth s tree)
    (result, (session.release s (.scope s :: referents result)).2)

/-- Whether a user procedure still exists: some slot or some existing scope holds it. -/
def isAlive (session : Session) (id : ProcedureId) : Bool :=
  let bound := session.store.scopes.toList.flatMap fun slot =>
    match slot with
    | some scope => scope.procedures
    | none => []
  (session.slots.values.filterMap Value.procedure? ++ bound).any (·.id == id)

end Session

end StrictScheme
