/-
# Carrying out the steps of a session

Each step gives one answer and one next state. After a step, whatever nothing
refers to any more has ceased to exist. A step that fails does not end the session.
-/

import StrictScheme.Inspect
import StrictScheme.Session.Step

namespace StrictScheme

/-- A part of a step: it works on the session, and stops if the request makes no sense. -/
abbrev Host := EStateM BadRequest Session

namespace Host

/-! ### What the host refers to -/

/-- The scope with a given name. -/
def scope (name : ScopeName) : Host ScopeId := do
  let session ← get
  let found := match name with
    | .global => session.global
    | .handle handle => session.handles.get? handle
  match found with
  | some s => return s
  | none => throw (.unknownScope name)

/-- The value in a slot. -/
def slot (name : String) : Host Value := do
  match (← get).slots.get? name with
  | some v => return v
  | none => throw (.unknownSlot name)

/-- The user procedure in a slot. -/
def procedureIn (name : String) : Host Procedure := do
  match (← slot name).procedure? with
  | some p => return p
  | none => throw (.noProcedure name)

/-- Runs a computation on the store of the session. -/
def run {α : Type} (action : Action α) : Host (Except Error α) :=
  modifyGet (·.run action)

/-- Makes something new in the store of the session. -/
def make {α : Type} (change : Store → α × Store) : Host α :=
  modifyGet fun session =>
    let (made, store) := change session.store
    (made, { session with store })

/-- The value that the host describes. -/
def value : ValueSource → Host Value
  | .number n => return .number n
  | .boolean b => return .boolean b
  | .builtin name =>
    match Primitive.all.find? (·.name == name) with
    | some p => return .builtin p.builtin
    | none => throw (.unknownBuiltin name)
  | .procedure name params body scopeName => do
    let s ← match scopeName with
      | some n => scope n
      | none => make (·.newScope none {})
    return .procedure (← make (·.newProcedure name params body s))
  | .slot name => slot name

/-! ### What the host keeps -/

/-- Keeps a handle to a scope. -/
def keepHandle (name : String) (s : ScopeId) : Host Unit :=
  modify fun session => { session with handles := session.handles.insert name s }

/-- Keeps a value in a slot, if one is named. -/
def keepValue (name : Option String) (v : Value) : Host Unit :=
  match name with
  | some n => modify fun session => { session with slots := session.slots.insert n v }
  | none => pure ()

/-- The answer to a request for a value, which is kept if there is one. -/
def yield (name : Option String) : Except Error Value → Host Answer
  | .ok v => do
    keepValue name v
    return .value v
  | .error e => return .failure e

/-- The answer to a request that yields nothing. -/
def confirm : Except Error Unit → Answer
  | .ok () => .done
  | .error e => .failure e

/-! ### Steps -/

/-- Carries out a step. -/
def perform : Step → Host Answer
  | .evaluate text scopeName slotName => do
    let s ← scope scopeName
    yield slotName (← modifyGet fun session => session.evaluateText session.config s text)
  | .evaluateDefault text scopeName slotName => do
    let s ← scope scopeName
    yield slotName (← modifyGet fun session => session.evaluateText {} s text)
  | .evaluateTree tree scopeName limit slotName => do
    let s ← scope scopeName
    yield slotName (← run (evaluate limit s tree))
  | .special form operands scopeName depth slotName => do
    let s ← scope scopeName
    yield slotName (← run (form.runAt depth s operands))
  | .read text => do
    match read (← get).config.comments text with
    | .ok tree => return .tree tree
    | .error fault => return .failure (.unreadable fault)
  | .config => return .config (← get).config
  | .listing scopeName all => do
    let s ← scope scopeName
    let bindings := (← get).store.listing s
    return .listing bindings.length (bindings.filter fun b => all || !b.isBuiltin)
  | .newScope name parentName => do
    let parent ← parentName.mapM scope
    keepHandle name (← make (·.newScope parent {}))
    return .done
  | .newGlobal name => do
    keepHandle name (← make (·.newScope none globalBindings))
    return .done
  | .keepScope name scopeName => do
    keepHandle name (← scope scopeName)
    return .done
  | .definingScope name slotName => do
    keepHandle name (← procedureIn slotName).scope
    return .done
  | .dropHandle name => do
    modify fun session => { session with handles := session.handles.erase name }
    return .done
  | .parent scopeName name => do
    let s ← scope scopeName
    match ((← get).store.scope? s).bind Scope.parent? with
    | some p =>
      keepHandle name p
      return .hasParent true
    | none => return .hasParent false
  | .get scopeName name slotName => do
    let s ← scope scopeName
    match (← get).store.lookup s name with
    | some v => yield slotName (.ok v)
    | none => return .absent
  | .define scopeName name source => do
    let s ← scope scopeName
    let v ← value source
    return confirm (← run (Action.define s name v))
  | .assign scopeName name source => do
    let s ← scope scopeName
    let v ← value source
    return confirm (← run (Action.assign s name v))
  | .bindsLocally scopeName name => do
    let s ← scope scopeName
    return .truth ((← get).store.bindsLocally s name)
  | .isRoot scopeName => do
    let s ← scope scopeName
    return .truth (((← get).store.scope? s).bind Scope.parent?).isNone
  | .sameScope a b => return .truth ((← scope a) == (← scope b))
  | .clear scopeName => do
    let s ← scope scopeName
    modify fun session =>
      { session with store := session.store.clear session.roots s }
    return .done
  | .release scopeName => do
    let s ← scope scopeName
    return .released (← modifyGet (·.release s []))
  | .register scopeName builtin => do
    let s ← scope scopeName
    modify fun session =>
      { session with store := session.store.bind s builtin.name (.builtin builtin) }
    return .done
  | .keep source slotName => do yield (some slotName) (.ok (← value source))
  | .dropSlot slotName => do
    modify fun session => { session with slots := session.slots.erase slotName }
    return .done
  | .watch slotName name => do
    let p ← procedureIn slotName
    modify fun session => { session with watches := session.watches.insert name p.id }
    return .done
  | .isAlive name => do
    match (← get).watches.get? name with
    | some id => return .truth ((← get).isAlive id)
    | none => throw (.unknownWatch name)
  | .equal a b => return .truth ((← value a).equal (← value b))
  | .convert source kind => do
    let v ← value source
    match kind with
    | .number =>
      match v.toNumber with
      | .ok n => return .number n
      | .error e => return .failure e
    | .boolean =>
      match v.toBoolean with
      | .ok b => return .boolean b
      | .error e => return .failure e
  | .procedureName source => return .name (← value source).procedureName?
  | .inspectScope scopeName => do
    let s ← scope scopeName
    return .inspection ((← get).store.inspect s)
  | .inspectValue source => return .inspection (← value source).inspect
  | .dropInterpreter => do
    modify fun session =>
      match session.global with
      | some s =>
        { session with store := session.store.clear session.roots s, global := none }
      | none => session
    return .done

end Host

namespace Session

/-- Carries out a step: the answer, and the session after it. -/
def step (session : Session) (step : Step) : Answer × Session :=
  match Host.perform step session with
  | .ok answer session => (answer, session.settle)
  | .error reason session => (.refused reason, session.settle)

/-- Carries out steps one after the other. -/
def steps (session : Session) : List Step → List Answer × Session
  | [] => ([], session)
  | first :: rest =>
    let (answer, session) := session.step first
    let (answers, session) := session.steps rest
    (answer :: answers, session)

end Session

end StrictScheme
