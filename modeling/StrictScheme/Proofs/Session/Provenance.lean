/-
# Where procedures come from

A user procedure is made by a definition, in a tree that is evaluated or in the body of a
procedure that is called, or else the host brings it.  So a property of procedures holds of
all that ever come up, if it holds of those that the host brings and of those that the
definitions in evaluated trees make, and if the bodies of such procedures are such trees
again (`Provenance`).

Evaluation is gone through by a discipline (`Provenance.discipline`).  The steps of a host
are put together from a few parts, and there is one rule for each way of putting them
together (`Host.Maintains`); what a step maintains (`Provenance.perform_maintains`) is then
maintained by whole scripts (`Provenance.Holds.steps`).
-/

import StrictScheme.Proofs.Eval.Forms
import StrictScheme.Proofs.Session.Clear

namespace StrictScheme

variable {α β : Type}

/-! ### Properties that are passed on -/

/-- **A property of trees and one of user procedures that are passed on**: from a list to its
elements, from the definition of a procedure to the procedure, and from a procedure to its body. -/
structure Provenance where
  /-- The trees that are evaluated. -/
  Tree : SExpr → Prop
  /-- The user procedures that come up. -/
  Made : Procedure → Prop
  element : ∀ {elements tree}, Tree (.list elements) → tree ∈ elements → Tree tree
  made : ∀ {name params body},
    Tree (.list [.atom SpecialForm.define.keyword, .list (.atom name :: params.map .atom), body]) →
    Atom.ofToken name = .identifier name → params.Nodup →
    (∀ x ∈ params, Atom.ofToken x = .identifier x) → ∀ id s, Made ⟨id, name, params, body, s⟩
  body : ∀ {p}, Made p → Tree p.body

namespace Provenance

variable {o : Provenance}

/-- **Evaluation passes the properties on.** -/
def discipline (o : Provenance) : Discipline where
  Inv := Store.Governs Set.univ o.Made
  Place _ _ := True
  Tree := o.Tree
  Val _ v := v.Satisfies o.Made
  Change _ _ _ := True
  refl _ _ := trivial
  trans _ _ := trivial
  place_mono _ _ := trivial
  val_mono _ h := h
  element := o.element
  plain := Value.satisfies_of_procedure?_eq_none
  lookup h _ hv := h.lookup (Set.mem_univ _) hv
  define h _ hv _ _ _ := ⟨h.bind hv _ _, trivial⟩
  assign h _ hv _ _ := ⟨h.bind hv _ _, trivial⟩
  procedure := by
    intro s a name params body h _ htree hatom hnodup hparams _ made after
    have hmade : (Value.procedure made.1).Satisfies o.Made := by
      rintro p ⟨⟩
      exact o.made htree hatom hnodup hparams _ _
    exact ⟨(h.newProcedure ..).bind hmade s name, trivial, hmade⟩
  enter h hp hargs _ := by
    refine ⟨h.newScope (fun _ _ => Set.mem_univ _) fun v hv => ?_, trivial, o.body (hp _ rfl),
      fun _ => trivial⟩
    exact hargs v (Table.mem_of_mem_values_insertAll hv)

end Provenance

/-- A store keeps to a kind of procedures when scopes are taken out or emptied. -/
theorem Store.Governs.of_sub {P : Procedure → Prop} {a b : Store} (h : a.Governs Set.univ P)
    (hsub : ∀ {s scope}, b.scope? s = some scope →
      ∃ found, a.scope? s = some found ∧ (scope = found ∨ scope = found.emptied)) :
    b.Governs Set.univ P where
  fresh _ := Set.mem_univ _
  outer _ _ _ := Set.mem_univ _
  procedures := by
    intro t scope p _ hscope hp
    obtain ⟨found, hfound, rfl | rfl⟩ := hsub hscope
    · exact h.procedures (Set.mem_univ t) hfound hp
    · exact absurd hp List.not_mem_nil

/-! ### Parts of a step -/

namespace Host

variable {I : Session → Prop} {J : α → Prop} {K : β → Prop}

/-- A part of a step maintains an invariant of sessions, whether or not the request makes sense, and
what it returns satisfies `J`. -/
structure Maintains (I : Session → Prop) (J : α → Prop) (x : Host α) : Prop where
  ok : ∀ {session a after}, I session → x session = .ok a after → I after ∧ J a
  error : ∀ {session e after}, I session → x session = .error e after → I after

namespace Maintains

/-- Returning something maintains every invariant. -/
theorem pure {a : α} (ha : J a) : Maintains I J (Pure.pure a : Host α) where
  ok h hx := by
    obtain ⟨rfl, rfl⟩ := EStateM.Result.ok.inj hx
    exact ⟨h, ha⟩
  error _ := nofun

/-- So does refusing a request. -/
theorem throw (e : BadRequest) : Maintains I J (MonadExcept.throw e : Host α) where
  ok _ := nofun
  error h hx := (EStateM.Result.error.inj hx).2 ▸ h

/-- Looking at the session shows that the invariant holds. -/
theorem get : Maintains I I (MonadState.get : Host Session) where
  ok h hx := by
    obtain ⟨rfl, rfl⟩ := EStateM.Result.ok.inj hx
    exact ⟨h, h⟩
  error _ := nofun

/-- A change to the session maintains an invariant that holds of what it makes. -/
theorem modifyGet {f : Session → α × Session}
    (hf : ∀ session, I session → I (f session).2 ∧ J (f session).1) :
    Maintains I J (MonadStateOf.modifyGet f : Host α) where
  ok h hx := by
    obtain ⟨rfl, rfl⟩ := EStateM.Result.ok.inj hx
    exact hf _ h
  error _ := nofun

/-- **One part after the other.** -/
theorem bind {x : Host α} {f : α → Host β} (hx : Maintains I J x)
    (hf : ∀ a, J a → Maintains I K (f a)) : Maintains I K (x >>= f) where
  ok := by
    intro session b after h hresult
    simp only [Bind.bind, EStateM.bind] at hresult
    cases hfirst : x session with
    | ok a between =>
      rw [hfirst] at hresult
      obtain ⟨hbetween, ha⟩ := hx.ok h hfirst
      exact (hf a ha).ok hbetween hresult
    | error e between =>
      rw [hfirst] at hresult
      cases hresult
  error := by
    intro session e after h hresult
    simp only [Bind.bind, EStateM.bind] at hresult
    cases hfirst : x session with
    | ok a between =>
      rw [hfirst] at hresult
      obtain ⟨hbetween, ha⟩ := hx.ok h hfirst
      exact (hf a ha).error hbetween hresult
    | error e between =>
      rw [hfirst] at hresult
      cases hresult
      exact hx.error h hfirst

/-- Changing the session and going on. -/
theorem modifyGet_bind {f : Session → α × Session} {k : α → Host β}
    (hf : ∀ session, I session → I (f session).2) (hk : ∀ a, Maintains I K (k a)) :
    Maintains I K (MonadStateOf.modifyGet f >>= k) :=
  bind (J := fun _ => True) (modifyGet fun session h => ⟨hf session h, trivial⟩) fun a _ => hk a

end Maintains

/-- Looking up a scope maintains every invariant. -/
theorem scope_maintains (name : ScopeName) : Maintains I (fun _ => True) (scope name) := by
  refine .bind .get fun session _ => ?_
  dsimp only
  split
  · exact .pure trivial
  · exact .throw _

/-- So does looking up a slot, and the value in it is one of the session's. -/
theorem slot_maintains {V : Value → Prop}
    (hslots : ∀ session, I session → ∀ v ∈ session.slots.values, V v) (name : String) :
    Maintains I V (slot name) := by
  refine .bind .get fun session h => ?_
  split
  · next v hv => exact .pure (hslots session h v (Table.mem_values_of_get? hv))
  · exact .throw _

end Host

namespace Provenance

open Host

variable {o : Provenance} {config : Config} {session : Session} {s : ScopeId}

/-- The global bindings are no user procedures. -/
theorem satisfies_of_mem_globalBindings (o : Provenance) (v : Value)
    (hv : v ∈ globalBindings.values) : v.Satisfies o.Made :=
  Value.satisfies_of_procedure?_eq_none (procedure?_of_mem_globalBindings v hv)

/-! ### Sessions -/

/-- The session has the settings, and all user procedures in it are of the kind. -/
structure Holds (o : Provenance) (config : Config) (session : Session) : Prop where
  config : session.config = config
  store : session.store.Governs Set.univ o.Made
  slots : ∀ v ∈ session.slots.values, v.Satisfies o.Made

namespace Holds

/-- A session keeps to a provenance when scopes are taken out or emptied. -/
theorem of_sub {store : Store} (h : o.Holds config session)
    (hsub : ∀ {s scope}, store.scope? s = some scope →
      ∃ found, session.store.scope? s = some found ∧ (scope = found ∨ scope = found.emptied)) :
    o.Holds config { session with store } :=
  ⟨h.config, h.store.of_sub hsub, h.slots⟩

/-- So it does when it settles. -/
theorem settle (h : o.Holds config session) : o.Holds config session.settle :=
  h.of_sub fun hs => ⟨_, Store.scope?_of_settle hs, .inl rfl⟩

/-- So it does when scopes are emptied and it settles. -/
theorem emptyAll_settle (h : o.Holds config session) (listed roots : List ScopeId) :
    o.Holds config { session with store := (session.store.emptyAll listed).settle roots } :=
  h.of_sub fun hs => Store.eq_or_emptied_of_emptyAll (Store.scope?_of_settle hs)

/-- So it does when a tree is released. -/
theorem release (h : o.Holds config session) (s : ScopeId) (held : List Referent) :
    o.Holds config (session.release s held).2 := by
  rw [Session.release_eq]
  refine h.of_sub fun hs => ?_
  obtain ⟨found, hfound, hsame⟩ := Store.eq_or_emptied_of_release hs
  exact ⟨found, Store.scope?_of_settle hfound, hsame⟩

/-- What keeps to the discipline can be run. -/
theorem run {J : Store → α → Prop} {action : Action α} (h : o.Holds config session)
    (hkeeps : o.discipline.Keeps s J action session.store) :
    o.Holds config (session.run action).2 ∧
      ∀ {u}, (session.run action).1 = .ok u → J (session.run action).2.store u := by
  rw [Session.run_eq]
  exact ⟨⟨h.config, hkeeps.inv, h.slots⟩, hkeeps.result⟩

/-- Evaluating a text makes procedures of the kind only, and so is its value, if it is one. -/
theorem evaluateText (h : o.Holds config session) {settings : Config} {text : String}
    (htext : ∀ tree, read settings.comments text = .ok tree → o.Tree tree) (s : ScopeId) :
    o.Holds config (session.evaluateText settings s text).2 ∧
      ∀ v, (session.evaluateText settings s text).1 = .ok v → v.Satisfies o.Made := by
  cases hread : read settings.comments text with
  | error fault =>
    unfold Session.evaluateText
    rw [hread]
    exact ⟨h, nofun⟩
  | ok tree =>
    obtain ⟨hafter, hresult⟩ := h.run <|
      o.discipline.eval_keeps settings.maxDepth settings.maxDepth.toNat s h.store trivial
        (htext tree hread)
    rw [Session.evaluateText_of_read hread]
    exact ⟨hafter.release _ _, fun v => hresult⟩

end Holds

/-! ### What steps bring -/

/-- A value as the host describes it is no new procedure, or one of the kind. -/
def CoversSource (o : Provenance) : ValueSource → Prop
  | .procedure name params body _ => ∀ id s, o.Made ⟨id, name, params, body, s⟩
  | _ => True

/-- The trees and procedures that a step brings have the properties. -/
def Covers (o : Provenance) (config : Config) : Step → Prop
  | .evaluate text _ _ => ∀ tree, read config.comments text = .ok tree → o.Tree tree
  | .evaluateDefault text _ _ => ∀ tree, read ({} : Config).comments text = .ok tree → o.Tree tree
  | .evaluateTree tree _ _ _ => o.Tree tree
  | .special form operands _ _ _ => o.Tree (.list (.atom form.keyword :: operands))
  | .define _ _ source | .assign _ _ source | .keep source _ => o.CoversSource source
  | _ => True

/-- A procedure that the host is told is of the kind. -/
def Tells (o : Provenance) (answer : Answer) : Prop :=
  ∀ v, answer = .value v → v.Satisfies o.Made

/-- A confirmation shows no procedure. -/
theorem tells_confirm (result : Except Error Unit) : o.Tells (confirm result) := by
  cases result <;> exact nofun

/-! ### Steps -/

/-- Looking up a procedure keeps to a provenance. -/
theorem procedureIn_maintains (name : String) :
    Maintains (o.Holds config) (fun _ => True) (procedureIn name) := by
  refine .bind (slot_maintains (fun session h => h.slots) name) fun v _ => ?_
  split
  · exact .pure trivial
  · exact .throw _

/-- So does taking a handle. -/
theorem keepHandle_maintains (name : String) (s : ScopeId) :
    Maintains (o.Holds config) (fun _ => True) (keepHandle name s) :=
  .modifyGet fun _ h => ⟨⟨h.config, h.store, h.slots⟩, trivial⟩

/-- So does keeping a result, if it is of the kind. -/
theorem yield_maintains (slotName : Option String) {result : Except Error Value}
    (hresult : ∀ v, result = .ok v → v.Satisfies o.Made) :
    Maintains (o.Holds config) o.Tells (yield slotName result) := by
  cases result with
  | error e => exact .pure nofun
  | ok v =>
    have hkeep : Maintains (o.Holds config) (fun _ => True) (keepValue slotName v) := by
      cases slotName with
      | none => exact .pure trivial
      | some n =>
        refine .modifyGet fun session h => ⟨⟨h.config, h.store, fun w hw => ?_⟩, trivial⟩
        rcases Table.mem_values_insert hw with rfl | hw
        · exact hresult w rfl
        · exact h.slots w hw
    refine .bind hkeep fun _ _ => .pure ?_
    rintro _ ⟨⟩
    exact hresult v rfl

/-- Something new is made in the store. -/
theorem make_maintains {J : α → Prop} {change : Store → α × Store}
    (hchange : ∀ store : Store, store.Governs Set.univ o.Made →
      (change store).2.Governs Set.univ o.Made ∧ J (change store).1) :
    Maintains (o.Holds config) J (make change) := by
  refine .modifyGet fun session h => ?_
  obtain ⟨hstore, hmade⟩ := hchange session.store h.store
  exact ⟨⟨h.config, hstore, h.slots⟩, hmade⟩

/-- Making a scope keeps to a provenance, if what is bound in it is of the kind. -/
theorem newScope_maintains (parent : Option ScopeId) (bindings : Table Value)
    (hbindings : ∀ v ∈ bindings.values, v.Satisfies o.Made) :
    Maintains (o.Holds config) (fun _ => True) (make (·.newScope parent bindings)) :=
  make_maintains fun _ h => ⟨h.newScope (fun _ _ => Set.mem_univ _) hbindings, trivial⟩

/-- So does making a value from a description that is covered. -/
theorem value_maintains (source : ValueSource) :
    Maintains (o.Holds config) (fun v => o.CoversSource source → v.Satisfies o.Made)
      (value source) := by
  have hplain {v : Value} (hv : v.procedure? = none) {P : Prop} : P → v.Satisfies o.Made :=
    fun _ => Value.satisfies_of_procedure?_eq_none hv
  cases source with
  | number n => exact .pure (hplain rfl)
  | boolean b => exact .pure (hplain rfl)
  | builtin name =>
    rw [value]
    generalize Primitive.all.find? (·.name == name) = found
    cases found with
    | none => exact .throw _
    | some p => exact .pure (hplain rfl)
  | slot name => exact slot_maintains (fun session h v hv _ => h.slots v hv) name
  | procedure name params body scopeName =>
    have hmake (s : ScopeId) : Maintains (o.Holds config)
        (fun p => (∀ id s, o.Made ⟨id, name, params, body, s⟩) → o.Made p)
        (make (·.newProcedure name params body s)) :=
      make_maintains fun _ h => ⟨h.newProcedure .., fun hmade => hmade ..⟩
    have hpure (p : Procedure) (hp : (∀ id s, o.Made ⟨id, name, params, body, s⟩) → o.Made p) :
        Maintains (o.Holds config)
          (fun v => o.CoversSource (.procedure name params body scopeName) → v.Satisfies o.Made)
          (Pure.pure (Value.procedure p)) := by
      refine .pure fun hcovers => ?_
      rintro _ ⟨⟩
      exact hp hcovers
    unfold value
    cases scopeName with
    | some n => exact .bind (scope_maintains n) fun s _ => .bind (hmake s) hpure
    | none =>
      have hscope : Maintains (o.Holds config) (fun _ => True) (make (·.newScope none {})) :=
        newScope_maintains none {} fun _ hv => absurd hv List.not_mem_nil
      exact .bind hscope fun s _ => .bind (hmake s) hpure

/-- A value is put under a name by the host. -/
theorem put_maintains (form : SpecialForm) (s : ScopeId) (name : String) {v : Value}
    (hv : v.Satisfies o.Made) :
    Maintains (o.Holds config) (fun _ => True) (Host.run (form.put s name v)) := by
  refine .modifyGet fun session h => ⟨?_, trivial⟩
  unfold Session.run
  rcases form.put_cases s name v session.store with ⟨-, e, hput⟩ | ⟨-, t, hput⟩
  · simp only [hput]
    exact h
  · simp only [hput]
    exact ⟨h.config, h.store.bind hv t name, h.slots⟩

/-- **A step maintains what it has been covered for.** -/
theorem perform_maintains {step : Step} (hstep : o.Covers config step) :
    Maintains (o.Holds config) o.Tells (perform step) := by
  cases step with
  | evaluate text scopeName slotName =>
    refine .bind (scope_maintains scopeName) fun s _ => .bind ?_ fun _ => yield_maintains slotName
    refine .modifyGet fun session h => ?_
    exact h.evaluateText (h.config ▸ hstep) s
  | evaluateDefault text scopeName slotName =>
    refine .bind (scope_maintains scopeName) fun s _ => .bind ?_ fun _ => yield_maintains slotName
    exact .modifyGet fun session h => h.evaluateText hstep s
  | evaluateTree tree scopeName limit slotName =>
    refine .bind (scope_maintains scopeName) fun s _ => .bind ?_ fun _ => yield_maintains slotName
    refine .modifyGet fun session h => ?_
    obtain ⟨hafter, hresult⟩ :=
      h.run (o.discipline.eval_keeps limit limit.toNat s h.store trivial hstep)
    exact ⟨hafter, fun _ => hresult⟩
  | special form operands scopeName depth slotName =>
    refine .bind (scope_maintains scopeName) fun s _ => .bind ?_ fun _ => yield_maintains slotName
    refine .modifyGet fun session h => ?_
    have heval : o.discipline.EvalKeeps s (eval depth.limit depth.deeper.remaining s) :=
      o.discipline.eval_keeps depth.limit depth.deeper.remaining s
    obtain ⟨hafter, hresult⟩ := h.run (Discipline.run_keeps heval h.store trivial hstep)
    exact ⟨hafter, fun _ => hresult⟩
  | read text =>
    refine .bind .get fun session _ => ?_
    split
    · exact .pure nofun
    · exact .pure nofun
  | config => exact .bind .get fun _ _ => .pure nofun
  | listing scopeName =>
    exact .bind (scope_maintains scopeName) fun _ _ => .bind .get fun _ _ => .pure nofun
  | newScope name parentName =>
    have hparent : Maintains (o.Holds config) (fun _ => True) (parentName.mapM scope) := by
      cases parentName with
      | none => exact .pure trivial
      | some parentName => exact .bind (scope_maintains parentName) fun _ _ => .pure trivial
    refine .bind hparent fun parent _ => .bind (newScope_maintains parent {} nofun) fun s _ => ?_
    exact .bind (keepHandle_maintains name s) fun _ _ => .pure nofun
  | newGlobal name =>
    refine .bind (newScope_maintains none _ o.satisfies_of_mem_globalBindings) fun s _ => ?_
    exact .bind (keepHandle_maintains name s) fun _ _ => .pure nofun
  | keepScope name scopeName =>
    refine .bind (scope_maintains scopeName) fun s _ => ?_
    exact .bind (keepHandle_maintains name s) fun _ _ => .pure nofun
  | definingScope name slotName =>
    refine .bind (procedureIn_maintains slotName) fun p _ => ?_
    exact .bind (keepHandle_maintains name p.scope) fun _ _ => .pure nofun
  | dropHandle =>
    refine .modifyGet_bind (fun session h => ?_) fun _ => .pure nofun
    exact ⟨h.config, h.store, h.slots⟩
  | parent scopeName name =>
    refine .bind (scope_maintains scopeName) fun s _ => .bind .get fun session _ => ?_
    split
    · exact .bind (keepHandle_maintains name _) fun _ _ => .pure nofun
    · exact .pure nofun
  | get scopeName name slotName =>
    refine .bind (scope_maintains scopeName) fun s _ => .bind .get fun session h => ?_
    split
    · next v hv =>
      refine yield_maintains slotName fun w hw => ?_
      exact Except.ok.inj hw ▸ h.store.lookup (Set.mem_univ s) hv
    · exact .pure nofun
  | define scopeName name source =>
    refine .bind (scope_maintains scopeName) fun s _ => ?_
    refine .bind (value_maintains source) fun v hv => ?_
    refine .bind (put_maintains .define s name (hv hstep)) fun result _ => ?_
    exact .pure (tells_confirm result)
  | assign scopeName name source =>
    refine .bind (scope_maintains scopeName) fun s _ => ?_
    refine .bind (value_maintains source) fun v hv => ?_
    refine .bind (put_maintains .set s name (hv hstep)) fun result _ => ?_
    exact .pure (tells_confirm result)
  | bindsLocally scopeName =>
    exact .bind (scope_maintains scopeName) fun _ _ => .bind .get fun _ _ => .pure nofun
  | isRoot scopeName =>
    exact .bind (scope_maintains scopeName) fun _ _ => .bind .get fun _ _ => .pure nofun
  | sameScope x y =>
    exact .bind (scope_maintains x) fun _ _ => .bind (scope_maintains y) fun _ _ => .pure nofun
  | clear scopeName =>
    refine .bind (scope_maintains scopeName) fun s _ => ?_
    refine .modifyGet_bind (fun session h => ?_) fun _ => .pure nofun
    exact h.emptyAll_settle _ _
  | release scopeName =>
    refine .bind (scope_maintains scopeName) fun s _ => ?_
    exact .modifyGet_bind (fun session h => h.release s []) fun _ => .pure nofun
  | register scopeName builtin =>
    refine .bind (scope_maintains scopeName) fun s _ => ?_
    refine .modifyGet_bind (fun session h => ?_) fun _ => .pure nofun
    exact ⟨h.config, h.store.bind (Value.satisfies_of_procedure?_eq_none rfl) s _, h.slots⟩
  | keep source slotName =>
    refine .bind (value_maintains source) fun v hv => yield_maintains _ fun w hw => ?_
    exact Except.ok.inj hw ▸ hv hstep
  | dropSlot slotName =>
    refine .modifyGet_bind (fun session h => ?_) fun _ => .pure nofun
    exact ⟨h.config, h.store, fun v hv => h.slots v (Table.mem_values_erase hv)⟩
  | watch slotName =>
    refine .bind (procedureIn_maintains slotName) fun _ _ => ?_
    refine .modifyGet_bind (fun session h => ?_) fun _ => .pure nofun
    exact ⟨h.config, h.store, h.slots⟩
  | isAlive name =>
    refine .bind .get fun session _ => ?_
    split
    · exact .bind .get fun _ _ => .pure nofun
    · exact .throw _
  | equal x y =>
    exact .bind (value_maintains x) fun _ _ => .bind (value_maintains y) fun _ _ => .pure nofun
  | convert source kind =>
    refine .bind (value_maintains source) fun v _ => ?_
    cases kind with
    | number => cases v.toNumber <;> exact .pure nofun
    | boolean => cases v.toBoolean <;> exact .pure nofun
  | procedureName source => exact .bind (value_maintains source) fun _ _ => .pure nofun
  | inspectValue source => exact .bind (value_maintains source) fun _ _ => .pure nofun
  | inspectScope scopeName =>
    exact .bind (scope_maintains scopeName) fun _ _ => .bind .get fun _ _ => .pure nofun
  | dropInterpreter =>
    refine .modifyGet_bind (fun session h => ?_) fun _ => .pure nofun
    dsimp only
    split
    · next s _ =>
      have hcleared := h.emptyAll_settle (session.store.treeOf s) session.roots
      exact ⟨hcleared.config, hcleared.store, hcleared.slots⟩
    · exact h

/-- **A covered step keeps to the provenance, and so does its answer.** -/
theorem Holds.step {step : Step} (h : o.Holds config session) (hstep : o.Covers config step) :
    o.Holds config (session.step step).2 ∧ o.Tells (session.step step).1 := by
  have hperform := perform_maintains hstep
  unfold Session.step
  cases hresult : perform step session with
  | ok answer after =>
    obtain ⟨hafter, hanswer⟩ := hperform.ok h hresult
    exact ⟨hafter.settle, hanswer⟩
  | error reason after => exact ⟨(hperform.error h hresult).settle, nofun⟩

/-- **All procedures that come up in a script are of the kind.** -/
theorem Holds.steps {script : List Step} (h : o.Holds config session)
    (hscript : ∀ step ∈ script, o.Covers config step) :
    o.Holds config (session.steps script).2 ∧
      ∀ answer ∈ (session.steps script).1, o.Tells answer := by
  induction script generalizing session with
  | nil => exact ⟨h, fun _ hanswer => absurd hanswer List.not_mem_nil⟩
  | cons first rest ih =>
    obtain ⟨hfirst, hrest⟩ := List.forall_mem_cons.1 hscript
    obtain ⟨hafter, hanswer⟩ := h.step hfirst
    obtain ⟨hsession, hanswers⟩ := ih hafter hrest
    exact ⟨hsession, List.forall_mem_cons.2 ⟨hanswer, hanswers⟩⟩

/-- A new session has no user procedure. -/
theorem holds_new (o : Provenance) (config : Config) : o.Holds config (Session.new config) where
  config := rfl
  store := by
    have hempty : ({} : Store).Governs Set.univ o.Made :=
      ⟨fun _ => Set.mem_univ _, fun _ _ _ => Set.mem_univ _, fun _ hscope => by
        rw [Store.scope?_of_nextScope_le (Nat.zero_le _)] at hscope
        cases hscope⟩
    exact hempty.newScope (fun _ _ => Set.mem_univ _) o.satisfies_of_mem_globalBindings
  slots _ hv := absurd hv List.not_mem_nil

end Provenance

/-! ### Procedures that come up -/

namespace Session

/-- A user procedure comes up in a session: it is there at the end, or the host was told it. -/
def ComesUp (config : Config) (script : List Step) (p : Procedure) : Prop :=
  ((new config).steps script).2.HasProcedure p ∨
    .value (.procedure p) ∈ ((new config).steps script).1

/-- **Whatever comes up has its properties from what the host brought.** -/
theorem ComesUp.made {o : Provenance} {config : Config} {script : List Step} {p : Procedure}
    (h : ComesUp config script p) (hscript : ∀ step ∈ script, o.Covers config step) : o.Made p := by
  obtain ⟨hsession, hanswers⟩ := (o.holds_new config).steps hscript
  rcases h with (hslot | ⟨t, scope, hscope, hp⟩) | hanswer
  · exact hsession.slots _ hslot p rfl
  · exact hsession.store.procedures (Set.mem_univ t) hscope hp
  · exact hanswers _ hanswer _ rfl p rfl

end Session
end StrictScheme
