/-
# Sound sessions

A session is sound when its store is, with its registries, and the host refers to
existing scopes only.
Every step keeps it so (`Session.Sound.step`), and after a step the store is settled:
nothing is left that nothing refers to (`Session.settled_step`).  Both hold of every
session that a host can come to (`Session.Reachable.sound`,
`Session.Reachable.settled`).
-/

import StrictScheme.Proofs.Session.Lockstep
import StrictScheme.Proofs.Store.Keep

namespace StrictScheme
namespace Session

variable {session a b : Session} {s : ScopeId}

/-- Every reference leads to a scope that exists, those of the host included. -/
structure Sound (session : Session) : Prop where
  store : session.store.Sound
  registered : session.store.Registered
  roots : ∀ s ∈ session.roots, session.store.Has s

/-- A sound session matches itself. -/
theorem Sound.matches_self (h : session.Sound) : session.Matches Set.univ session where
  config := rfl
  global := rfl
  handles := rfl
  slots := rfl
  watches := rfl
  store := h.store.corresponds_self
  global_mem s hs := ⟨Set.mem_univ s, h.roots s (mem_roots.2 (.inl hs))⟩
  handles_mem s hs := ⟨Set.mem_univ s, h.roots s (mem_roots.2 (.inr (.inl hs)))⟩
  slots_mem v hv p hp := ⟨Set.mem_univ _,
    h.roots _ (mem_roots.2 (.inr (.inr ⟨v, hv, mem_captured.2 ⟨p, hp, rfl⟩⟩))),
    Region.admits_of ..⟩

/-- A session that another one matches in full is sound. -/
theorem Matches.sound (h : a.Matches Set.univ b) (hreg : a.store.Registered) : a.Sound :=
  ⟨h.store.closed, hreg, fun _ hs => (h.roots_mem hs).2⟩

/-! ### Settling, releasing and clearing -/

/-- Settling keeps a session sound. -/
theorem Sound.settle (h : session.Sound) : session.settle.Sound where
  store := h.store.settle _
  registered := h.registered.settle _
  roots s hs := (Store.keeps_settle ..).has hs (h.roots s hs)

/-- What a release of a tree leaves, with what is held besides. -/
theorem release_eq (session : Session) (s : ScopeId) (held : List Referent) :
    session.release s held =
      let released := (session.store.settle (held.map Referent.scopeOf ++ session.roots)).release
        (held ++ session.holders) s
      (released.1, { session with store := released.2 }) := by
  rw [← map_scopeOf_append_holders]
  rfl

/-- A release keeps what the host reaches, and what is reached from what is held besides. -/
theorem Sound.keeps_release (h : session.Sound) (s : ScopeId) (held : List Referent) :
    Store.Keeps (held.map Referent.scopeOf ++ session.roots) session.store
      (session.release s held).2.store := by
  have hreleased := (h.store.settle (held.map Referent.scopeOf ++ session.roots)).keeps_release
    (h.registered.settle _) (held ++ session.holders) s
  rw [map_scopeOf_append_holders] at hreleased
  rw [release_eq]
  exact (Store.keeps_settle ..).trans hreleased

/-- **A release keeps a session sound**, and what is held besides stays in existence. -/
theorem Sound.release (h : session.Sound) (s : ScopeId) (held : List Referent)
    (hheld : ∀ t ∈ held.map Referent.scopeOf, session.store.Has t) :
    (session.release s held).2.Sound ∧
      ∀ t ∈ held.map Referent.scopeOf, (session.release s held).2.store.Has t := by
  have hkeeps := h.keeps_release s held
  refine ⟨⟨?_, ?_, fun t ht => ?_⟩, fun t ht => ?_⟩
  · exact (h.store.settle _).release _ _
  · exact (h.registered.settle _).release _ _
  · exact hkeeps.has (List.mem_append_right _ ht) (h.roots t ht)
  · exact hkeeps.has (List.mem_append_left _ ht) (hheld t ht)

/-- So does clearing a tree. -/
theorem Sound.clear (h : session.Sound) (s : ScopeId) :
    ({ session with store := session.store.clear session.roots s } : Session).Sound where
  store := (h.store.emptyAll _).settle _
  registered := (h.registered.emptyAll _).settle _
  roots s hs := (Store.keeps_settle ..).has hs ((Store.has_emptyAll ..).2 (h.roots s hs))

/-- The session after the interpreter is dropped. -/
def drop (session : Session) : Session :=
  match session.global with
  | some s =>
    { session with store := session.store.clear session.roots s, global := none }
  | none => session

/-- Dropping the interpreter keeps a session sound. -/
theorem Sound.drop (h : session.Sound) : session.drop.Sound := by
  unfold Session.drop
  cases hs : session.global with
  | none => exact h
  | some s =>
    have hclear := h.clear s
    refine ⟨hclear.store, hclear.registered, fun t ht => hclear.roots t ?_⟩
    exact mem_roots.2 (.inr ((mem_roots.1 ht).resolve_left nofun))

/-! ### Steps -/

/-- A sound session next to itself. -/
def soundness : Coupling Session Session where
  Related a b := a = b ∧ a.Sound
  Allowed _ _ := True
  refl _ := trivial
  trans _ _ := trivial

/-- What goes in lockstep with itself keeps a session sound. -/
theorem sound_of_lockstep {α : Type} {x : Host α} {J : Session → α → α → Prop}
    (hsound : session.Sound) (h : Lockstep (coupling Set.univ) J x x session session) :
    Lockstep soundness (fun _ _ _ => True) x x session session := by
  unfold Lockstep at h ⊢
  cases hx : x session with
  | ok u after =>
    simp only [hx] at h
    exact ⟨⟨rfl, Matches.sound h.1 (h.2.1.registered hsound.registered)⟩, trivial, trivial⟩
  | error e after =>
    simp only [hx] at h
    exact ⟨⟨rfl, Matches.sound h.1 (h.2.1.registered hsound.registered)⟩, trivial, rfl⟩

/-- A named scope is one that the host refers to. -/
theorem scope_mem_roots (h : session.Sound) (name : ScopeName) :
    Lockstep soundness (fun session s t => s = t ∧ s ∈ session.roots) (Host.scope name)
      (Host.scope name) session session := by
  unfold Host.scope
  refine Lockstep.get_bind ?_
  cases name with
  | global =>
    cases hs : session.global with
    | none => exact Lockstep.throw ⟨rfl, h⟩
    | some s => exact Lockstep.pure ⟨rfl, h⟩ ⟨rfl, mem_roots.2 (.inl hs)⟩
  | handle handle =>
    cases hs : session.handles.get? handle with
    | none => simp only [hs]; exact Lockstep.throw ⟨rfl, h⟩
    | some s =>
      simp only [hs]
      exact Lockstep.pure ⟨rfl, h⟩ ⟨rfl, mem_roots.2 (.inr (.inl (Table.mem_values_of_get? hs)))⟩

/-- The scope that the host means by a name. -/
def named? (session : Session) : ScopeName → Option ScopeId
  | .global => session.global
  | .handle handle => session.handles.get? handle

/-- What a name stands for is not up to the store. -/
theorem named?_setStore (session : Session) (store : Store) (name : ScopeName) :
    ({ session with store } : Session).named? name = session.named? name := by
  cases name <;> rfl

/-- What a change to the session comes to. -/
theorem modifyGet_eq {α : Type} (f : Session → α × Session) (session : Session) :
    (modifyGet f : Host α) session = .ok (f session).1 (f session).2 := rfl

/-- A scope is found just when the name stands for it. -/
theorem scope_eq_ok {name : ScopeName} :
    Host.scope name session = .ok s session ↔ session.named? name = some s := by
  have hscope : Host.scope name session =
      (match session.named? name with
        | some s => pure s
        | none => throw (.unknownScope name) : Host ScopeId) session := by
    cases name <;> rfl
  rw [hscope]
  cases session.named? name with
  | none => exact ⟨nofun, nofun⟩
  | some t => exact ⟨fun h => by cases h; rfl, fun h => by cases h; rfl⟩

/-- What a name stands for is a root. -/
theorem mem_roots_of_named? {name : ScopeName} (h : session.named? name = some s) :
    s ∈ session.roots := by
  cases name with
  | global => exact mem_roots.2 (.inl h)
  | handle handle => exact mem_roots.2 (.inr (.inl (Table.mem_values_of_get? h)))

/-- Evaluating a tree keeps the session sound. -/
theorem Sound.run_evaluate (h : session.Sound) (limit : UInt64) (tree : SExpr)
    (hs : session.store.Has s) : (session.run (evaluate limit s tree)).2.Sound := by
  obtain ⟨hmatches, hle, -⟩ := h.matches_self.run_evaluate limit tree (Set.mem_univ s) hs
  exact hmatches.sound (hle.registered h.registered)

/-- **Evaluating a text keeps the session sound**, and its value can be used afterwards. -/
theorem Sound.evaluateText (h : session.Sound) (config : Config) (text : String)
    (hs : session.store.Has s) :
    (session.evaluateText config s text).2.Sound ∧
      ∀ v, (session.evaluateText config s text).1 = .ok v →
        v.IsIn (Region.of Set.univ) (session.evaluateText config s text).2.store := by
  cases hread : read config.comments text with
  | error fault =>
    unfold Session.evaluateText
    rw [hread]
    exact ⟨h, nofun⟩
  | ok tree =>
    obtain ⟨-, hle, -, hvalue⟩ :=
      h.matches_self.run_evaluate config.maxDepth tree (Set.mem_univ s) hs
    rw [evaluateText_of_read hread]
    have hran := h.run_evaluate config.maxDepth tree hs
    generalize session.run (evaluate config.maxDepth s tree) = ran at hle hvalue hran ⊢
    obtain ⟨hsound, hheld⟩ := hran.release s (.scope s :: referents ran.1) <| by
      rw [map_scopeOf_referents]
      rintro t (_ | ⟨_, ht⟩)
      · exact hle.has hs
      · exact (has_of_mem_heldBy hvalue ht).2
    rw [map_scopeOf_referents] at hheld
    refine ⟨hsound, fun v hv => isIn_of_heldBy fun t ht => ⟨Set.mem_univ t, hheld t ?_⟩⟩
    change ran.1 = .ok v at hv
    exact List.mem_cons_of_mem _ (hv ▸ ht)

end Session

namespace Host

open Session

variable {session : Session}

/-- A request for a value that is found in a named scope, when what finds it keeps sessions
sound. -/
theorem evaluation_sound {find : Session → ScopeId → Except Error Value × Session}
    (hfind : ∀ {session s}, session.Sound → session.store.Has s → (find session s).2.Sound ∧
      ∀ v, (find session s).1 = .ok v → v.IsIn (Region.of Set.univ) (find session s).2.store)
    (h : session.Sound) (scopeName : ScopeName) (slotName : Option String) :
    Lockstep soundness (fun _ _ _ => True)
      (do
        let s ← scope scopeName
        yield slotName (← modifyGet fun session => find session s))
      (do
        let s ← scope scopeName
        yield slotName (← modifyGet fun session => find session s))
      session session := by
  refine Lockstep.bind (scope_mem_roots h scopeName) ?_
  rintro s _ session _ ⟨rfl, h⟩ - ⟨rfl, hs⟩
  obtain ⟨hsound, hvalue⟩ := hfind h (h.roots s hs)
  refine Lockstep.modifyGet_bind trivial ?_
  exact sound_of_lockstep hsound (yield_lockstep hsound.matches_self slotName hvalue)

/-- Asking for a scope changes nothing. -/
theorem scope_cases (name : ScopeName) (session : Session) :
    (∃ s, scope name session = .ok s session) ∨ ∃ e, scope name session = .error e session := by
  have hget {α : Type} (f : Session → Host α) : (get >>= f) session = f session session := rfl
  rw [scope, hget]
  cases name with
  | global =>
    cases session.global with
    | none => exact .inr ⟨.unknownScope .global, rfl⟩
    | some s => exact .inl ⟨s, rfl⟩
  | handle handle =>
    cases hs : session.handles.get? handle with
    | none => simp only [hs]; exact .inr ⟨.unknownScope (.handle handle), rfl⟩
    | some s => simp only [hs]; exact .inl ⟨s, rfl⟩

/-- Asking for the value in a slot changes nothing. -/
theorem slot_cases (name : String) (session : Session) :
    (∃ v, session.slots.get? name = some v ∧ slot name session = .ok v session) ∨
      ∃ e, slot name session = .error e session := by
  have hget {α : Type} (f : Session → Host α) : (get >>= f) session = f session session := rfl
  rw [slot, hget]
  cases session.slots.get? name with
  | none => exact .inr ⟨.unknownSlot name, rfl⟩
  | some v => exact .inl ⟨v, rfl, rfl⟩

/-- The tree of a named scope is released. -/
theorem perform_release {name : ScopeName} {s : ScopeId}
    (hname : scope name session = .ok s session) :
    perform (.release name) session =
      .ok (.released (session.release s []).1) (session.release s []).2 := by
  change (scope name >>= _) session = _
  simp only [bind, EStateM.bind, hname]
  rfl

/-- **Every step keeps a session sound**, before the session is settled. -/
theorem perform_sound (h : session.Sound) (step : Step) :
    Lockstep soundness (fun _ _ _ => True) (perform step) (perform step) session session := by
  by_cases hstep : Reclaims step
  · cases step with
    | evaluate text scopeName slotName =>
      exact evaluation_sound (fun h => h.evaluateText _ text) h scopeName slotName
    | evaluateDefault text scopeName slotName =>
      exact evaluation_sound (fun h => h.evaluateText {} text) h scopeName slotName
    | clear scopeName =>
      refine Lockstep.bind (scope_mem_roots h scopeName) ?_
      rintro s _ session _ ⟨rfl, h⟩ - ⟨rfl, -⟩
      exact Lockstep.modifyGet_bind trivial (Lockstep.pure ⟨rfl, h.clear _⟩ trivial)
    | release scopeName =>
      refine Lockstep.bind (scope_mem_roots h scopeName) ?_
      rintro s _ session _ ⟨rfl, h⟩ - ⟨rfl, -⟩
      exact Lockstep.modifyGet_bind trivial
        (Lockstep.pure ⟨rfl, (h.release s [] (by simp)).1⟩ trivial)
    | dropInterpreter => exact Lockstep.modifyGet_bind trivial (Lockstep.pure ⟨rfl, h.drop⟩ trivial)
    | _ => exact hstep.elim
  · by_cases halive : ∃ name, step = .isAlive name
    · obtain ⟨name, rfl⟩ := halive
      exact sound_of_lockstep h (isAlive_lockstep h.matches_self name)
    · exact sound_of_lockstep h
        (perform_lockstep hstep (fun name hname => halive ⟨name, hname⟩) h.matches_self)

end Host

namespace Session

variable {session : Session}

/-- Nothing is left in the store that neither the host nor an existing scope refers to. -/
def Settled (session : Session) : Prop :=
  session.store.HoldsUp session.roots {s | session.store.Has s}

/-- A session that has settled is settled. -/
theorem settled_settle (session : Session) : session.settle.Settled :=
  Store.holdsUp_settle session.roots session.store

/-- A settled session stays as it is, whatever is held besides. -/
theorem Settled.settle_store (h : session.Settled) (held : List ScopeId) :
    session.store.settle (held ++ session.roots) = session.store :=
  Store.settle_eq_self fun s hs => (h s hs).imp_right (.imp_left (List.mem_append_right held))

/-- Settling leaves a settled session as it is. -/
theorem Settled.settle_eq (h : session.Settled) : session.settle = session := by
  rw [settle, show session.store.settle session.roots = session.store from h.settle_store []]

/-- A procedure exists as long as a slot or an existing scope holds it. -/
theorem isAlive_eq_true {id : ProcedureId} :
    session.isAlive id = true ↔
      (∃ p, .procedure p ∈ session.slots.values ∧ p.id = id) ∨
      ∃ t scope, session.store.scope? t = some scope ∧ ∃ p ∈ scope.procedures, p.id = id := by
  unfold isAlive
  simp only [List.any_append, Bool.or_eq_true, List.any_eq_true, beq_iff_eq, List.mem_filterMap,
    Value.procedure?_eq_some, exists_eq_right]
  refine or_congr_right ⟨?_, ?_⟩
  · rintro ⟨p, hp, hid⟩
    obtain ⟨t, scope, ht, hp⟩ := (Store.mem_flatMap_scopes Scope.procedures).1 hp
    exact ⟨t, scope, ht, p, hp, hid⟩
  · rintro ⟨t, scope, ht, p, hp, hid⟩
    exact ⟨p, (Store.mem_flatMap_scopes Scope.procedures).2 ⟨t, scope, ht, hp⟩, hid⟩

/-- What keeps a session sound does so when the session is settled afterwards. -/
theorem sound_settle_of_lockstep {x : Host Answer}
    (h : Lockstep soundness (fun _ _ _ => True) x x session session) :
    (match x session with
      | .ok answer after => (answer, after.settle)
      | .error reason after => (Answer.refused reason, after.settle)).2.Sound := by
  unfold Lockstep at h
  cases hresult : x session with
  | ok answer after =>
    simp only [hresult] at h ⊢
    exact h.1.2.settle
  | error reason after =>
    simp only [hresult] at h ⊢
    exact h.1.2.settle

/-- **Every step keeps a session sound.** -/
theorem Sound.step (h : session.Sound) (step : Step) : (session.step step).2.Sound :=
  sound_settle_of_lockstep (Host.perform_sound h step)

/-- **Every step leaves a session settled.** -/
theorem settled_step (session : Session) (step : Step) : (session.step step).2.Settled := by
  unfold Session.step
  cases Host.perform step session <;> exact settled_settle _

/-! ### Sessions that a host can come to -/

/-- The sessions that some steps lead to from a new one. -/
inductive Reachable : Session → Prop
  | new (config : Config) : Reachable (new config)
  | step {session : Session} (h : Reachable session) (step : Step) :
      Reachable (session.step step).2

/-- The global scope is alone in a new session, and it refers to nothing. -/
theorem scope?_new {config : Config} {s : ScopeId} {scope : Scope}
    (h : (new config).store.scope? s = some scope) :
    s ∈ (new config).roots ∧ scope.outer = [] ∧ ∀ t, t ∉ scope.references := by
  have hscope : (({} : Store).push ⟨[], globalBindings⟩).scope? s = some scope := h
  rw [Store.scope?_push] at hscope
  split at hscope
  · next hs =>
    obtain rfl := Option.some.inj hscope
    subst hs
    refine ⟨mem_roots.2 (.inl rfl), rfl, fun t ht => ?_⟩
    rcases Scope.mem_references.1 ht with hp | ⟨p, hp, -⟩
    · exact absurd hp nofun
    · have hnone := Host.procedure?_of_mem_globalBindings _ (Scope.mem_procedures.1 hp)
      exact absurd hnone nofun
  · rw [Store.scope?_of_nextScope_le (Nat.zero_le s)] at hscope
    exact absurd hscope nofun

/-- A new session is sound. -/
theorem sound_new (config : Config) : (new config).Sound where
  store :=
    { outer := fun _ hscope => by
        obtain ⟨-, houter, -⟩ := scope?_new hscope
        rw [Scope.parent?, houter]
        rfl
      references := fun _ hscope ht => ((scope?_new hscope).2.2 _ ht).elim }
  registered := Store.registered_empty.newScope none globalBindings
  roots s hs := by
    rcases mem_roots.1 hs with hs | hs | ⟨v, hv, -⟩
    · obtain rfl := Option.some.inj hs
      exact ({} : Store).has_newScope none globalBindings
    · exact absurd hs List.not_mem_nil
    · exact absurd hv List.not_mem_nil

/-- It is settled, too. -/
theorem settled_new (config : Config) : (new config).Settled := by
  rintro s ⟨scope, hscope⟩
  exact ⟨⟨scope, hscope⟩, .inl (scope?_new hscope).1⟩

/-- **Every session that a host can come to is sound.** -/
theorem Reachable.sound (h : session.Reachable) : session.Sound := by
  induction h with
  | new config => exact sound_new config
  | step _ step ih => exact ih.step step

/-- **It is settled**, for each step ends with that. -/
theorem Reachable.settled (h : session.Reachable) : session.Settled := by
  cases h with
  | new config => exact settled_new config
  | step _ step => exact settled_step _ step

/-- Whole scripts lead to such sessions. -/
theorem Reachable.steps (h : session.Reachable) (script : List Step) :
    (session.steps script).2.Reachable := by
  induction script generalizing session with
  | nil => exact h
  | cons first rest ih => exact ih (h.step first)

end Session
end StrictScheme
