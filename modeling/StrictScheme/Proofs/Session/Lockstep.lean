/-
# Sessions in lockstep

Two sessions match on a set of scopes when the host keeps the same things in both and
their stores are the same on the set, which holds every scope that the host refers to.
What stands outside the set may differ.  In other words they mirror each other on all
names, under the renaming that changes nothing (`Session.matches_iff_mirrors`).

So every step that takes no scope out goes in lockstep on sessions that match, with the
same answer (`Host.perform_lockstep`).  Run next to itself on the set of all scopes,
such a step keeps a session sound.
-/

import StrictScheme.Proofs.Session.Mirror

namespace StrictScheme

/-- A region of the given scopes, whatever the serial numbers of procedures. -/
def Region.of (scopes : Set ScopeId) : Region :=
  ⟨scopes, Set.univ, False⟩

/-- A region of some scopes admits all serial numbers. -/
theorem Region.admits_of (scopes : Set ScopeId) (store : Store) (id : ProcedureId) :
    (Region.of scopes).Admits store id :=
  ⟨Set.mem_univ id, False.elim⟩

/-- Keeping all numbers leaves holdings. -/
@[simp] theorem Holdings.rename_same (held : Holdings) : held.rename .same = held := by
  have hvalues : Value.rename .same = fun v => v := funext Value.rename_same
  have hnumbers (table : Table Nat) : table.map (fun n => n) = table := Table.map_id table
  simp only [rename, hvalues, Table.map_id]
  exact Holdings.ext Option.map_id' (hnumbers _) rfl (hnumbers _)

/-- Keeping all numbers leaves an answer. -/
@[simp] theorem Answer.rename_same (answer : Answer) : answer.rename .same = answer := by
  cases answer <;> simp [rename]

namespace Session

/-- The host keeps the same things, and the stores are the same on a set of scopes that holds
what the host refers to. -/
structure Matches (scopes : Set ScopeId) (a b : Session) : Prop where
  config : a.config = b.config
  global : a.global = b.global
  handles : a.handles = b.handles
  slots : a.slots = b.slots
  watches : a.watches = b.watches
  store : Store.Corresponds .same (Region.of scopes) a.store b.store
  global_mem : ∀ s, a.global = some s → s ∈ scopes ∧ a.store.Has s
  handles_mem : ∀ s ∈ a.handles.values, s ∈ scopes ∧ a.store.Has s
  slots_mem : ∀ v ∈ a.slots.values, v.IsIn (Region.of scopes) a.store

/-- Sessions that match, and what may happen to the store of the first one. -/
def coupling (scopes : Set ScopeId) : Coupling Session Session where
  Related := Matches scopes
  Allowed a a' := a.store.Extends (Region.of scopes) a'.store
  refl a := (Store.correspondence .same (Region.of scopes)).refl a.store
  trans h h' := (Store.correspondence .same (Region.of scopes)).trans h h'

variable {scopes : Set ScopeId} {a b : Session} {s : ScopeId} {v : Value}

/-- The roots of a session are its global scope, its handles, and the scopes of procedures in
slots. -/
theorem mem_roots :
    s ∈ a.roots ↔ a.global = some s ∨ s ∈ a.handles.values ∨
      ∃ v ∈ a.slots.values, s ∈ captured v := by
  simp only [roots, List.mem_append, Option.mem_toList, List.mem_flatMap, or_assoc]

/-- What the host refers to are its roots. -/
theorem map_scopeOf_holders (session : Session) :
    session.holders.map Referent.scopeOf = session.roots := by
  have hslots : (session.slots.values.filterMap Value.procedure?).map Procedure.scope =
      session.slots.values.flatMap captured := by
    induction session.slots.values with
    | nil => rfl
    | cons v rest ih =>
      rw [List.flatMap_cons, ← ih, captured]
      cases hv : v.procedure? <;> simp [hv]
  rw [holders, roots, List.map_append, List.map_map, List.map_map, ← hslots]
  exact congrArg (· ++ _) (List.map_id _)

/-- The scopes of what is held besides and by the host. -/
theorem map_scopeOf_append_holders (held : List Referent) (session : Session) :
    (held ++ session.holders).map Referent.scopeOf =
      held.map Referent.scopeOf ++ session.roots := by
  rw [List.map_append, map_scopeOf_holders]

/-- Everything that the host refers to is in the set, and exists. -/
theorem Matches.roots_mem (h : a.Matches scopes b) (hs : s ∈ a.roots) :
    s ∈ scopes ∧ a.store.Has s := by
  rcases mem_roots.1 hs with hs | hs | ⟨v, hv, hs⟩
  · exact h.global_mem s hs
  · exact h.handles_mem s hs
  · obtain ⟨p, hp, rfl⟩ := mem_captured.1 hs
    obtain ⟨hregion, hhas, -⟩ := h.slots_mem v hv p hp
    exact ⟨hregion, hhas⟩

/-- Other stores that correspond, the first one with no scope taken out. -/
theorem Matches.setStore (h : a.Matches scopes b) {sa sb : Store}
    (hstore : Store.Corresponds .same (Region.of scopes) sa sb)
    (hhas : ∀ {s}, a.store.Has s → sa.Has s) :
    ({ a with store := sa } : Session).Matches scopes { b with store := sb } :=
  { h with
    store := hstore
    global_mem := fun s hs => (h.global_mem s hs).imp_right hhas
    handles_mem := fun s hs => (h.handles_mem s hs).imp_right hhas
    slots_mem := fun v hv p hp =>
      ⟨(h.slots_mem v hv p hp).1, hhas (h.slots_mem v hv p hp).2.1, Region.admits_of ..⟩ }

/-! ### Matching is mirroring -/

/-- All names of a host. -/
def everything (_ : HostName) : Bool :=
  true

/-- All names together cover all that a host has. -/
theorem holdings_everything (session : Session) :
    session.holdings everything =
      ⟨session.global, session.handles, session.slots, session.watches⟩ :=
  Holdings.ext rfl (Table.only_true _) (Table.only_true _) (Table.only_true _)

/-- **Sessions match if and only if they mirror each other on all names**, under the renaming
that changes nothing. -/
theorem matches_iff_mirrors :
    a.Matches scopes b ↔ Mirrors everything .same (Region.of scopes) a b := by
  constructor
  · intro h
    refine ⟨h.config.symm, ?_, ⟨fun s hs => h.roots_mem ?_, fun id _ => Region.admits_of ..⟩,
      h.store⟩
    · rw [Holdings.rename_same, holdings_everything, holdings_everything, h.global, h.handles,
        h.slots, h.watches]
    · rwa [holdings_everything] at hs
  · rintro ⟨hconfig, hheld, hisIn, hstore⟩
    rw [Holdings.rename_same, holdings_everything, holdings_everything] at hheld
    rw [holdings_everything] at hisIn
    obtain ⟨hglobal, hhandles, hslots, hwatches⟩ := Holdings.mk.inj hheld
    exact ⟨hconfig.symm, hglobal.symm, hhandles.symm, hslots.symm, hwatches.symm, hstore,
      fun s hs => hisIn.roots s (Holdings.mem_roots.2 (.inl hs)),
      fun s hs => hisIn.roots s (Holdings.mem_roots.2 (.inr (.inl hs))),
      fun v hv => hisIn.slot hv⟩

/-- What goes in lockstep on sessions that mirror each other does so on sessions that match. -/
theorem lockstep_of_mirrors {α β : Type} {x : Host α} {y : Host β} {J K : Session → α → β → Prop}
    (h : Lockstep (mirroring everything .same (Region.of scopes)) J x y a b)
    (hJ : ∀ session u v, J session u v → K session u v) :
    Lockstep (coupling scopes) K x y a b :=
  h.weaken matches_iff_mirrors.2 Within.store hJ

/-- Outcomes that are related without a renaming are the same. -/
theorem outcome_same {region : Region} {store : Store} {x y : Except Error Value} :
    Outcome (Value.Transported .same region store) x y ↔
      x = y ∧ ∀ v, x = .ok v → v.IsIn region store := by
  cases x with
  | error e =>
    cases y with
    | error e' => simp [Outcome]
    | ok v => simp [Outcome]
  | ok u =>
    cases y with
    | error e' => simp [Outcome]
    | ok v => simp [Outcome, Value.Transported, eq_comm]

/-- Evaluating a tree in sessions that match: they still do, and the results are the same. -/
theorem Matches.run_evaluate (h : a.Matches scopes b) (limit : UInt64) (tree : SExpr)
    (hs : s ∈ scopes) (ha : a.store.Has s) :
    (a.run (evaluate limit s tree)).2.Matches scopes (b.run (evaluate limit s tree)).2 ∧
      a.store.Extends (Region.of scopes) (a.run (evaluate limit s tree)).2.store ∧
      (a.run (evaluate limit s tree)).1 = (b.run (evaluate limit s tree)).1 ∧
      ∀ v, (a.run (evaluate limit s tree)).1 = .ok v →
        v.IsIn (Region.of scopes) (a.run (evaluate limit s tree)).2.store := by
  obtain ⟨hmirrors, hle, houtcome⟩ :=
    (matches_iff_mirrors.1 h).run_evaluate limit tree ⟨hs, ha⟩
  exact ⟨matches_iff_mirrors.2 hmirrors, hle.store, outcome_same.1 houtcome⟩

/-! ### What a result holds -/

/-- What a host that asked for a value is told. -/
def answerOf : Except Error Value → Answer
  | .ok v => .value v
  | .error e => .failure e

/-- The scopes that a result keeps in existence. -/
def heldBy : Except Error Value → List ScopeId
  | .ok v => captured v
  | .error _ => []

/-- A result refers to scopes that it may refer to, and that exist. -/
theorem has_of_mem_heldBy {result : Except Error Value} {store : Store}
    (h : ∀ v, result = .ok v → v.IsIn (Region.of scopes) store) (hs : s ∈ heldBy result) :
    s ∈ scopes ∧ store.Has s := by
  cases result with
  | error e => exact absurd hs List.not_mem_nil
  | ok v =>
    obtain ⟨p, hp, rfl⟩ := mem_captured.1 hs
    obtain ⟨hregion, hhas, -⟩ := h v rfl p hp
    exact ⟨hregion, hhas⟩

/-- A value can still be used when what it captured is left. -/
theorem isIn_of_heldBy {v : Value} {store : Store}
    (h : ∀ t ∈ heldBy (.ok v), t ∈ scopes ∧ store.Has t) : v.IsIn (Region.of scopes) store := by
  intro p hp
  obtain ⟨hregion, hhas⟩ := h p.scope (mem_captured.2 ⟨p, hp, rfl⟩)
  exact ⟨hregion, hhas, Region.admits_of ..⟩

/-- What is held while a text is evaluated in a scope, and the scopes that this keeps in
existence. -/
theorem map_scopeOf_referents (s : ScopeId) (result : Except Error Value) :
    (.scope s :: referents result).map Referent.scopeOf = s :: heldBy result := by
  cases result with
  | error e => rfl
  | ok v => exact congrArg (s :: ·) List.map_map

/-- What evaluating a text does once the text is read. -/
theorem evaluateText_of_read {config : Config} {text : String} {tree : SExpr}
    (h : read config.comments text = .ok tree) :
    a.evaluateText config s text =
      ((a.run (evaluate config.maxDepth s tree)).1,
        ((a.run (evaluate config.maxDepth s tree)).2.release s
          (.scope s :: referents (a.run (evaluate config.maxDepth s tree)).1)).2) := by
  unfold evaluateText
  simp only [h]

end Session

/-! ### Steps -/

namespace Host

open Session

variable {scopes : Set ScopeId} {a b : Session}

/-- The same scope, one of the set that exists. -/
def SameScope (scopes : Set ScopeId) (session : Session) (s t : ScopeId) : Prop :=
  s = t ∧ s ∈ scopes ∧ session.store.Has s

/-- A scope is found under its name in both sessions, or in none. -/
theorem scope_lockstep (h : a.Matches scopes b) (name : ScopeName) :
    Lockstep (coupling scopes) (SameScope scopes) (scope name) (scope name) a b :=
  lockstep_of_mirrors (scope_mirrors (matches_iff_mirrors.1 h) rfl)
    fun _ _ _ hst => ⟨hst.1.symm, hst.2⟩

/-- The answer to a request for a value. -/
theorem yield_lockstep (h : a.Matches scopes b) (name : Option String)
    {x : Except Error Value} (hx : ∀ v, x = .ok v → v.IsIn (Region.of scopes) a.store) :
    Lockstep (coupling scopes) (fun _ u v => u = v) (yield name x) (yield name x) a b :=
  lockstep_of_mirrors
    (yield_mirrors (matches_iff_mirrors.1 h) (fun _ _ => rfl) (outcome_same.2 ⟨rfl, hx⟩))
    fun _ u _ huv => ((Answer.rename_same u).symm.trans huv.symm)

/-- Whether a procedure exists may be answered differently; nothing else is different then. -/
theorem isAlive_lockstep (h : a.Matches scopes b) (name : String) :
    Lockstep (coupling scopes) (fun _ u v => (∃ x, u = .truth x) ∧ ∃ y, v = .truth y)
      (perform (.isAlive name)) (perform (.isAlive name)) a b :=
  lockstep_of_mirrors (isAlive_mirrors (matches_iff_mirrors.1 h) rfl) fun _ _ _ => id

/-- **A step that takes no scope out goes in lockstep**, with the same answer. -/
theorem perform_lockstep {step : Step} (hstep : ¬ Reclaims step)
    (halive : ∀ name, step ≠ .isAlive name) (h : a.Matches scopes b) :
    Lockstep (coupling scopes) (fun _ u v => u = v) (perform step) (perform step) a b :=
  lockstep_of_mirrors
    (perform_mirrors hstep halive (fun _ _ => rfl) (matches_iff_mirrors.1 h))
    fun _ u _ huv => ((Answer.rename_same u).symm.trans huv.symm)

end Host
end StrictScheme
