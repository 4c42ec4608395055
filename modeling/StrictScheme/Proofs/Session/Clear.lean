/-
# What clearing a tree leaves

Clearing empties every scope of a tree, and so does dropping the interpreter for the
tree of its global scope.  Afterwards a scope of the tree exists exactly if it is, or
lies around, a scope that the host has a handle to or that an existing user procedure
was defined in (`Session.Sound.exists_isAnchored`).

Nothing in an emptied tree holds on to a scope but the links from scopes to their
parents.  So once the handles into the tree are gone, and the procedures that were
defined in it, the tree is gone.  This takes that nothing is bound there in the
meantime: the steps that bind nothing leave every scope as it is or without bindings
(`Session.addsNone_step`).
-/

import StrictScheme.Proofs.Session.Release

namespace StrictScheme

/-! ### Stores without new bindings -/

/-- Every scope is as it was, or binds nothing. -/
structure Store.AddsNone (before after : Store) : Prop where
  scope? : ∀ {t scope}, after.scope? t = some scope →
    scope.bindings = {} ∨ before.scope? t = some scope

namespace Store

variable {a b c : Store} {roots listed : List ScopeId}

/-- Leaving a store adds no bindings. -/
theorem AddsNone.refl (store : Store) : AddsNone store store :=
  ⟨.inr⟩

/-- Two changes that add no bindings add none together. -/
theorem AddsNone.trans (h : AddsNone a b) (h' : AddsNone b c) : AddsNone a c where
  scope? ht := (h'.scope? ht).elim .inl h.scope?

/-- A new scope binds nothing at first. -/
theorem addsNone_newScope (store : Store) (parent : Option ScopeId) :
    AddsNone store (store.newScope parent {}).2 where
  scope? := by
    intro t scope ht
    rw [newScope, scope?_push] at ht
    split at ht
    · exact .inl (Option.some.inj ht ▸ rfl)
    · exact .inr ht

/-- Settling adds no bindings. -/
theorem addsNone_settle (store : Store) (roots : List ScopeId) :
    AddsNone store (store.settle roots) :=
  ⟨fun ht => .inr (scope?_of_settle ht)⟩

/-- Emptying scopes leaves them without bindings. -/
theorem addsNone_emptyAll (store : Store) (listed : List ScopeId) :
    AddsNone store (store.emptyAll listed) where
  scope? := by
    intro t scope ht
    obtain ⟨found, hfound, hsame⟩ := scope?_of_emptyAll ht
    rw [hsame]
    split
    · exact .inl rfl
    · exact .inr hfound

/-- So does clearing a tree. -/
theorem addsNone_clear (store : Store) (roots : List ScopeId) (s : ScopeId) :
    AddsNone store (store.clear roots s) :=
  (addsNone_emptyAll ..).trans (addsNone_settle ..)

/-- Dropping dead entries adds no bindings. -/
theorem addsNone_retain (store : Store) (s : ScopeId) : AddsNone store (store.retain s) :=
  ⟨fun ht => .inr ((scope?_retain ..).symm.trans ht)⟩

/-- Nor does a release. -/
theorem addsNone_release (store : Store) (held : List Referent) (s : ScopeId) :
    AddsNone store (store.release held s).2 := by
  rw [release_eq]
  exact (addsNone_retain ..).trans ((addsNone_emptyAll ..).trans (addsNone_settle ..))

end Store

/-! ### Steps that bind nothing -/

/-- Whether a step can bind a name. -/
def Step.binds : Step → Bool
  | .evaluate .. | .evaluateDefault .. | .evaluateTree .. | .special .. | .newGlobal _
  | .define .. | .assign .. | .register .. => true
  | _ => false

namespace Host

variable {α β : Type}

/-- A part of a step that binds nothing, wherever it starts and whether or not it fails. -/
structure Quiet (x : Host α) : Prop where
  ok : ∀ {session a after}, x session = .ok a after → session.store.AddsNone after.store
  error : ∀ {session e after}, x session = .error e after → session.store.AddsNone after.store

namespace Quiet

/-- A change to the session binds nothing if it adds no bindings to the store. -/
theorem modifyGet {f : Session → α × Session}
    (h : ∀ session : Session, session.store.AddsNone (f session).2.store) :
    Quiet (MonadStateOf.modifyGet f : Host α) where
  ok hx := (EStateM.Result.ok.inj hx).2 ▸ h _
  error := nofun

/-- Returning something binds nothing. -/
theorem pure (a : α) : Quiet (Pure.pure a : Host α) where
  ok hx := (EStateM.Result.ok.inj hx).2 ▸ .refl _
  error := nofun

/-- Nor does looking at the session. -/
theorem get : Quiet (MonadState.get : Host Session) where
  ok hx := (EStateM.Result.ok.inj hx).2 ▸ .refl _
  error := nofun

/-- Nor does refusing a request. -/
theorem throw (e : BadRequest) : Quiet (MonadExcept.throw e : Host α) where
  ok := nofun
  error hx := (EStateM.Result.error.inj hx).2 ▸ .refl _

/-- Parts that bind nothing bind nothing one after the other. -/
theorem bind {x : Host α} {f : α → Host β} (hx : Quiet x) (hf : ∀ a, Quiet (f a)) :
    Quiet (x >>= f) where
  ok := by
    intro session b after h
    simp only [Bind.bind, EStateM.bind] at h
    cases hfirst : x session with
    | ok a between =>
      rw [hfirst] at h
      exact (hx.ok hfirst).trans ((hf a).ok h)
    | error e between =>
      rw [hfirst] at h
      cases h
  error := by
    intro session e after h
    simp only [Bind.bind, EStateM.bind] at h
    cases hfirst : x session with
    | ok a between =>
      rw [hfirst] at h
      exact (hx.ok hfirst).trans ((hf a).error h)
    | error e between =>
      rw [hfirst] at h
      cases h
      exact hx.error hfirst

end Quiet

/-- Looking up a scope binds nothing. -/
theorem scope_quiet (name : ScopeName) : Quiet (scope name) := by
  refine .bind .get fun session => ?_
  dsimp only
  split
  · exact .pure _
  · exact .throw _

/-- Nor does looking up a slot. -/
theorem slot_quiet (name : String) : Quiet (slot name) := by
  refine .bind .get fun session => ?_
  split
  · exact .pure _
  · exact .throw _

/-- Nor does looking up a procedure in a slot. -/
theorem procedureIn_quiet (name : String) : Quiet (procedureIn name) := by
  refine .bind (slot_quiet name) fun v => ?_
  split
  · exact .pure _
  · exact .throw _

/-- Nor does taking a handle. -/
theorem keepHandle_quiet (name : String) (s : ScopeId) : Quiet (keepHandle name s) :=
  .modifyGet fun _ => .refl _

/-- Nor does keeping a result. -/
theorem yield_quiet (name : Option String) (x : Except Error Value) : Quiet (yield name x) := by
  cases x with
  | error e => exact .pure _
  | ok v =>
    refine .bind ?_ fun _ => .pure _
    cases name with
    | none => exact .pure _
    | some n => exact .modifyGet fun _ => .refl _

/-- Nor does making a scope. -/
theorem newScope_quiet (parent : Option ScopeId) : Quiet (make (·.newScope parent {})) :=
  .modifyGet fun session => Store.addsNone_newScope session.store parent

/-- Nor does making a value. -/
theorem value_quiet (source : ValueSource) : Quiet (value source) := by
  cases source with
  | number n => exact .pure _
  | boolean b => exact .pure _
  | builtin name =>
    rw [value]
    generalize Primitive.all.find? (·.name == name) = found
    cases found with
    | none => exact .throw _
    | some p => exact .pure _
  | slot name => exact slot_quiet name
  | procedure name params body scopeName =>
    have hmake (s : ScopeId) : Quiet (make (·.newProcedure name params body s)) :=
      .modifyGet fun session => ⟨.inr⟩
    unfold value
    cases scopeName with
    | some n => exact .bind (scope_quiet n) fun s => .bind (hmake s) fun _ => .pure _
    | none => exact .bind (newScope_quiet none) fun s => .bind (hmake s) fun _ => .pure _

/-- **A step that binds nothing** leaves every scope as it is or without bindings. -/
theorem perform_quiet {step : Step} (h : step.binds = false) : Quiet (perform step) := by
  cases step with
  | evaluate | evaluateDefault | evaluateTree | special | newGlobal | define | assign
  | register => cases h
  | read text =>
    refine .bind .get fun session => ?_
    split
    · exact .pure _
    · exact .pure _
  | config => exact .bind .get fun _ => .pure _
  | listing scopeName => exact .bind (scope_quiet scopeName) fun _ => .bind .get fun _ => .pure _
  | newScope name parentName =>
    have hparent : Quiet (parentName.mapM scope) := by
      cases parentName with
      | none => exact .pure _
      | some parentName => exact .bind (scope_quiet parentName) fun _ => .pure _
    refine .bind hparent fun parent => .bind (newScope_quiet parent) fun s => ?_
    exact .bind (keepHandle_quiet name s) fun _ => .pure _
  | keepScope name scopeName =>
    exact .bind (scope_quiet scopeName) fun s => .bind (keepHandle_quiet name s) fun _ => .pure _
  | definingScope name slotName =>
    refine .bind (procedureIn_quiet slotName) fun p => ?_
    exact .bind (keepHandle_quiet name p.scope) fun _ => .pure _
  | parent scopeName name =>
    refine .bind (scope_quiet scopeName) fun s => .bind .get fun session => ?_
    split
    · exact .bind (keepHandle_quiet name _) fun _ => .pure _
    · exact .pure _
  | get scopeName name slotName =>
    refine .bind (scope_quiet scopeName) fun s => .bind .get fun session => ?_
    split
    · exact yield_quiet slotName _
    · exact .pure _
  | bindsLocally scopeName =>
    exact .bind (scope_quiet scopeName) fun _ => .bind .get fun _ => .pure _
  | isRoot scopeName => exact .bind (scope_quiet scopeName) fun _ => .bind .get fun _ => .pure _
  | sameScope x y => exact .bind (scope_quiet x) fun _ => .bind (scope_quiet y) fun _ => .pure _
  | clear scopeName =>
    refine .bind (scope_quiet scopeName) fun s => .bind ?_ fun _ => .pure _
    exact .modifyGet fun session => Store.addsNone_clear ..
  | release scopeName =>
    refine .bind (scope_quiet scopeName) fun s => .bind ?_ fun _ => .pure _
    exact .modifyGet fun session => (Store.addsNone_settle ..).trans (Store.addsNone_release ..)
  | keep source slotName => exact .bind (value_quiet source) fun _ => yield_quiet _ _
  | dropHandle | dropSlot => exact .bind (.modifyGet fun _ => .refl _) fun _ => .pure _
  | watch slotName =>
    refine .bind (procedureIn_quiet slotName) fun _ => .bind ?_ fun _ => .pure _
    exact .modifyGet fun _ => .refl _
  | isAlive name =>
    refine .bind .get fun session => ?_
    split
    · exact .bind .get fun _ => .pure _
    · exact .throw _
  | equal x y => exact .bind (value_quiet x) fun _ => .bind (value_quiet y) fun _ => .pure _
  | convert source kind =>
    refine .bind (value_quiet source) fun v => ?_
    cases kind with
    | number => cases v.toNumber <;> exact .pure _
    | boolean => cases v.toBoolean <;> exact .pure _
  | procedureName source => exact .bind (value_quiet source) fun _ => .pure _
  | inspectValue source => exact .bind (value_quiet source) fun _ => .pure _
  | inspectScope scopeName =>
    exact .bind (scope_quiet scopeName) fun _ => .bind .get fun _ => .pure _
  | dropInterpreter =>
    refine .bind (.modifyGet fun session => ?_) fun _ => .pure _
    dsimp only
    split
    · exact Store.addsNone_clear ..
    · exact .refl _

end Host

namespace Session

variable {session : Session} {step : Step} {root s t u : ScopeId} {name : ScopeName}

/-- **A step that does not bind a name leaves every scope as it is, or without bindings.** -/
theorem addsNone_step (session : Session) (h : step.binds = false) :
    session.store.AddsNone (session.step step).2.store := by
  have hquiet := Host.perform_quiet h
  unfold Session.step
  cases hresult : Host.perform step session with
  | ok answer after => exact (hquiet.ok hresult).trans (Store.addsNone_settle ..)
  | error reason after => exact (hquiet.error hresult).trans (Store.addsNone_settle ..)

/-- **Scripts that bind nothing** leave every scope as it is or without bindings. -/
theorem addsNone_steps (session : Session) {script : List Step}
    (h : ∀ step ∈ script, step.binds = false) :
    session.store.AddsNone (session.steps script).2.store := by
  induction script generalizing session with
  | nil => exact .refl _
  | cons first rest ih =>
    have hfirst := session.addsNone_step (h first (List.mem_cons_self ..))
    exact hfirst.trans (ih _ fun step hstep => h step (List.mem_cons_of_mem _ hstep))

/-! ### Which scopes exist -/

/-- The host has a handle to a scope, or the interpreter has it as its global scope. -/
def HasHandle (session : Session) (s : ScopeId) : Prop :=
  session.global = some s ∨ s ∈ session.handles.values

/-- A user procedure exists: a slot or an existing scope holds it. -/
def HasProcedure (session : Session) (p : Procedure) : Prop :=
  .procedure p ∈ session.slots.values ∨
    ∃ t scope, session.store.scope? t = some scope ∧ p ∈ scope.procedures

/-- A scope is kept for its own sake: it has a handle, or an existing procedure was defined in
it. -/
def IsAnchored (session : Session) (s : ScopeId) : Prop :=
  session.HasHandle s ∨ ∃ p, session.HasProcedure p ∧ p.scope = s

/-- What the host refers to is anchored. -/
theorem isAnchored_of_mem_roots (h : s ∈ session.roots) : session.IsAnchored s := by
  rcases mem_roots.1 h with hs | hs | ⟨v, hv, hs⟩
  · exact .inl (.inl hs)
  · exact .inl (.inr hs)
  · obtain ⟨p, hp, rfl⟩ := mem_captured.1 hs
    rw [Value.procedure?_eq_some.1 hp] at hv
    exact .inr ⟨p, .inl hv, rfl⟩

/-- What is anchored exists. -/
theorem Sound.has_of_isAnchored (h : session.Sound) (hs : session.IsAnchored s) :
    session.store.Has s := by
  rcases hs with (hs | hs) | ⟨p, hp | ⟨t, scope, ht, hp⟩, rfl⟩
  · exact h.roots s (mem_roots.2 (.inl hs))
  · exact h.roots s (mem_roots.2 (.inr (.inl hs)))
  · exact h.roots _ (mem_roots.2 (.inr (.inr ⟨_, hp, mem_captured.2 ⟨p, rfl, rfl⟩⟩)))
  · exact h.store.has_of_mem_references ht (Scope.mem_references.2 (.inr ⟨p, hp, rfl⟩))

/-- Of the scopes inside an existing one, itself included, take one with the most scopes around
it: nothing was made in it, so it is not kept as a parent. -/
theorem Sound.exists_isAnchored (h : session.Sound) (hsettled : session.Settled)
    (ht : session.store.Has t) : ∃ u, t ∈ session.store.chain u ∧ session.IsAnchored u := by
  classical
  obtain ⟨scope, hscope⟩ := ht
  let inside := session.store.ids.toFinset.filter (t ∈ session.store.chain ·)
  have hmem {u : ScopeId} : u ∈ inside ↔ session.store.Has u ∧ t ∈ session.store.chain u := by
    rw [Finset.mem_filter, List.mem_toFinset, Store.mem_ids]
  have hinside : inside.Nonempty :=
    ⟨t, hmem.2 ⟨⟨scope, hscope⟩, by rw [Store.chain_eq hscope]; exact List.mem_cons_self ..⟩⟩
  obtain ⟨u, hu, hmax⟩ := inside.exists_max_image (fun u => (session.store.chain u).length) hinside
  obtain ⟨huhas, htu⟩ := hmem.1 hu
  refine ⟨u, htu, ?_⟩
  rcases (hsettled u huhas).2 with hroot | ⟨w, hw, found, hfound, href⟩
  · exact isAnchored_of_mem_roots hroot
  · rcases Scope.mem_references.1 href with hparent | ⟨p, hp, rfl⟩
    · have hchain := Store.ClosedOn.chain_parent h.store (Set.mem_univ w) hfound hparent
      have hlonger := hmax w (hmem.2 ⟨hw, by rw [hchain]; exact List.mem_cons_of_mem _ htu⟩)
      rw [hchain, List.length_cons] at hlonger
      omega
    · exact .inr ⟨p, .inr ⟨w, found, hfound, hp⟩, rfl⟩

/-! ### Clearing -/

/-- A step empties the tree of a scope: the host clears it, or drops the interpreter whose global
scope that is. -/
inductive Clears (session : Session) : Step → ScopeId → Prop
  | clear {name : ScopeName} {s : ScopeId} (hname : Host.scope name session = .ok s session) :
      session.Clears (.clear name) s
  | dropInterpreter {s : ScopeId} (hs : session.global = some s) :
      session.Clears .dropInterpreter s

/-- The store after the tree is emptied: what nothing refers to any more is gone, also for want
of the global scope if the interpreter was dropped. -/
theorem Clears.store_step (h : session.Clears step s) :
    (session.step step).2.store =
      (session.store.clear session.roots s).settle (session.step step).2.roots := by
  cases h with
  | clear hname =>
    rename_i name
    have hperform : Host.perform (.clear name) session =
        .ok .done { session with store := session.store.clear session.roots s } := by
      change (Host.scope name >>= _) session = _
      simp only [bind, EStateM.bind, hname]
      rfl
    unfold Session.step
    rw [hperform]
    rfl
  | dropInterpreter hs =>
    have hperform : Host.perform .dropInterpreter session = .ok .done session.drop := rfl
    unfold Session.step
    rw [hperform, Session.drop, hs]
    rfl

/-- A scope after its tree was cleared: as it was, or without bindings if it is in the tree. -/
theorem Clears.scope?_step {scope : Scope} (h : session.Clears step s) (hsound : session.Sound)
    (ht : (session.step step).2.store.scope? t = some scope) :
    ∃ found, session.store.scope? t = some found ∧
      scope = if session.store.rootOf t = session.store.rootOf s then found.emptied else found := by
  rw [h.store_step] at ht
  obtain ⟨found, hfound, hsame⟩ :=
    Store.scope?_of_emptyAll (Store.scope?_of_settle (Store.scope?_of_settle ht))
  have htree : t ∈ session.store.treeOf s ↔
      session.store.rootOf t = session.store.rootOf s := by
    rw [hsound.registered.mem_treeOf hsound.store]
    exact and_iff_right ⟨found, hfound⟩
  simp only [htree] at hsame
  exact ⟨found, hfound, hsame⟩

/-- The scopes that are left by a clearing step have the chains they had. -/
theorem Clears.chain_step (h : session.Clears step s) (hsound : session.Sound)
    (ht : (session.step step).2.store.Has t) :
    (session.step step).2.store.chain t = session.store.chain t := by
  obtain ⟨scope, hscope⟩ := ht
  obtain ⟨found, hfound, hsame⟩ := h.scope?_step hsound hscope
  refine Store.chain_congr ?_
  rw [hscope, hfound, Option.map_some, Option.map_some, hsame]
  split <;> rfl

/-- Nothing outside a tree holds on to it: no handle leads into it, and neither a slot nor a scope
of another tree holds a user procedure that was defined in it. -/
structure LetsGo (session : Session) (root : ScopeId) : Prop where
  handles : ∀ u, session.HasHandle u → session.store.rootOf u ≠ root
  slots : ∀ p, .procedure p ∈ session.slots.values → session.store.rootOf p.scope ≠ root
  others : ∀ t scope, session.store.scope? t = some scope → session.store.rootOf t ≠ root →
    ∀ p ∈ scope.procedures, session.store.rootOf p.scope ≠ root

/-- **Clearing is complete and confined, and it leaks nothing.**  After a tree is cleared its
scopes bind nothing and the others are as they were; those that exist are the ones kept for their
own sake and those around them.  Once nothing outside the tree holds on to it any more, the tree
is gone, whatever was done in the meantime without binding anything. -/
theorem Reachable.clear_exact (h : session.Reachable) (hclears : session.Clears step s) :
    (∀ t scope, (session.step step).2.store.scope? t = some scope →
      session.store.rootOf t = session.store.rootOf s → scope.bindings = {}) ∧
    (∀ t scope, (session.step step).2.store.scope? t = some scope →
      session.store.rootOf t ≠ session.store.rootOf s → session.store.scope? t = some scope) ∧
    (∀ t, session.store.Has t → session.store.rootOf t = session.store.rootOf s →
      ((session.step step).2.store.Has t ↔
        ∃ u, t ∈ session.store.chain u ∧ (session.step step).2.IsAnchored u)) ∧
    ∀ script : List Step, (∀ later ∈ script, later.binds = false) →
      ((session.step step).2.steps script).2.LetsGo (session.store.rootOf s) →
      ∀ t, ((session.step step).2.steps script).2.store.Has t →
        ((session.step step).2.steps script).2.store.rootOf t ≠ session.store.rootOf s := by
  have hafter := h.step step
  have hempty : ∀ t scope, (session.step step).2.store.scope? t = some scope →
      session.store.rootOf t = session.store.rootOf s → scope.bindings = {} := by
    intro t scope ht hroot
    obtain ⟨found, -, hsame⟩ := hclears.scope?_step h.sound ht
    rw [hsame, if_pos hroot]
    rfl
  refine ⟨hempty, fun t scope ht hroot => ?_, fun t _ _ => ⟨fun ht => ?_, ?_⟩, ?_⟩
  · obtain ⟨found, hfound, hsame⟩ := hclears.scope?_step h.sound ht
    rw [hsame, if_neg hroot, hfound]
  · obtain ⟨u, htu, hu⟩ := hafter.sound.exists_isAnchored hafter.settled ht
    rw [hclears.chain_step h.sound (hafter.sound.has_of_isAnchored hu)] at htu
    exact ⟨u, htu, hu⟩
  · rintro ⟨u, htu, hu⟩
    rw [← hclears.chain_step h.sound (hafter.sound.has_of_isAnchored hu)] at htu
    exact (Store.ClosedOn.chain_mem hafter.sound.store (Set.mem_univ u) htu).2
  · intro script hscript hgo t ht hroot
    have hadds := (session.step step).2.addsNone_steps hscript
    have hlast := hafter.steps script
    obtain ⟨u, htu, hu⟩ := hlast.sound.exists_isAnchored hlast.settled ht
    rw [hlast.sound.store.rootOf_of_mem_chain htu] at hroot
    rcases hu with hu | ⟨p, hp | ⟨w, scope, hw, hp⟩, rfl⟩
    · exact hgo.handles u hu hroot
    · exact hgo.slots p hp hroot
    · by_cases hwroot : ((session.step step).2.steps script).2.store.rootOf w =
          session.store.rootOf s
      · -- a scope of the tree binds nothing: it is new, or it was emptied and is as it was then
        have hbindings : scope.bindings = {} := by
          rcases hadds.scope? hw with hnone | hsame
          · exact hnone
          · refine hempty w scope hsame ?_
            rw [← hwroot, Store.rootOf, Store.rootOf, ← hclears.chain_step h.sound ⟨scope, hsame⟩,
              Store.chain_eq hsame, Store.chain_eq hw]
        rw [Scope.procedures, hbindings] at hp
        exact absurd hp List.not_mem_nil
      · exact hgo.others w scope hw hwroot p hp hroot

/-- A tree with a scope that binds a procedure defined in it, and a tree of the host. -/
def crowded : Session :=
  ((new {}).steps
    [.newScope "a" (some .global),
      .define (.handle "a") "f" (.procedure "f" [] (.atom "1") (some (.handle "a"))),
      .get (.handle "a") "f" (some "f"), .newGlobal "b"]).2

/-- Lets go of the first tree of `crowded`. -/
def farewells : List Step :=
  [.dropSlot "f", .dropHandle "a"]

/-- What is left of `crowded` in the end. -/
def deserted : Session :=
  ((crowded.step .dropInterpreter).2.steps farewells).2

/-- Dropping the interpreter leaves the scope that the host has a handle to, until it lets go. -/
theorem crowded_clear_exact :
    (crowded.step .dropInterpreter).2.store.Has 1 ∧
      ∀ t, deserted.store.Has t → deserted.store.rootOf t ≠ 0 := by
  have hroot : crowded.store.rootOf 0 = 0 := by decide +kernel
  have hhas : crowded.store.Has 1 := Option.isSome_iff_exists.1 (by decide +kernel)
  have hin : crowded.store.rootOf 1 = crowded.store.rootOf 0 := by decide +kernel
  have hchain : 1 ∈ crowded.store.chain 1 := by
    rw [show crowded.store.chain 1 = [1, 0] by decide +kernel]
    exact List.mem_cons_self ..
  have hkept : 1 ∈ (crowded.step .dropInterpreter).2.handles.values := by
    rw [show (crowded.step .dropInterpreter).2.handles.values = [1, 2] by decide +kernel]
    exact List.mem_cons_self ..
  have hgo : deserted.LetsGo 0 := by
    have hhandles : deserted.handles.values = [2] := by decide +kernel
    have hglobal : deserted.global = none := by decide +kernel
    have hslots : deserted.slots.values = [] := by decide +kernel
    have hapart : deserted.store.rootOf 2 = 2 := by decide +kernel
    have hids : deserted.store.ids = [2] := by decide +kernel
    have hprocedures : (deserted.store.scope? 2).map Scope.procedures = some [] := by decide +kernel
    refine ⟨fun u hu => ?_, fun p hp => ?_, fun t scope ht _ p hp => ?_⟩
    · rcases hu with hu | hu
      · rw [hglobal] at hu
        cases hu
      · rw [hhandles] at hu
        rw [List.mem_singleton.1 hu, hapart]
        decide
    · rw [hslots] at hp
      exact absurd hp List.not_mem_nil
    · have hmem : t ∈ deserted.store.ids := Store.mem_ids.2 ⟨scope, ht⟩
      rw [hids] at hmem
      rw [List.mem_singleton.1 hmem] at ht
      rw [ht] at hprocedures
      rw [Option.some.inj hprocedures] at hp
      exact absurd hp List.not_mem_nil
  have hreachable : crowded.Reachable := (Reachable.new {}).steps _
  have hglobal : crowded.global = some 0 := by decide +kernel
  obtain ⟨-, -, hexists, hgone⟩ :=
    Reachable.clear_exact hreachable (Clears.dropInterpreter hglobal)
  rw [hroot] at hgone
  exact ⟨(hexists 1 hhas hin).2 ⟨1, hchain, .inl (.inr hkept)⟩, hgone farewells (by decide) hgo⟩

end Session
end StrictScheme
