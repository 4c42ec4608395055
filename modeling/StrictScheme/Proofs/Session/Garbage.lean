/-
# What a release leaves

As long as every procedure is bound in the tree it was defined in, references do not
lead from one tree into another.  Then the other trees hold nothing of a tree, and what
a release leaves of it is what the host reaches (`Store.Sound.reaches_release`).  A
second release finds nothing to empty.

Texts that are evaluated in a session make scopes of its own tree only, whatever they
define (`Session.WellFormed`), and each evaluation ends with a release.  So nothing is
left after it but what can be reached from the global scope, from the handles and values
of the host, and from the result.
-/

import StrictScheme.Proofs.Session.Isolation
import StrictScheme.Proofs.Session.WellFormed

namespace StrictScheme
namespace Store

variable {store : Store} {held : List Referent} {roots : List ScopeId} {root s t : ScopeId}
  {scope : Scope}

/-! ### Trees that hold nothing of each other -/

/-- A reference stays in its tree. -/
theorem TreesApart.rootOf_of_mem_references (h : store.TreesApart) (hsound : store.Sound)
    (hs : store.scope? s = some scope) (ht : t ∈ scope.references) :
    store.rootOf t = store.rootOf s := by
  rcases Scope.mem_references.1 ht with hparent | ⟨p, hp, rfl⟩
  · exact (hsound.rootOf_parent hs hparent).symm
  · exact h s scope hs p hp

/-- **The walk of a release meets a scope of the tree only if the host reaches it.** -/
theorem TreesApart.reaches_of_rootOf_eq (h : store.TreesApart) (hsound : store.Sound)
    (hs : store.Reaches (roots ++ store.others root) s) (hroot : store.rootOf s = root) :
    store.Reaches roots s := by
  induction hs with
  | start hs =>
    rcases List.mem_append.1 hs with hs | hs
    · exact .start hs
    · exact absurd hroot (mem_others.1 hs).2
  | step _ hu ht ih =>
    have hsame := h.rootOf_of_mem_references hsound hu ht
    exact (ih (hsame.symm.trans hroot)).step hu ht

/-- A scope that a release leaves is in the tree it was in. -/
theorem Sound.rootOf_release (h : store.Sound) (hreg : store.Registered)
    (ht : (store.release held s).2.Has t) :
    (store.release held s).2.rootOf t = store.rootOf t := by
  obtain ⟨scope, hscope⟩ := ht
  rw [rootOf, rootOf, chain_eq hscope, chain_eq (h.scope?_of_release hreg hscope).2]

/-- **A release leaves nothing of the tree but what the host reaches.** -/
theorem Sound.reaches_release (h : store.Sound) (hreg : store.Registered)
    (hapart : store.TreesApart) (ht : (store.release held s).2.Has t)
    (hroot : store.rootOf t = store.rootOf s) :
    (store.release held s).2.Reaches (held.map Referent.scopeOf) t := by
  obtain ⟨scope, hscope⟩ := ht
  obtain ⟨hkept, hbefore⟩ := h.scope?_of_release hreg hscope
  have hmet : store.Reaches (held.map Referent.scopeOf ++ store.others (store.rootOf s)) t := by
    by_contra hmet
    exact hkept ((hreg.mem_garbage h).2 ⟨⟨scope, hbefore⟩, hmet⟩)
  have hreaches := hapart.reaches_of_rootOf_eq h hmet hroot
  exact hreaches.congr fun u hu => (h.scope?_release_of_reaches hreg hu).symm

/-- There is nothing to empty in a tree if the host reaches all of it. -/
theorem Sound.garbage_eq_nil (h : store.Sound) (hreg : store.Registered)
    (hall : ∀ t, store.Has t → store.rootOf t = store.rootOf s →
      store.Reaches (held.map Referent.scopeOf) t) : store.garbage held s = [] := by
  refine List.eq_nil_iff_forall_not_mem.2 fun t ht => ?_
  have hreaches := hall t ((hreg.mem_garbage h).1 ht).1 (h.rootOf_of_mem_garbage hreg ht)
  exact h.not_mem_garbage_of_reaches hreg hreaches ht

/-- In a single tree there are no other trees to hold anything of it. -/
theorem WellFormed.treesApart (h : store.WellFormed root) : store.TreesApart := by
  intro s scope hs p hp
  have hscope : store.Has p.scope :=
    h.sound.has_of_mem_references hs (Scope.mem_references.2 (.inr ⟨p, hp, rfl⟩))
  rw [h.tree hscope, h.tree ⟨scope, hs⟩]

end Store

/-! ### Sessions that are given texts -/

/-- Asking for the procedure in a slot changes nothing. -/
theorem Host.procedureIn_cases (name : String) (session : Session) :
    (∃ p, procedureIn name session = .ok p session) ∨
      ∃ e, procedureIn name session = .error e session := by
  simp only [procedureIn, Bind.bind, EStateM.bind]
  rcases slot_cases name session with ⟨v, -, hv⟩ | ⟨e, hv⟩
  · rw [hv]
    cases v with
    | procedure p => exact .inl ⟨p, rfl⟩
    | _ => exact .inr ⟨.noProcedure name, rfl⟩
  · rw [hv]
    exact .inr ⟨e, rfl⟩

namespace Session

variable {session : Session} {root s : ScopeId} {step : Step}

/-- The steps of a host that has texts evaluated, in whatever scope and under either settings, and
that takes and drops handles and values besides. -/
inductive IsTextDriven : Step → Prop
  | evaluate (text : String) (scope : ScopeName) (slot : Option String) :
      IsTextDriven (.evaluate text scope slot)
  | evaluateDefault (text : String) (scope : ScopeName) (slot : Option String) :
      IsTextDriven (.evaluateDefault text scope slot)
  | get (scope : ScopeName) (name : String) (slot : Option String) :
      IsTextDriven (.get scope name slot)
  | keepScope (name : String) (scope : ScopeName) : IsTextDriven (.keepScope name scope)
  | definingScope (name slot : String) : IsTextDriven (.definingScope name slot)
  | parent (scope : ScopeName) (name : String) : IsTextDriven (.parent scope name)
  | dropHandle (name : String) : IsTextDriven (.dropHandle name)
  | dropSlot (slot : String) : IsTextDriven (.dropSlot slot)

/-- What a part of a step leaves is well formed, whether or not the request made sense. -/
def LeavesWellFormed {α : Type} (root : ScopeId) : EStateM.Result BadRequest Session α → Prop
  | .ok _ after | .error _ after => after.WellFormed root

namespace WellFormed

/-- Something is asked for first, which changes nothing. -/
theorem ask_bind {α β : Type} (h : session.WellFormed root) {x : Host α} {f : α → Host β}
    (hx : (∃ a, x session = .ok a session) ∨ ∃ e, x session = .error e session)
    (hf : ∀ a, x session = .ok a session → LeavesWellFormed root (f a session)) :
    LeavesWellFormed root ((x >>= f) session) := by
  simp only [Bind.bind, EStateM.bind]
  rcases hx with ⟨a, ha⟩ | ⟨e, he⟩
  · rw [ha]
    exact hf a ha
  · rw [he]
    exact h

/-- Looking at the session first changes nothing. -/
theorem get_bind {β : Type} (h : session.WellFormed root) {f : Session → Host β}
    (hf : LeavesWellFormed root (f session session)) :
    LeavesWellFormed root ((get >>= f) session) := by
  refine h.ask_bind (.inl ⟨session, rfl⟩) fun a ha => ?_
  obtain rfl : session = a := (EStateM.Result.ok.inj ha).1
  exact hf

/-- A value is kept, if there is one and a slot is named. -/
theorem yield (h : session.WellFormed root) (slot : Option String) {result : Except Error Value}
    (hresult : ∀ v, result = .ok v → v.Satisfies Procedure.WellFormed) :
    LeavesWellFormed root (Host.yield slot result session) := by
  have hkept := h.keeping slot hresult
  cases result with
  | error e => exact h
  | ok v => cases slot <;> exact hkept

/-- A text is evaluated in a named scope. -/
theorem evaluateIn (h : session.WellFormed root) (hsound : session.Sound)
    (settings : Session → Config) (text : String) (name : ScopeName) (slot : Option String) :
    LeavesWellFormed root ((do
      let s ← Host.scope name
      Host.yield slot
        (← modifyGet fun session => session.evaluateText (settings session) s text) :
          Host Answer) session) := by
  refine h.ask_bind (Host.scope_cases name session) fun s hname => ?_
  have hs := hsound.roots s (mem_roots_of_named? (scope_eq_ok.1 hname))
  obtain ⟨hafter, hresult⟩ := h.evaluateText hs (settings session) text
  exact hafter.yield slot hresult

/-- A step that goes by texts leaves a session well formed, whether or not it makes sense. -/
theorem perform (h : session.WellFormed root) (hsound : session.Sound)
    (hstep : IsTextDriven step) : LeavesWellFormed root (Host.perform step session) := by
  have hhandles (handles : Table ScopeId) : ({ session with handles } : Session).WellFormed root :=
    ⟨h.global, h.store, h.slots⟩
  cases hstep with
  | evaluate text name slot => exact h.evaluateIn hsound Session.config text name slot
  | evaluateDefault text name slot => exact h.evaluateIn hsound (fun _ => {}) text name slot
  | get scopeName name slot =>
    refine h.ask_bind (Host.scope_cases scopeName session) fun s _ => h.get_bind ?_
    cases hv : session.store.lookup s name with
    | none => exact h
    | some v =>
      refine h.yield slot fun w hw p hp => ?_
      obtain rfl := Except.ok.inj hw
      exact (h.store.lookup hv p hp).1
  | keepScope name scopeName =>
    exact h.ask_bind (Host.scope_cases scopeName session) fun s _ => hhandles _
  | definingScope name slot =>
    exact h.ask_bind (Host.procedureIn_cases slot session) fun p _ => hhandles _
  | parent scopeName name =>
    refine h.ask_bind (Host.scope_cases scopeName session) fun s _ => h.get_bind ?_
    cases (session.store.scope? s).bind Scope.parent? with
    | none => exact h
    | some p => exact hhandles _
  | dropHandle name => exact hhandles _
  | dropSlot slot => exact ⟨h.global, h.store, fun v hv => h.slots v (Table.mem_values_erase hv)⟩

/-- So does the whole step, with the settling after it. -/
theorem step_textDriven (h : session.WellFormed root) (hsound : session.Sound)
    (hstep : IsTextDriven step) : (session.step step).2.WellFormed root := by
  have hperform := h.perform hsound hstep
  unfold Session.step
  generalize Host.perform step session = outcome at hperform ⊢
  cases outcome with
  | ok answer after => exact WellFormed.settle hperform
  | error reason after => exact WellFormed.settle hperform

/-- **Whatever texts are evaluated, there is one tree.** -/
theorem steps_textDriven (h : session.WellFormed root) (hsound : session.Sound)
    {script : List Step} (hscript : ∀ step ∈ script, IsTextDriven step) :
    (session.steps script).2.WellFormed root := by
  induction script generalizing session with
  | nil => exact h
  | cons first rest ih =>
    obtain ⟨hfirst, hrest⟩ := List.forall_mem_cons.1 hscript
    exact ih (h.step_textDriven hsound hfirst) (hsound.step first) hrest

/-- **After a text is evaluated nothing is left but what is reached** from the host and from the
result. -/
theorem reaches_evaluateText (h : session.WellFormed root) (hsound : session.Sound)
    (hs : s ∈ session.roots) {settings : Config} {text : String} {tree : SExpr}
    (hread : read settings.comments text = .ok tree) {t : ScopeId}
    (ht : (session.evaluateText settings s text).2.store.Has t) :
    (session.evaluateText settings s text).2.store.Reaches
      (heldBy (session.evaluateText settings s text).1 ++
        (session.evaluateText settings s text).2.roots) t := by
  obtain ⟨hran, hhas, -⟩ :=
    h.run_evaluate (hsound.roots s hs) settings.maxDepth (SExpr.isSource_of_read hread)
  have hroots : (session.run (evaluate settings.maxDepth s tree)).2.roots = session.roots := by
    rw [run_eq]
    rfl
  have hreg := (hsound.run_evaluate settings.maxDepth tree (hsound.roots s hs)).registered
  rw [evaluateText_of_read hread] at ht ⊢
  generalize session.run (evaluate settings.maxDepth s tree) = ran at hran hhas hroots hreg ht ⊢
  obtain ⟨result, after⟩ := ran
  let held := s :: heldBy result ++ after.roots
  -- the release starts from a settled store, which is a single tree too
  have hsettled : (after.store.settle held).WellFormed root := hran.store.settle held
  have hstart : (after.store.settle held).Has s :=
    (Store.keeps_settle ..).has (List.mem_cons_self ..) hhas
  have hreaches : (after.release s (.scope s :: referents result)).2.store.Reaches held t := by
    rw [release_eq, map_scopeOf_referents] at ht ⊢
    have hleft := hsettled.sound.reaches_release (hreg.settle held) hsettled.treesApart ht
    rw [map_scopeOf_append_holders, map_scopeOf_referents] at hleft
    refine hleft ?_
    obtain ⟨scope, hscope⟩ := ht
    have hbefore := hsettled.sound.scope?_of_release (hreg.settle held) hscope
    rw [hsettled.tree hstart, hsettled.tree ⟨scope, hbefore.2⟩]
  refine hreaches.mono fun u hu => ?_
  rcases List.mem_cons.1 hu with rfl | hu
  · exact .start (List.mem_append_right _ (hroots ▸ hs))
  · exact .start hu

end WellFormed

/-! ### Releasing twice -/

variable {name : ScopeName}

/-- A release leaves the host what it refers to. -/
theorem Settled.roots_release (h : session.Settled)
    (hname : Host.scope name session = .ok s session) :
    (session.step (.release name)).2.roots = session.roots := by
  rw [h.step_release hname]
  rfl

/-- **The host reaches whatever a release leaves of the tree.** -/
theorem Reachable.reaches_of_release (h : session.Reachable) (hapart : session.store.TreesApart)
    (hname : Host.scope name session = .ok s session) {t : ScopeId}
    (ht : (session.step (.release name)).2.store.Has t)
    (hroot : (session.step (.release name)).2.store.rootOf t = session.store.rootOf s) :
    (session.step (.release name)).2.store.Reaches session.roots t := by
  rw [h.settled.step_release hname] at ht hroot ⊢
  rw [store_afterEmptying] at ht hroot ⊢
  have hsound := h.sound
  have hsame := hsound.store.rootOf_release hsound.registered ht
  have hreaches := hsound.store.reaches_release hsound.registered hapart ht
    (hsame.symm.trans hroot)
  rwa [map_scopeOf_holders] at hreaches

/-- Dropping the dead entries of a registry leaves a session settled. -/
theorem Settled.settle_retain (h : session.Settled) (s : ScopeId) :
    (session.store.retain s).settle session.roots = session.store.retain s := by
  refine Store.settle_eq_self ?_
  simp only [Store.HoldsUp, Store.has_retain, Store.scope?_retain]
  exact h

/-- **A second release empties nothing.** -/
theorem Reachable.release_again (h : session.Reachable) (hapart : session.store.TreesApart)
    (hname : Host.scope name session = .ok s session) :
    let after := (session.step (.release name)).2
    after.step (.release name) =
      (.released 0, { after with store := after.store.retain s }) := by
  dsimp only
  have hreached := fun t => h.reaches_of_release hapart hname (t := t)
  have hagain : Host.scope name (session.step (.release name)).2 =
      .ok s (session.step (.release name)).2 := by
    rw [h.settled.step_release hname]
    exact scope_eq_ok.2 ((named?_setStore session _ name).trans (scope_eq_ok.1 hname))
  have hroots := h.settled.roots_release hname
  have hafter := h.step (.release name)
  have hhas := hafter.sound.roots s (mem_roots_of_named? (scope_eq_ok.1 hagain))
  have htree : (session.step (.release name)).2.store.rootOf s = session.store.rootOf s := by
    rw [h.settled.step_release hname] at hhas ⊢
    rw [store_afterEmptying] at hhas ⊢
    exact h.sound.store.rootOf_release h.sound.registered hhas
  generalize (session.step (.release name)).2 = after at *
  have hnone : after.store.garbage after.holders s = [] := by
    refine hafter.sound.store.garbage_eq_nil hafter.sound.registered fun t ht hroot => ?_
    rw [map_scopeOf_holders, hroots]
    exact hreached t ht (hroot.trans htree)
  rw [hafter.settled.step_release hagain, hnone]
  refine Prod.ext rfl ?_
  change ({ after with store := (after.store.retain s).settle after.roots } : Session) = _
  rw [hafter.settled.settle_retain]

/-- **No garbage is left by a release.**  If procedures are bound in the trees they were defined in,
the host reaches every scope of a tree that was released, and a second release empties nothing and
changes nothing, but that the registry of the tree is rid of the entries of scopes that the first
one took out of existence.  So whatever texts a session is given, once another one is read and
evaluated, successfully or not, every scope that exists is reached from the host or from the
result. -/
theorem release_leaves_no_garbage :
    (∀ (session : Session) (name : ScopeName) (s : ScopeId), session.Reachable →
      Host.scope name session = .ok s session → session.store.TreesApart →
      let after := (session.step (.release name)).2
      (∀ t, after.store.Has t → after.store.rootOf t = session.store.rootOf s →
        after.store.Reaches after.roots t) ∧
      after.step (.release name) = (.released 0, { after with store := after.store.retain s }) ∧
      ∀ t, (after.store.retain s).scope? t = after.store.scope? t) ∧
    ∀ (config : Config) (script : List Step), (∀ step ∈ script, IsTextDriven step) →
      let session := ((new config).steps script).2
      ∀ (name : ScopeName) (s : ScopeId) (settings : Config) (text : String) (tree : SExpr),
        Host.scope name session = .ok s session → read settings.comments text = .ok tree →
        let evaluated := session.evaluateText settings s text
        ∀ t, evaluated.2.store.Has t →
          evaluated.2.store.Reaches (heldBy evaluated.1 ++ evaluated.2.roots) t := by
  refine ⟨fun session name s h hname hapart => ?_, fun config script hscript => ?_⟩
  · refine ⟨fun t ht hroot => ?_, h.release_again hapart hname, fun t => Store.scope?_retain ..⟩
    rw [h.settled.roots_release hname]
    exact h.reaches_of_release hapart hname ht hroot
  · intro session name s settings text tree hname hread evaluated t ht
    have hsound : session.Sound := ((Reachable.new config).steps script).sound
    have hwell : session.WellFormed 0 :=
      (wellFormed_new config).steps_textDriven (sound_new config) hscript
    have hs := mem_roots_of_named? (scope_eq_ok.1 hname)
    exact hwell.reaches_evaluateText hsound hs hread ht

/-- A text that defines a procedure, which defines another one, which returns itself. -/
def loopMaker : List Step :=
  [.evaluate "(define (make) (define (loop) loop))" .global none]

/-- A second release of `circular`, and an evaluation whose value refers back to its own scope. -/
theorem loopMaker_release_leaves_no_garbage :
    let after := (circular.step (.release .global)).2
    let evaluated := ((new {}).steps loopMaker).2.evaluateText {} 0 "(make)"
    (∀ t, after.store.Has t → after.store.rootOf t = circular.store.rootOf 0 →
        after.store.Reaches after.roots t) ∧
      after.step (.release .global) =
        (.released 0, { after with store := after.store.retain 0 }) ∧
      (∀ t, (after.store.retain 0).scope? t = after.store.scope? t) ∧
      ∀ t, evaluated.2.store.Has t →
        evaluated.2.store.Reaches (heldBy evaluated.1 ++ evaluated.2.roots) t := by
  have hname : Host.scope .global circular = .ok 0 circular := scope_eq_ok.2 (by decide +kernel)
  have hapart : circular.store.TreesApart := by decide +kernel
  have hglobal : ((new {}).steps loopMaker).2.named? .global = some 0 := by decide +kernel
  have hread : read ({} : Config).comments "(make)" = .ok (.list [.atom "make"]) := by
    decide +kernel
  have htexts : ∀ step ∈ loopMaker, IsTextDriven step := by
    rintro step (_ | ⟨_, ⟨⟩⟩)
    exact .evaluate ..
  obtain ⟨hrelease, htext⟩ := release_leaves_no_garbage
  obtain ⟨hreached, hagain, hsame⟩ :=
    hrelease circular .global 0 ((Reachable.new {}).steps _) hname hapart
  exact ⟨hreached, hagain, hsame,
    htext {} loopMaker htexts .global 0 {} "(make)" _ (scope_eq_ok.2 hglobal) hread⟩

end Session
end StrictScheme
