/-
# Releasing cannot be observed

A host that releases scopes now and then sees the same as one that never does.  The
sessions of the two differ only in scopes that cannot be reached from what the host
refers to; they match on the rest, in the sense of `Session.Matches`.  Every step keeps
them so, with the same answer (`Host.perform_agrees`), and a release keeps the session
that releases in step with one that does nothing (`Session.Matches.step_release`).

Two things are left out.  How many scopes a release empties depends on what was
released before, and so does whether a user procedure still exists.
-/

import StrictScheme.Proofs.Session.Sound

namespace StrictScheme

/-! ### What a host sees -/

/-- Whether a step does nothing but release. -/
def Step.isRelease : Step → Bool
  | .release _ => true
  | _ => false

/-- The part of an answer that does not tell whether a user procedure still exists. -/
def Step.seen : Step → Answer → Option Answer
  | .isAlive _, .truth _ => none
  | _, answer => some answer

namespace Session

/-- A script without the steps that release. -/
def withoutReleases (script : List Step) : List Step :=
  script.filter (!·.isRelease)

/-- What a host sees of the answers to a script, those to releases left out. -/
def observed (script : List Step) (answers : List Answer) : List (Option Answer) :=
  ((script.zip answers).filter (!·.1.isRelease)).map fun (step, answer) => step.seen answer

/-! ### A host that never releases -/

/-- Evaluates a text in a scope and releases nothing. -/
def evaluateKeeping (session : Session) (config : Config) (s : ScopeId) (text : String) :
    Except Error Value × Session :=
  match read config.comments text with
  | .error fault => (.error (.unreadable fault), session)
  | .ok tree => session.run (evaluate config.maxDepth s tree)

end Session

/-- Carries out a step and releases nothing after an evaluation. -/
def Host.performKeeping : Step → Host Answer
  | .evaluate text scopeName slotName => do
    let s ← scope scopeName
    yield slotName (← modifyGet fun session => session.evaluateKeeping session.config s text)
  | .evaluateDefault text scopeName slotName => do
    let s ← scope scopeName
    yield slotName (← modifyGet fun session => session.evaluateKeeping {} s text)
  | step => perform step

namespace Session

/-- Carries out a step and releases nothing after an evaluation. -/
def stepKeeping (session : Session) (step : Step) : Answer × Session :=
  match Host.performKeeping step session with
  | .ok answer session => (answer, session.settle)
  | .error reason session => (.refused reason, session.settle)

/-- Carries out steps one after the other and releases nothing after evaluations. -/
def stepsKeeping (session : Session) : List Step → List Answer × Session
  | [] => ([], session)
  | first :: rest =>
    let (answer, session) := session.stepKeeping first
    let (answers, session) := session.stepsKeeping rest
    (answer :: answers, session)

variable {scopes : Set ScopeId} {a b : Session} {s : ScopeId}

/-! ### Stores that keep what is reached -/

/-- **What cannot be reached does not count**: sessions still match when the store of each is
replaced by one that keeps what is reached from the host and from what is held besides. -/
theorem Matches.keep (h : a.Matches scopes b) {storeA storeB : Store} (held : List ScopeId)
    (hheld : ∀ s ∈ held, s ∈ scopes ∧ a.store.Has s)
    (ha : Store.Keeps (held ++ a.roots) a.store storeA)
    (hb : Store.Keeps (held ++ a.roots) b.store storeB) :
    ∃ scopes', ({ a with store := storeA } : Session).Matches scopes' { b with store := storeB } ∧
      ∀ s ∈ held, s ∈ scopes' ∧ storeA.Has s := by
  have hstarts : ∀ s ∈ held ++ a.roots, s ∈ scopes ∧ a.store.Has s := by
    intro s hs
    rcases List.mem_append.1 hs with hs | hs
    · exact hheld s hs
    · exact h.roots_mem hs
  have hkept : ∀ s ∈ held ++ a.roots,
      s ∈ Store.Reaches.orFresh a.store (held ++ a.roots) ∧ storeA.Has s :=
    fun s hs => ⟨.inl (.start hs), ha.has hs (hstarts s hs).2⟩
  have hroots : ∀ s ∈ a.roots,
      s ∈ Store.Reaches.orFresh a.store (held ++ a.roots) ∧ storeA.Has s :=
    fun s hs => hkept s (List.mem_append_right held hs)
  refine ⟨Store.Reaches.orFresh a.store (held ++ a.roots), { h with
    store := h.store.keep hstarts ha hb
    global_mem := fun s hs => hroots s (mem_roots.2 (.inl hs))
    handles_mem := fun s hs => hroots s (mem_roots.2 (.inr (.inl hs)))
    slots_mem := ?_ }, fun s hs => hkept s (List.mem_append_left _ hs)⟩
  intro v hv p hp
  have hmem : p.scope ∈ a.roots :=
    mem_roots.2 (.inr (.inr ⟨v, hv, mem_captured.2 ⟨p, hp, rfl⟩⟩))
  exact ⟨(hroots _ hmem).1, (hroots _ hmem).2, Region.admits_of ..⟩

/-- Sessions that match have the same roots. -/
theorem Matches.roots (h : a.Matches scopes b) : a.roots = b.roots := by
  rw [Session.roots, Session.roots, h.global, h.handles, h.slots]

/-- Settling the first session alone. -/
theorem Matches.settle_left (h : a.Matches scopes b) : ∃ scopes', a.settle.Matches scopes' b := by
  obtain ⟨scopes', hmatches, -⟩ :=
    h.keep [] (by simp) (Store.keeps_settle ..) (Store.Keeps.refl ..)
  exact ⟨scopes', hmatches⟩

/-- Settling both sessions. -/
theorem Matches.settle (h : a.Matches scopes b) : ∃ scopes', a.settle.Matches scopes' b.settle := by
  have hb : Store.Keeps a.roots b.store (b.store.settle b.roots) := by
    rw [h.roots]
    exact Store.keeps_settle ..
  obtain ⟨scopes', hmatches, -⟩ := h.keep [] (by simp) (Store.keeps_settle ..) hb
  exact ⟨scopes', hmatches⟩

/-- Releasing in the first session alone. -/
theorem Matches.release (h : a.Matches scopes b) (ha : a.Sound) (s : ScopeId)
    (held : List Referent)
    (hheld : ∀ t ∈ held.map Referent.scopeOf, t ∈ scopes ∧ a.store.Has t) :
    ∃ scopes', (a.release s held).2.Matches scopes' b ∧
      ∀ t ∈ held.map Referent.scopeOf, t ∈ scopes' ∧ (a.release s held).2.store.Has t := by
  have hkeeps := ha.keeps_release s held
  rw [release_eq] at hkeeps ⊢
  exact h.keep _ hheld hkeeps (Store.Keeps.refl ..)

/-- Clearing the same tree in both sessions. -/
theorem Matches.clear (h : a.Matches scopes b) (ha : a.Sound) (hb : b.Sound) (hs : s ∈ scopes) :
    ∃ scopes', ({ a with store := a.store.clear a.roots s } : Session).Matches scopes'
      { b with store := b.store.clear b.roots s } := by
  have hempty := h.store.emptyAll fun t ht =>
    h.store.mem_treeOf ha.store ha.registered hb.store hb.registered hs ht
  exact (h.setStore hempty (Store.has_emptyAll ..).2).settle

/-- Both sessions may drop the interpreter. -/
theorem Matches.drop (h : a.Matches scopes b) (ha : a.Sound) (hb : b.Sound) :
    ∃ scopes', a.drop.Matches scopes' b.drop := by
  unfold Session.drop
  rw [← h.global]
  cases hs : a.global with
  | none => exact ⟨scopes, h⟩
  | some s =>
    obtain ⟨scopes', hmatches⟩ := h.clear ha hb (h.global_mem s hs).1
    exact ⟨scopes', { hmatches with global := rfl, global_mem := nofun }⟩

/-- Evaluating a text: the first session releases afterwards and the second does not. -/
theorem Matches.evaluateText (h : a.Matches scopes b) (ha : a.Sound) (config : Config)
    (text : String) (hs : s ∈ scopes ∧ a.store.Has s) :
    (a.evaluateText config s text).1 = (b.evaluateKeeping config s text).1 ∧
      ∃ scopes', (a.evaluateText config s text).2.Matches scopes'
          (b.evaluateKeeping config s text).2 ∧
        ∀ v, (a.evaluateText config s text).1 = .ok v →
          v.IsIn (Region.of scopes') (a.evaluateText config s text).2.store := by
  cases hread : read config.comments text with
  | error fault =>
    unfold Session.evaluateText Session.evaluateKeeping
    rw [hread]
    exact ⟨rfl, scopes, h, nofun⟩
  | ok tree =>
    obtain ⟨hmatches, hle, hsame, hvalue⟩ := h.run_evaluate config.maxDepth tree hs.1 hs.2
    have hkeeping : b.evaluateKeeping config s text = b.run (evaluate config.maxDepth s tree) := by
      rw [Session.evaluateKeeping, hread]
    rw [evaluateText_of_read hread, hkeeping]
    have hran := ha.run_evaluate config.maxDepth tree hs.2
    generalize a.run (evaluate config.maxDepth s tree) = ran at hmatches hle hsame hvalue hran ⊢
    obtain ⟨scopes', hreleased, hheld⟩ :=
      hmatches.release hran s (.scope s :: referents ran.1) <| by
        rw [map_scopeOf_referents]
        rintro t (_ | ⟨_, ht⟩)
        · exact ⟨hs.1, hle.has hs.2⟩
        · exact has_of_mem_heldBy hvalue ht
    rw [map_scopeOf_referents] at hheld
    refine ⟨hsame, scopes', hreleased, fun v hv => isIn_of_heldBy fun t ht => hheld t ?_⟩
    change ran.1 = .ok v at hv
    exact List.mem_cons_of_mem _ (hv ▸ ht)

/-- A session that releases nothing stays sound too. -/
theorem Sound.evaluateKeeping (h : a.Sound) (config : Config) (text : String)
    (hs : a.store.Has s) :
    (a.evaluateKeeping config s text).2.Sound ∧
      ∀ v, (a.evaluateKeeping config s text).1 = .ok v →
        v.IsIn (Region.of Set.univ) (a.evaluateKeeping config s text).2.store := by
  unfold Session.evaluateKeeping
  cases read config.comments text with
  | error fault => exact ⟨h, nofun⟩
  | ok tree =>
    obtain ⟨-, -, -, hvalue⟩ :=
      h.matches_self.run_evaluate config.maxDepth tree (Set.mem_univ s) hs
    exact ⟨h.run_evaluate config.maxDepth tree hs, hvalue⟩

/-! ### Steps -/

/-- Sessions that match on some set of scopes, whichever it is. -/
def agreement : Coupling Session Session where
  Related a b := ∃ scopes, a.Matches scopes b
  Allowed _ _ := True
  refl _ := trivial
  trans _ _ := trivial

end Session

namespace Host

open Session

variable {scopes : Set ScopeId} {a b : Session}

/-- What goes in lockstep on one set of scopes agrees. -/
theorem agrees_of_lockstep {α β : Type} {x : Host α} {y : Host β} {J : Session → α → β → Prop}
    {K : α → β → Prop} (h : Lockstep (coupling scopes) J x y a b)
    (hJ : ∀ session u v, J session u v → K u v) :
    Lockstep agreement (fun _ => K) x y a b :=
  h.weaken (fun hmatches => ⟨scopes, hmatches⟩) (fun _ => trivial) hJ

/-- What follows the choice of a scope, which changes nothing. -/
theorem scope_bind_agrees {α β : Type} {x : ScopeId → Host α} {y : ScopeId → Host β}
    {K : Session → α → β → Prop} (h : a.Matches scopes b) (name : ScopeName)
    (hxy : ∀ s, s ∈ scopes ∧ a.store.Has s → Lockstep agreement K (x s) (y s) a b) :
    Lockstep agreement K (scope name >>= x) (scope name >>= y) a b := by
  have hscope := scope_lockstep h name
  unfold Lockstep at hscope
  unfold Lockstep
  simp only [bind, EStateM.bind]
  rcases scope_cases name a with ⟨s, hs⟩ | ⟨e, hs⟩ <;>
    rcases scope_cases name b with ⟨t, ht⟩ | ⟨e', ht⟩ <;>
    simp only [hs, ht] at hscope ⊢
  · obtain ⟨-, -, rfl, hmem⟩ := hscope
    exact hxy s hmem
  · exact ⟨⟨scopes, h⟩, trivial, hscope.2.2⟩

/-- Evaluating a text in a named scope, with and without a release. -/
theorem evaluateText_agrees (h : a.Matches scopes b) (ha : a.Sound) (config : Session → Config)
    (hconfig : ∀ a b : Session, a.config = b.config → config a = config b) (text : String)
    (scopeName : ScopeName) (slotName : Option String) :
    Lockstep agreement (fun _ u v => u = v)
      (do
        let s ← scope scopeName
        yield slotName (← modifyGet fun session => session.evaluateText (config session) s text))
      (do
        let s ← scope scopeName
        yield slotName
          (← modifyGet fun session => session.evaluateKeeping (config session) s text)) a b := by
  refine scope_bind_agrees h scopeName fun s hs => ?_
  obtain ⟨hsame, scopes', hmatches, hvalue⟩ := h.evaluateText ha (config a) text hs
  refine Lockstep.modifyGet_bind trivial ?_
  rw [← hconfig a b h.config, ← hsame]
  exact agrees_of_lockstep (yield_lockstep hmatches slotName hvalue) fun _ _ _ => id

/-- **A step that is no release gives the same answer**, whether or not evaluations release. -/
theorem perform_agrees (h : a.Matches scopes b) (ha : a.Sound) (hb : b.Sound) {step : Step}
    (hstep : step.isRelease = false) :
    Lockstep agreement (fun _ u v => step.seen u = step.seen v) (perform step)
      (performKeeping step) a b := by
  by_cases hreclaims : Reclaims step
  · cases step with
    | evaluate text scopeName slotName =>
      exact (evaluateText_agrees h ha Session.config (fun _ _ => id) text scopeName slotName).mono
        fun _ _ _ => congrArg _
    | evaluateDefault text scopeName slotName =>
      exact (evaluateText_agrees h ha (fun _ => {}) (fun _ _ _ => rfl) text scopeName
        slotName).mono fun _ _ _ => congrArg _
    | clear scopeName =>
      refine scope_bind_agrees h scopeName fun s hs => ?_
      exact Lockstep.modifyGet_bind trivial (Lockstep.pure (h.clear ha hb hs.1) rfl)
    | dropInterpreter =>
      exact Lockstep.modifyGet_bind trivial (Lockstep.pure (h.drop ha hb) rfl)
    | release name => exact Bool.noConfusion hstep
    | _ => exact hreclaims.elim
  · have hperform : performKeeping step = perform step := by
      unfold performKeeping
      split
      · exact (hreclaims trivial).elim
      · exact (hreclaims trivial).elim
      · rfl
    rw [hperform]
    by_cases halive : ∃ name, step = .isAlive name
    · obtain ⟨name, rfl⟩ := halive
      refine agrees_of_lockstep (isAlive_lockstep h name) ?_
      rintro session _ _ ⟨⟨x, rfl⟩, y, rfl⟩
      rfl
    · have hlockstep := perform_lockstep hreclaims (fun name hname => halive ⟨name, hname⟩) h
      exact agrees_of_lockstep hlockstep fun _ _ _ => congrArg _

/-- A host that releases nothing after evaluations keeps a session sound. -/
theorem performKeeping_sound (h : a.Sound) (step : Step) :
    Lockstep soundness (fun _ _ _ => True) (performKeeping step) (performKeeping step) a a := by
  unfold performKeeping
  split
  · next text _ _ => exact evaluation_sound (fun h => h.evaluateKeeping _ text) h ..
  · next text _ _ => exact evaluation_sound (fun h => h.evaluateKeeping {} text) h ..
  · exact perform_sound h _

end Host

namespace Session

variable {scopes : Set ScopeId} {a b : Session}

/-- A session that releases nothing stays sound as well. -/
theorem Sound.stepKeeping (h : a.Sound) (step : Step) : (a.stepKeeping step).2.Sound :=
  sound_settle_of_lockstep (Host.performKeeping_sound h step)

/-- **A step that is no release keeps sessions in step**, and what is seen of the answers is the
same. -/
theorem Matches.step (h : a.Matches scopes b) (ha : a.Sound) (hb : b.Sound) {step : Step}
    (hstep : step.isRelease = false) :
    step.seen (a.step step).1 = step.seen (b.stepKeeping step).1 ∧
      ∃ scopes', (a.step step).2.Matches scopes' (b.stepKeeping step).2 := by
  have hperform := Host.perform_agrees h ha hb hstep
  unfold Lockstep at hperform
  unfold Session.step stepKeeping
  cases ha : Host.perform step a with
  | ok answer a' =>
    cases hb : Host.performKeeping step b with
    | error reason b' => simp only [ha, hb] at hperform
    | ok answer' b' =>
      simp only [ha, hb] at hperform ⊢
      obtain ⟨⟨scopes', hmatches⟩, -, hseen⟩ := hperform
      exact ⟨hseen, hmatches.settle⟩
  | error reason a' =>
    cases hb : Host.performKeeping step b with
    | ok answer' b' => simp only [ha, hb] at hperform
    | error reason' b' =>
      simp only [ha, hb] at hperform ⊢
      obtain ⟨⟨scopes', hmatches⟩, -, rfl⟩ := hperform
      exact ⟨rfl, hmatches.settle⟩

/-- **A release keeps a session in step with one that does nothing.** -/
theorem Matches.step_release (h : a.Matches scopes b) (ha : a.Sound) (name : ScopeName) :
    ∃ scopes', (a.step (.release name)).2.Matches scopes' b := by
  unfold Session.step
  rcases Host.scope_cases name a with ⟨s, hname⟩ | ⟨e, hname⟩
  · rw [Host.perform_release hname]
    obtain ⟨scopes', hmatches, -⟩ := h.release ha s [] (by simp)
    exact hmatches.settle_left
  · have hperform : Host.perform (.release name) a = .error e a := by
      change (Host.scope name >>= _) a = _
      simp only [bind, EStateM.bind, hname]
    rw [hperform]
    exact h.settle_left

/-! ### Scripts -/

/-- What is observed of a step is its answer, unless it is a release. -/
theorem observed_cons (step : Step) (script : List Step) (answer : Answer)
    (answers : List Answer) :
    observed (step :: script) (answer :: answers) =
      if step.isRelease then observed script answers
      else step.seen answer :: observed script answers := by
  unfold observed
  cases hstep : step.isRelease <;> simp [hstep]

/-- Releases are left out of a script one by one. -/
theorem withoutReleases_cons (step : Step) (script : List Step) :
    withoutReleases (step :: script) =
      if step.isRelease then withoutReleases script else step :: withoutReleases script := by
  unfold withoutReleases
  cases hstep : step.isRelease <;> simp [hstep]

/-- **A session that releases answers like one that does not**: what is seen of a script is what
is seen of the script without its releases, when evaluations release nothing either. -/
theorem Matches.steps (h : a.Matches scopes b) (ha : a.Sound) (hb : b.Sound)
    (script : List Step) :
    observed script (a.steps script).1 =
      observed (withoutReleases script) (b.stepsKeeping (withoutReleases script)).1 := by
  induction script generalizing a b scopes with
  | nil => rfl
  | cons first rest ih =>
    rw [withoutReleases_cons]
    cases hfirst : first.isRelease with
    | true =>
      obtain ⟨scopes', hmatches⟩ : ∃ scopes', (a.step first).2.Matches scopes' b := by
        cases first with
        | release name => exact h.step_release ha name
        | _ => exact Bool.noConfusion hfirst
      rw [if_pos rfl, ← ih hmatches (ha.step first) hb]
      exact (observed_cons ..).trans (if_pos hfirst)
    | false =>
      obtain ⟨hseen, scopes', hmatches⟩ := h.step ha hb hfirst
      rw [if_neg Bool.false_ne_true]
      change observed (first :: rest) ((a.step first).1 :: ((a.step first).2.steps rest).1) =
        observed (first :: withoutReleases rest) ((b.stepKeeping first).1 ::
          ((b.stepKeeping first).2.stepsKeeping (withoutReleases rest)).1)
      rw [observed_cons, observed_cons, hfirst, hseen,
        ih hmatches (ha.step first) (hb.stepKeeping first)]

/-- **Releasing cannot be observed.**  Scripts that differ only in their releases show the same
answers, and so does a session that releases nothing at all. -/
theorem observed_eq_of_withoutReleases_eq (config : Config) {script script' : List Step}
    (h : withoutReleases script = withoutReleases script') :
    observed script ((new config).steps script).1 =
        observed script' ((new config).steps script').1 ∧
      observed script ((new config).steps script).1 =
        observed (withoutReleases script)
          ((new config).stepsKeeping (withoutReleases script)).1 := by
  have hnew := sound_new config
  have hsame (script : List Step) := hnew.matches_self.steps hnew hnew script
  refine ⟨?_, hsame script⟩
  rw [hsame script, hsame script', h]

/-- The host keeps a procedure, drops its handle to the scope of the procedure, and takes another
one after some further steps. -/
def borrowing (between : List Step) : List Step :=
  [.newScope "a" (some .global),
    .define (.handle "a") "f" (.procedure "f" [] (.atom "1") (some (.handle "a"))),
    .get (.handle "a") "f" (some "f"), .dropHandle "a"] ++ between ++
  [.definingScope "b" "f", .evaluate "(f)" (.handle "b") none, .listing (.handle "b") false]

/-- Two releases in between make no difference to what the host sees. -/
theorem borrowing_observed :
    observed (borrowing [.release .global, .release .global])
        ((new {}).steps (borrowing [.release .global, .release .global])).1 =
      observed (borrowing []) ((new {}).steps (borrowing [])).1 := by
  have hscripts : withoutReleases (borrowing [.release .global, .release .global]) =
      withoutReleases (borrowing []) := rfl
  exact (observed_eq_of_withoutReleases_eq {} hscripts).1

end Session
end StrictScheme
