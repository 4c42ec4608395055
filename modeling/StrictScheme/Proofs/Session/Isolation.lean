/-
# Trees do not notice each other

A host works on several trees.  Each of its names stands for something of one tree, and
a step is for a tree when it mentions the names of that tree only.  A step for another
tree may still bind a value that the host has from this one, or compare something of
both.  The answers to the steps for one tree are the same without the steps for the
others, as long as no procedure is bound in another tree than the one it was defined in
(`Session.answers_isolated`).

Two sessions are compared, one with all the steps and one with those for the tree.
They are twins on the scopes of the tree.  A step for the tree keeps them so
(`Session.Twins.step`).  A step for another tree is a step on the other side of the
border, so it leaves the tree alone; after it the first session gives out other numbers
than before (`Session.Twins.step_other`).
-/

import StrictScheme.Proofs.Session.Twins
import StrictScheme.Proofs.Store.Renew

namespace StrictScheme

/-! ### Steps for a tree -/

/-- The names that a step is addressed to: all that it mentions, except for a slot whose value it
binds and for what it compares. -/
def Step.addressed : Step → List HostName
  | .define scope _ (.slot _) | .assign scope _ (.slot _) => [scope.hostName]
  | .sameScope _ _ | .equal (.slot _) (.slot _) => []
  | step => step.names

/-- Whether a step mentions none but the given names. -/
def Step.isFor (names : HostName → Bool) (step : Step) : Bool :=
  step.names.all names

/-- Whether a step is addressed to none of the given names. -/
def Step.keepsOff (names : HostName → Bool) (step : Step) : Bool :=
  step.addressed.all (!names ·)

/-- Every procedure that is bound somewhere was defined in the same tree. -/
def Store.TreesApart (store : Store) : Prop :=
  ∀ s scope, store.scope? s = some scope → ∀ p ∈ scope.procedures,
    store.rootOf p.scope = store.rootOf s

/-- Trees are apart if every bound procedure was defined in the tree in which it is bound. -/
theorem Store.treesApart_iff {store : Store} :
    store.TreesApart ↔ ∀ s ∈ store.ids, ∀ p ∈ ((store.scope? s).map Scope.procedures).getD [],
      store.rootOf p.scope = store.rootOf s := by
  constructor
  · intro h s hs p hp
    obtain ⟨scope, hscope⟩ := mem_ids.1 hs
    rw [hscope] at hp
    exact h s scope hscope p hp
  · intro h s scope hscope p hp
    refine h s (mem_ids.2 ⟨scope, hscope⟩) p ?_
    rwa [hscope]

instance (store : Store) : Decidable store.TreesApart :=
  decidable_of_iff _ Store.treesApart_iff.symm

/-- An answer without the numbers of scopes and procedures, which no host is shown. -/
def Answer.unnumbered : Answer → Answer :=
  Answer.rename ⟨fun _ => 0, fun _ => 0⟩

/-- An answer without its numbers is the same under other numbers. -/
theorem Answer.unnumbered_rename (r : Renaming) (answer : Answer) :
    (answer.rename r).unnumbered = answer.unnumbered := by
  cases answer with
  | value v => cases v <;> rfl
  | _ => rfl

namespace Session

/-- The answers to the steps of a script that mention none but the given names. -/
def answersFor (names : HostName → Bool) (script : List Step) (answers : List Answer) :
    List Answer :=
  ((script.zip answers).filter (·.1.isFor names)).map (·.2)

variable {names : HostName → Bool} {r : Renaming} {region other : Region} {a a' b : Session}
  {step : Step}

/-! ### The two sides of a border -/

/-- The others of the others are the names themselves. -/
theorem others_others (names : HostName → Bool) : (fun name => !!names name) = names :=
  funext fun _ => Bool.not_not _

/-- Only the numbers that were given out count. -/
theorem Split.congr (h : Split names region a) (hnumbered : other.numbered)
    (hscopes : ∀ s < a.store.nextScope, s ∈ other.scopes ↔ s ∈ region.scopes)
    (hprocedures : ∀ id < a.store.nextProcedure,
      id ∈ other.procedures ↔ id ∈ region.procedures) : Split names other a := by
  have hhas {s : ScopeId} (hs : a.store.Has s) : s ∈ other.scopes ↔ s ∈ region.scopes := by
    obtain ⟨scope, hscope⟩ := hs
    exact hscopes s (Store.lt_nextScope hscope)
  refine ⟨hnumbered, ⟨h.store.sound, h.store.registered, ?_, ?_⟩, ⟨?_, ?_⟩, ⟨?_, ?_⟩, ?_⟩
  · intro s scope t hscope ht
    rw [hhas ⟨scope, hscope⟩, hhas (h.store.sound.has_of_mem_references hscope ht)]
    exact h.store.references hscope ht
  · intro s scope p hscope hp
    obtain ⟨hiff, hlt⟩ := h.store.serials hscope hp
    rw [hhas ⟨scope, hscope⟩, hprocedures p.id hlt]
    exact ⟨hiff, hlt⟩
  · intro s hs
    obtain ⟨hmem, hs⟩ := h.mine.roots s hs
    exact ⟨(hhas hs).2 hmem, hs⟩
  · intro id hid
    obtain ⟨hmem, hlt⟩ := h.mine.serials id hid
    exact ⟨(hprocedures id (hlt h.numbered)).2 hmem, fun _ => hlt h.numbered⟩
  · intro s hs
    obtain ⟨hmem, hs⟩ := h.others.roots s hs
    exact ⟨mt (hhas hs).1 hmem, hs⟩
  · intro id hid
    obtain ⟨hmem, hlt⟩ := h.others.serials id hid
    exact ⟨mt (hprocedures id (hlt h.numbered)).1 hmem, fun _ => hlt h.numbered⟩
  · have hsame : {s | s ∉ other.scopes ∧ a.store.Has s} =
        {s | s ∉ region.scopes ∧ a.store.Has s} := by
      ext s
      exact and_congr_left fun hs => not_congr (hhas hs)
    rw [Store.Steady, hsame]
    exact h.steady

/-- **A border can be seen from both sides.** -/
theorem Split.swap (h : Split names region a) (hsettled : a.Settled) :
    Split (!names ·) region.compl a := by
  refine ⟨h.numbered, h.store.compl, h.others, ?_, ?_⟩
  · rw [others_others, Region.compl_compl]
    exact h.mine
  · rw [others_others]
    rintro s ⟨hs, hhas⟩
    have hmem : s ∈ region.scopes := not_not.1 hs
    refine ⟨hhas, (hsettled s hhas).2.imp (fun hroot => ?_) ?_⟩
    · exact ((mem_roots_iff names).1 hroot).resolve_right fun hother =>
        (h.others.roots s hother).1 hmem
    · -- what refers into the region is in it, so the region is held up by itself
      rintro ⟨u, hu, scope, hscope, ht⟩
      exact ⟨u, ⟨not_not.2 ((h.store.references hscope ht).1 hmem), hu⟩, scope, hscope, ht⟩

/-- The numbers of a region that were given out. -/
def issued (region : Region) (session : Session) : Region where
  scopes := {s | s ∈ region.scopes ∧ s < session.store.nextScope}
  procedures := {id | id ∈ region.procedures ∧ id < session.store.nextProcedure}
  numbered := region.numbered

/-- A session next to itself, seen from the other side. -/
theorem Split.twins_other (h : Split names region a) (hsettled : a.Settled) :
    Twins (!names ·) .same (issued region a).compl a a := by
  have hissued : Split names (issued region a) a :=
    h.congr h.numbered (fun s hs => and_iff_left hs) fun id hid => and_iff_left hid
  have hswap := hissued.swap hsettled
  refine ⟨hswap.mirrors_self (fun k hk => ?_) fun k hk => ?_, hswap, ?_⟩
  · exact Nat.not_lt.2 (Nat.le_add_right ..) hk.2
  · exact Nat.not_lt.2 (Nat.le_add_right ..) hk.2
  · rwa [Region.image_same]

/-- **Twins stay twins when something happens on the other side in one of them.** -/
theorem Twins.renew (h : Twins names r region a b)
    (hsplit : Split (!names ·) (issued region a).compl a')
    (huntouched : Untouched (!names ·) (issued region a).compl a a') (hsettled : a'.Settled) :
    ∃ r' region', Twins names r' region' a' b := by
  have hle := huntouched.nextScope
  have hle' := huntouched.nextProcedure
  have hsame {s : ScopeId} (hs : s ∈ region.scopes) (hlt : s < a.store.nextScope) :
      a'.store.scope? s = a.store.scope? s :=
    huntouched.outside fun hout => hout ⟨hs, hlt⟩
  have hheld : a'.holdings names = a.holdings names := by
    have hothers := huntouched.others
    rwa [others_others] at hothers
  -- What the other side made in the meantime has numbers that the region had in stock, so the
  -- region keeps what was given out before and takes its new numbers from behind.
  have hleft : Split names (Store.renewed region a.store a'.store) a' := by
    have hswap := hsplit.swap hsettled
    rw [others_others, Region.compl_compl] at hswap
    refine hswap.congr h.left.numbered (fun s hs => ?_) fun id hid => ?_
    · exact or_iff_left (Nat.not_le_of_lt hs)
    · exact or_iff_left (Nat.not_le_of_lt hid)
  have hstore := h.mirrors.store.renew h.left.store hleft.store hsame hle hle'
  refine ⟨_, _, ⟨?_, ?_, hleft.mine, hstore⟩, hleft, ?_⟩
  · rw [h.mirrors.config, huntouched.config]
  · rw [hheld, h.mirrors.holdings]
    refine Holdings.rename_congr (fun s hs => ?_) fun id hid => ?_
    · obtain ⟨scope, hscope⟩ := (h.left.mine.roots s hs).2
      exact (restart_of_lt ((Store.lt_nextScope hscope).trans_le hle)).symm
    · have hlt := (h.left.mine.serials id hid).2 h.left.numbered
      exact (restart_of_lt (hlt.trans_le hle')).symm
  · rw [h.mirrors.store.image_renewed hle hle']
    exact h.right

/-! ### Passing values on -/

/-- A step that binds the value of a slot to a name. -/
inductive Passes : Step → ScopeName → String → String → Prop
  | define (scopeName : ScopeName) (name slotName : String) :
      Passes (.define scopeName name (.slot slotName)) scopeName name slotName
  | assign (scopeName : ScopeName) (name slotName : String) :
      Passes (.assign scopeName name (.slot slotName)) scopeName name slotName

variable {scopeName : ScopeName} {name slotName : String} {s t : ScopeId}

/-- Defining a name changes nothing, or it binds the name. -/
theorem define_cases {store : Store} (hs : store.Has s) (name : String) (v : Value) :
    (∃ e, Action.define s name v store = .error e store) ∨
      ∃ t ∈ store.chain s, Action.define s name v store = .ok () (store.bind t name v) := by
  cases hbound : store.bindsLocally s name with
  | true => exact .inl ⟨_, Action.define_eq_error.2 ⟨hbound, rfl, rfl⟩⟩
  | false =>
    obtain ⟨scope, hscope⟩ := hs
    refine .inr ⟨s, ?_, Action.define_eq_ok.2 ⟨hbound, rfl⟩⟩
    rw [Store.chain_eq hscope]
    exact List.mem_cons_self ..

/-- Assigning to a name changes nothing, or it binds the name. -/
theorem assign_cases (store : Store) (s : ScopeId) (name : String) (v : Value) :
    (∃ e, Action.assign s name v store = .error e store) ∨
      ∃ t ∈ store.chain s, Action.assign s name v store = .ok () (store.bind t name v) := by
  cases ht : store.binder? s name with
  | none =>
    exact .inl ⟨_, Action.assign_eq_error.2 ⟨Store.lookup_eq_none_iff.2 ht, rfl, rfl⟩⟩
  | some t => exact .inr ⟨t, List.mem_of_find?_eq_some ht, Action.assign_eq_ok.2 ⟨t, ht, rfl⟩⟩

/-- **Passing a value on** changes nothing, or it binds the value in the named scope or in one
around it. -/
theorem Passes.step_cases (h : Passes step scopeName name slotName)
    (hhas : ∀ s, Host.scope scopeName a = .ok s a → a.store.Has s) :
    (a.step step).2 = a.settle ∨
      ∃ s t v, Host.scope scopeName a = .ok s a ∧ t ∈ a.store.chain s ∧
        a.slots.get? slotName = some v ∧
        (a.step step).2 = ({ a with store := a.store.bind t name v } : Session).settle := by
  have hpass {put : ScopeId → Value → Action Unit}
      (hperform : Host.perform step = do
        let s ← Host.scope scopeName
        let v ← Host.slot slotName
        return Host.confirm (← Host.run (put s v)))
      (hput : ∀ s v, a.store.Has s → (∃ e, put s v a.store = .error e a.store) ∨
        ∃ t ∈ a.store.chain s, put s v a.store = .ok () (a.store.bind t name v)) :
      (a.step step).2 = a.settle ∨
        ∃ s t v, Host.scope scopeName a = .ok s a ∧ t ∈ a.store.chain s ∧
          a.slots.get? slotName = some v ∧
          (a.step step).2 = ({ a with store := a.store.bind t name v } : Session).settle := by
    rw [Session.step, hperform]
    simp only [bind, EStateM.bind]
    rcases Host.scope_cases scopeName a with ⟨s, hname⟩ | ⟨e, hname⟩
    · rcases Host.slot_cases slotName a with ⟨v, hv, hslot⟩ | ⟨e, hslot⟩
      · have hrun : Host.run (put s v) a = .ok (a.run (put s v)).1 (a.run (put s v)).2 := rfl
        simp only [hname, hslot, hrun]
        rcases hput s v (hhas s hname) with ⟨e, hfail⟩ | ⟨t, ht, hok⟩
        · rw [Session.run, hfail]
          exact .inl rfl
        · rw [Session.run, hok]
          exact .inr ⟨s, t, v, rfl, ht, hv, rfl⟩
      · exact .inl (by simp only [hname, hslot])
    · exact .inl (by simp only [hname])
  cases h with
  | define => exact hpass rfl fun s v hs => define_cases hs name v
  | assign => exact hpass rfl fun s v _ => assign_cases a.store s name v

/-- **A procedure that is passed on to another tree is bound there**, so the trees are no longer
apart. -/
theorem rootOf_of_treesApart {p : Procedure} (hs : s ∈ a.roots) (hp : p.scope ∈ a.roots)
    (ht : t ∈ a.store.chain s)
    (hsound : ({ a with store := a.store.bind t name (.procedure p) } : Session).settle.Sound)
    (hapart : ({ a with store := a.store.bind t name (.procedure p) } :
      Session).settle.store.TreesApart) :
    a.store.rootOf p.scope = a.store.rootOf t := by
  set after := ({ a with store := a.store.bind t name (.procedure p) } : Session).settle
  have hchain {u : ScopeId} (hu : after.store.Has u) : after.store.chain u = a.store.chain u :=
    (Store.chain_settle hu).trans
      (Store.chain_update (Scope.outer_bind · name (.procedure p)) a.store t u)
  have hroot {u : ScopeId} (hu : after.store.Has u) :
      after.store.rootOf u = a.store.rootOf u := by
    rw [Store.rootOf, Store.rootOf, hchain hu]
  have hthas : after.store.Has t := by
    rw [← hchain (hsound.roots s hs)] at ht
    exact (Store.ClosedOn.chain_mem hsound.store (Set.mem_univ s) ht).2
  obtain ⟨scope, hscope⟩ := hthas
  have hbound : (a.store.bind t name (.procedure p)).scope? t = some scope :=
    Store.scope?_of_settle hscope
  rw [Store.scope?_bind, if_pos rfl] at hbound
  obtain ⟨found, -, rfl⟩ := Option.map_eq_some_iff.1 hbound
  have hmem : p ∈ (found.bind name (.procedure p)).procedures :=
    Scope.mem_procedures.2 (Table.mem_values_insert_self ..)
  have hsame := hapart t _ hscope p hmem
  rwa [hroot (hsound.roots _ hp), hroot ⟨_, hscope⟩] at hsame

/-- Passing on a value from the other side: if it is a procedure, it is not bound. -/
theorem Twins.pass (h : Twins names .same region a a) (ha : a.Reachable)
    (hpasses : Passes step scopeName name slotName) (hscope : names scopeName.hostName = true)
    (hslot : names (.slot slotName) = false) (hapart : (a.step step).2.store.TreesApart) :
    Split names region (a.step step).2 ∧ Untouched names region a (a.step step).2 := by
  have hnamed (s : ScopeId) (hname : Host.scope scopeName a = .ok s a) :
      s ∈ region.scopes ∧ a.store.Has s := by
    have hlockstep := Host.scope_mirrors h.mirrors hscope
    unfold Lockstep at hlockstep
    simp only [hname] at hlockstep
    exact hlockstep.2.2.2
  have hsound := ha.sound.step step
  rcases hpasses.step_cases fun s hname => (hnamed s hname).2 with
    hstep | ⟨s, t, v, hname, ht, hv, hstep⟩
  · rw [hstep, ha.settled.settle_eq]
    exact ⟨h.left, .refl ..⟩
  · have htmem := (h.left.store.closedOn.chain_mem (hnamed s hname).1 ht).1
    have hother : v ∈ (a.holdings (!names ·)).slots.values :=
      Table.mem_values_of_get? ((Table.get?_only (by simp [hslot]) _).trans hv)
    rw [hstep] at hsound hapart ⊢
    cases hp : v.procedure? with
    | none =>
      have hbind := h.mirrors.store.bind htmem name (Value.isIn_of_procedure?_eq_none hp)
      rw [Value.rename_same] at hbind
      have hle : a.store.Extends region (a.store.bind t name v) :=
        Store.extends_bind htmem name v
      have hmirrors := h.mirrors.setStore hbind hle
      have hwithin : Within names region a { a with store := a.store.bind t name v } :=
        ⟨rfl, rfl, hle⟩
      have hsplit := h.left.within hmirrors hwithin
      have htwins : Twins names .same region _ _ :=
        ⟨hmirrors, hsplit, by rwa [Region.image_same]⟩
      obtain ⟨hsettled, hsame⟩ := htwins.settle
      exact ⟨hsettled.left, hwithin.untouched.trans hsame⟩
    | some p =>
      -- The procedure was defined on the other side, and binding it would give it the root of a
      -- scope on this side.
      obtain rfl := Value.procedure?_eq_some.1 hp
      have hs : s ∈ a.roots := by
        have hlockstep := scope_mem_roots ha.sound scopeName
        unfold Lockstep at hlockstep
        simp only [hname] at hlockstep
        exact hlockstep.2.2.2
      have hproot : p.scope ∈ a.roots := mem_roots.2 (.inr (.inr
        ⟨_, Table.mem_values_of_get? hv, mem_captured.2 ⟨p, rfl, rfl⟩⟩))
      have hroot := rootOf_of_treesApart hs hproot ht hsound hapart
      have hin : a.store.rootOf p.scope ∈ region.scopes := by
        rw [hroot]
        exact h.left.store.rootOf_mem htmem
      exact absurd (h.left.store.rootOf_mem_iff.1 hin) (h.left.others.slot hother p rfl).1

/-! ### Steps for other trees -/

/-- Comparing two scopes, or the values in two slots, changes nothing. -/
theorem step_compare
    (hstep : (∃ x y, step = .sameScope x y) ∨ ∃ x y, step = .equal (.slot x) (.slot y)) :
    (a.step step).2 = a.settle := by
  have hcompare {α : Type} {x y : Host α} {compare : α → α → Answer}
      (hperform : Host.perform step = do return compare (← x) (← y))
      (hx : (∃ v, x a = .ok v a) ∨ ∃ e, x a = .error e a)
      (hy : (∃ v, y a = .ok v a) ∨ ∃ e, y a = .error e a) : (a.step step).2 = a.settle := by
    rw [Session.step, hperform]
    simp only [bind, EStateM.bind]
    rcases hx with ⟨v, hx⟩ | ⟨e, hx⟩
    · rcases hy with ⟨w, hy⟩ | ⟨e, hy⟩
      · simp only [hx, hy]
        rfl
      · simp only [hx, hy]
    · simp only [hx]
  have hslot (name : String) :
      (∃ v, Host.slot name a = .ok v a) ∨ ∃ e, Host.slot name a = .error e a := by
    rcases Host.slot_cases name a with ⟨v, -, hv⟩ | herror
    · exact .inl ⟨v, hv⟩
    · exact .inr herror
  rcases hstep with ⟨x, y, rfl⟩ | ⟨x, y, rfl⟩
  · exact hcompare rfl (Host.scope_cases x a) (Host.scope_cases y a)
  · exact hcompare rfl (hslot x) (hslot y)

/-- A step that keeps off some names is for the other names, or it passes on a value that stands
under one of them, or it only compares. -/
theorem keepsOff_cases (h : step.keepsOff names = true) :
    (∀ name ∈ step.names, (!names name) = true) ∨
      (∃ scopeName name slotName, Passes step scopeName name slotName ∧
        (!names scopeName.hostName) = true ∧ (!names (.slot slotName)) = false) ∨
      (∃ x y, step = .sameScope x y) ∨ ∃ x y, step = .equal (.slot x) (.slot y) := by
  have hall := List.all_eq_true.1 h
  have hpass {scopeName : ScopeName} {name slotName : String}
      (hpasses : Passes step scopeName name slotName)
      (hnames : step.names = [scopeName.hostName, .slot slotName])
      (haddressed : step.addressed = [scopeName.hostName]) :
      (∀ name ∈ step.names, (!names name) = true) ∨
        ∃ scopeName name slotName, Passes step scopeName name slotName ∧
          (!names scopeName.hostName) = true ∧ (!names (.slot slotName)) = false := by
    have hscope : (!names scopeName.hostName) = true :=
      hall _ (by rw [haddressed]; exact List.mem_singleton_self _)
    cases hslot : !names (.slot slotName) with
    | true =>
      refine .inl fun name hname => ?_
      rw [hnames] at hname
      rcases List.mem_cons.1 hname with rfl | hname
      · exact hscope
      · rw [List.mem_singleton.1 hname, hslot]
    | false => exact .inr ⟨_, _, _, hpasses, hscope, hslot⟩
  unfold Step.addressed at hall
  split at hall
  · exact (hpass (.define ..) rfl rfl).imp_right .inl
  · exact (hpass (.assign ..) rfl rfl).imp_right .inl
  · exact .inr (.inr (.inl ⟨_, _, rfl⟩))
  · exact .inr (.inr (.inr ⟨_, _, rfl⟩))
  · exact .inl hall

/-- **A step for another tree** keeps twins, though only one of them takes it. -/
theorem Twins.step_other (h : Twins names r region a b) (ha : a.Reachable)
    (hstep : step.keepsOff names = true) (hapart : (a.step step).2.store.TreesApart) :
    ∃ r' region', Twins names r' region' (a.step step).2 b := by
  have hother := h.left.twins_other ha.settled
  have hafter : Split (!names ·) (issued region a).compl (a.step step).2 ∧
      Untouched (!names ·) (issued region a).compl a (a.step step).2 := by
    rcases keepsOff_cases hstep with
      hnames | ⟨scopeName, name, slotName, hpasses, hscope, hslot⟩ | hcompares
    · obtain ⟨-, htwins, huntouched⟩ := hother.step hnames
      exact ⟨htwins.left, huntouched⟩
    · exact hother.pass ha hpasses hscope hslot hapart
    · rw [step_compare hcompares, ha.settled.settle_eq]
      exact ⟨hother.left, .refl ..⟩
  exact h.renew hafter.1 hafter.2 (settled_step a step)

/-! ### Scripts -/

/-- The answer to a step counts if the step is for the names. -/
theorem answersFor_cons (step : Step) (script : List Step) (answer : Answer)
    (answers : List Answer) :
    answersFor names (step :: script) (answer :: answers) =
      if step.isFor names then answer :: answersFor names script answers
      else answersFor names script answers := by
  unfold answersFor
  cases hstep : step.isFor names <;> simp [hstep]

/-- **Twins answer alike**: what the first answers to the steps for the tree, among all the steps
of a script, the second answers to these alone. -/
theorem Twins.steps (h : Twins names r region a b) (ha : a.Reachable) {script : List Step}
    (hscript : ∀ step ∈ script, step.isFor names = true ∨ step.keepsOff names = true)
    (hapart : ∀ before, before <+: script → (a.steps before).2.store.TreesApart) :
    (answersFor names script (a.steps script).1).map Answer.unnumbered =
      (b.steps (script.filter (·.isFor names))).1.map Answer.unnumbered := by
  -- the renaming and the region change whenever the first session takes a step alone
  induction script generalizing a b r region with
  | nil => rfl
  | cons first rest ih =>
    have hscript' := fun step hstep => hscript step (List.mem_cons_of_mem first hstep)
    have hapart' (before : List Step) (hbefore : before <+: rest) :
        ((a.step first).2.steps before).2.store.TreesApart :=
      hapart (first :: before) (List.cons_prefix_cons.2 ⟨rfl, hbefore⟩)
    change (answersFor names (first :: rest)
      ((a.step first).1 :: ((a.step first).2.steps rest).1)).map _ = _
    rw [answersFor_cons]
    cases hfirst : first.isFor names with
    | true =>
      obtain ⟨hanswer, htwins, -⟩ := h.step (List.all_eq_true.1 hfirst)
      rw [if_pos rfl, List.filter_cons_of_pos hfirst, List.map_cons,
        ih htwins (ha.step first) hscript' hapart']
      change _ = ((b.step first).1 :: ((b.step first).2.steps _).1).map _
      rw [List.map_cons, hanswer, Answer.unnumbered_rename]
    | false =>
      have hkeeps := (hscript first (List.mem_cons_self ..)).resolve_left (by simp [hfirst])
      obtain ⟨r', region', htwins⟩ := h.step_other ha hkeeps (hapart' [] (List.nil_prefix ..))
      rw [if_neg Bool.false_ne_true, List.filter_cons_of_neg (by simp [hfirst])]
      exact ih htwins (ha.step first) hscript' hapart'

/-- In a new session a host has the global scope under its name, and nothing else. -/
theorem mem_roots_new {config : Config} {s : ScopeId} :
    s ∈ ((new config).holdings names).roots ↔ names .global = true ∧ s = 0 := by
  have hglobal : ((new config).holdings names).global =
      if names .global then some 0 else none := rfl
  have hhandles : ((new config).holdings names).handles.values = [] := rfl
  have hslots : ((new config).holdings names).slots.values = [] := rfl
  rw [Holdings.mem_roots, hglobal, hhandles, hslots]
  cases names .global <;> simp [eq_comm]

/-- A new session is split by the region of its global scope, or of all other numbers. -/
theorem split_new (names : HostName → Bool) (config : Config) :
    Split names ⟨{s | names .global = true ∨ s ≠ 0}, Set.univ, True⟩ (new config) := by
  have hsound := sound_new config
  have hserials (names : HostName → Bool) : ((new config).holdings names).serials = [] := rfl
  refine ⟨trivial, ⟨hsound.store, hsound.registered, ?_, ?_⟩, ⟨fun s hs => ⟨?_, ?_⟩, ?_⟩,
    ⟨fun s hs => ⟨?_, ?_⟩, ?_⟩, ?_⟩
  · intro s scope t hscope ht
    exact ((scope?_new hscope).2.2 t ht).elim
  · intro s scope p hscope hp
    exact ((scope?_new hscope).2.2 _ (Scope.mem_references.2 (.inr ⟨p, hp, rfl⟩))).elim
  · exact .inl (mem_roots_new.1 hs).1
  · exact hsound.roots s ((mem_roots_iff names).2 (.inl hs))
  · rw [hserials]
    exact nofun
  · obtain ⟨hname, rfl⟩ := mem_roots_new.1 hs
    simpa [Region.compl] using hname
  · exact hsound.roots s ((mem_roots_iff names).2 (.inr hs))
  · rw [hserials]
    exact nofun
  · rintro s ⟨hs, hhas⟩
    obtain ⟨scope, hscope⟩ := hhas
    refine ⟨⟨scope, hscope⟩, .inl ?_⟩
    rcases (mem_roots_iff names).1 (scope?_new hscope).1 with hmine | hother
    · exact absurd (.inl (mem_roots_new.1 hmine).1) hs
    · exact hother

/-- A new session is a twin of itself. -/
theorem twins_new (names : HostName → Bool) (config : Config) :
    Twins names .same ⟨{s | names .global = true ∨ s ≠ 0}, Set.univ, True⟩ (new config)
      (new config) := by
  have hsplit := split_new names config
  refine ⟨hsplit.mirrors_self (fun k => .inr ?_) fun _ => Set.mem_univ _, hsplit, ?_⟩
  · exact Nat.ne_of_gt (Nat.lt_add_right k Nat.one_pos)
  · rwa [Region.image_same]

/-- **Trees are isolated.**  The answers to the steps for one tree are the same when the steps for
the other trees are left out, in whatever order they come. -/
theorem answers_isolated (config : Config) (names : HostName → Bool) {script : List Step}
    (hscript : ∀ step ∈ script, step.isFor names = true ∨ step.keepsOff names = true)
    (hapart : ∀ before, before <+: script →
      ((new config).steps before).2.store.TreesApart) :
    (answersFor names script ((new config).steps script).1).map Answer.unnumbered =
      ((new config).steps (script.filter (·.isFor names))).1.map Answer.unnumbered :=
  (twins_new names config).steps (.new config) hscript hapart

/-- What a host has of a tree of its own, beside that of the interpreter. -/
def ofOwnTree : HostName → Bool
  | .handle "b" | .slot "f" | .watch "w" => true
  | _ => false

/-- Work on two trees by turns.  The last definition of the first tree would bind a procedure of
the second, but the name is taken. -/
def neighbours : List Step :=
  [.define .global "x" (.number 1), .newGlobal "b",
    .define (.handle "b") "f" (.procedure "f" [] (.atom "x") (some (.handle "b"))),
    .get (.handle "b") "f" (some "f"), .watch "f" "w", .define .global "x" (.slot "f"),
    .clear .global, .dropSlot "f", .isAlive "w", .clear (.handle "b"), .dropInterpreter,
    .isAlive "w"]

/-- The work on one tree, with and without the work on the other one. -/
theorem neighbours_isolated :
    (∀ step ∈ neighbours, step.isFor ofOwnTree = true ∨ step.keepsOff ofOwnTree = true) ∧
      (answersFor ofOwnTree neighbours ((new {}).steps neighbours).1).map Answer.unnumbered =
        ((new {}).steps (neighbours.filter (·.isFor ofOwnTree))).1.map Answer.unnumbered := by
  have hscript : ∀ step ∈ neighbours,
      step.isFor ofOwnTree = true ∨ step.keepsOff ofOwnTree = true := by
    decide
  have hapart (before : List Step) (hbefore : before <+: neighbours) :
      ((new {}).steps before).2.store.TreesApart := by
    have hall : ∀ before ∈ neighbours.inits, ((new {}).steps before).2.store.TreesApart := by
      decide +kernel
    exact hall before ((List.mem_inits _ _).2 hbefore)
  exact ⟨hscript, answers_isolated {} ofOwnTree hscript hapart⟩

end Session
end StrictScheme
