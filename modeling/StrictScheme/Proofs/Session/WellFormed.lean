/-
# Sessions of texts only

A host that only evaluates texts brings nothing into a session but what the reader lets
through.  Names come from atoms that were read and taken for names; procedures come from
definitions, with a body that was read inside them; and every scope is made inside the
global scope or inside the one in which a procedure was defined.

`Store.WellFormed` collects this.  Every evaluation of a tree that was read keeps to it
(`reading`), and taking scopes out or emptying them takes nothing from it, so it holds of
every session that texts lead to (`Session.steps_wellFormed`).
-/

import StrictScheme.Proofs.Eval.Local
import StrictScheme.Proofs.Reader.Layout
import StrictScheme.Proofs.Session.Clear

namespace StrictScheme

variable {a b : Store} {root s t : ScopeId} {tree : SExpr} {name : String} {v : Value}
  {p : Procedure}

/-! ### What is read -/

namespace SExpr

/-- The atoms of a tree that was read can be read. -/
theorem readable_of_read {comments : Bool} {text : String} (h : read comments text = .ok tree) :
    tree.Readable := by
  have hwrites := writes_of_read_eq_ok h
  intro x hx
  obtain ⟨hne, hchars⟩ := hwrites.splits.isWord ((mem_atoms tree).1 hx)
  refine ⟨fun hempty => hne (by rw [hempty]; rfl), fun c hc => ?_, hwrites.literals x hx⟩
  have hatom := isAtomChar_of_joinsAtom (hchars c hc)
  simpa [Lexeme.isAtomChar, and_assoc] using hatom

/-- **Names that were read are identifiers.** -/
theorem Readable.isIdentifier (h : tree.Readable) (hname : name ∈ tree.atoms)
    (hatom : Atom.ofToken name = .identifier name) : IsIdentifier name := by
  obtain ⟨hne, hchars, hrefusal⟩ := h name hname
  exact isIdentifier_of_refusal? hne hchars hrefusal hatom

/-- A tree that can be part of a source text. -/
structure IsSource (tree : SExpr) : Prop where
  readable : tree.Readable
  nesting : tree.nesting ≤ maxNesting

/-- What was read is a source. -/
theorem isSource_of_read {comments : Bool} {text : String} (h : read comments text = .ok tree) :
    tree.IsSource :=
  ⟨readable_of_read h, (writes_of_read_eq_ok h).nesting⟩

/-- The elements of a source nest less deeply than a reader allows. -/
theorem IsSource.nesting_lt {elements : List SExpr} (h : (SExpr.list elements).IsSource)
    (htree : tree ∈ elements) : tree.nesting < maxNesting := by
  have hle := nestingAll_le.1 (Nat.le_refl (nestingAll elements)) tree htree
  have hlist := h.nesting
  rw [SExpr.nesting] at hlist
  omega

/-- They are sources. -/
theorem IsSource.element {elements : List SExpr} (h : (SExpr.list elements).IsSource)
    (htree : tree ∈ elements) : tree.IsSource where
  readable x hx := h.readable x (mem_atomsAll.2 ⟨tree, htree, hx⟩)
  nesting := Nat.le_of_lt (h.nesting_lt htree)

end SExpr

/-! ### Well-formed procedures and scopes -/

/-- What a definition in a source text makes. -/
structure Procedure.WellFormed (p : Procedure) : Prop where
  name : IsIdentifier p.name
  nodup : p.params.Nodup
  params : ∀ x ∈ p.params, IsIdentifier x
  body : p.body.Readable
  nesting : p.body.nesting < maxNesting

/-- **A definition that was read makes a well-formed procedure.** -/
theorem Procedure.WellFormed.of_definition {params : List String} {body : SExpr}
    (h : (SExpr.list [.atom SpecialForm.define.keyword, .list (.atom name :: params.map .atom),
      body]).IsSource)
    (hname : Atom.ofToken name = .identifier name) (hnodup : params.Nodup)
    (hparams : ∀ x ∈ params, Atom.ofToken x = .identifier x)
    (id : ProcedureId) (s : ScopeId) : (⟨id, name, params, body, s⟩ : Procedure).WellFormed := by
  have hsignature : SExpr.list (.atom name :: params.map .atom) ∈
      [.atom SpecialForm.define.keyword, .list (.atom name :: params.map .atom), body] := by simp
  have hbody : body ∈
      [.atom SpecialForm.define.keyword, .list (.atom name :: params.map .atom), body] := by simp
  have hidentifier {x : String} (hx : x ∈ name :: params)
      (hatom : Atom.ofToken x = .identifier x) : IsIdentifier x := by
    have hmem : x ∈ (SExpr.list ((name :: params).map .atom)).atoms :=
      SExpr.mem_atomsAll.2 ⟨_, List.mem_map_of_mem hx, List.mem_singleton_self x⟩
    exact (h.element hsignature).readable.isIdentifier hmem hatom
  constructor
  · exact hidentifier (List.mem_cons_self ..) hname
  · exact hnodup
  · exact fun x hx => hidentifier (List.mem_cons_of_mem _ hx) (hparams x hx)
  · exact (h.element hbody).readable
  · exact h.nesting_lt hbody

/-- Identifiers are bound in a scope, and the procedures among their values are well formed. -/
structure Scope.WellFormed (scope : Scope) : Prop where
  names : ∀ name ∈ scope.bindings.names, IsIdentifier name
  procedures : ∀ p ∈ scope.procedures, p.WellFormed

namespace Scope.WellFormed

/-- A scope stays well formed when an identifier is bound in it. -/
theorem bind {scope : Scope} (h : scope.WellFormed) (hname : IsIdentifier name)
    (hv : v.Satisfies Procedure.WellFormed) : (scope.bind name v).WellFormed where
  names key hkey := by
    rcases Table.mem_names_insert hkey with rfl | hkey
    · exact hname
    · exact h.names key hkey
  procedures p hp := by
    rcases mem_procedures_bind hp with rfl | hp
    · exact hv p rfl
    · exact h.procedures p hp

/-- An emptied scope is well formed. -/
theorem emptied (scope : Scope) : scope.emptied.WellFormed :=
  ⟨fun _ hname => absurd hname List.not_mem_nil, fun _ hp => absurd hp List.not_mem_nil⟩

end Scope.WellFormed

namespace Store

/-- All scopes are well formed and belong to one tree. -/
structure WellFormed (root : ScopeId) (store : Store) : Prop where
  sound : store.Sound
  tree : ∀ {t}, store.Has t → store.rootOf t = root
  scopes : ∀ {t scope}, store.scope? t = some scope → scope.WellFormed

/-- A value that is no procedure, or one that is well formed and was defined in a scope that
exists. -/
def Holds (store : Store) (v : Value) : Prop :=
  v.Satisfies fun p => p.WellFormed ∧ store.Has p.scope

/-- What a store holds can be used everywhere in it. -/
theorem Holds.isIn (h : a.Holds v) : v.IsIn ⟨Set.univ, Set.univ, False⟩ a :=
  fun p hp => ⟨Set.mem_univ _, (h p hp).2, Set.mem_univ _, False.elim⟩

namespace WellFormed

/-- What a name stands for. -/
theorem lookup (h : a.WellFormed root) (hv : a.lookup s name = some v) : a.Holds v := by
  intro p hp
  obtain ⟨t, -, scope, hscope, hmem⟩ := exists_procedure_of_lookup hv hp
  exact ⟨(h.scopes hscope).procedures p hmem,
    h.sound.has_of_mem_references hscope (Scope.mem_references.2 (.inr ⟨p, hmem, rfl⟩))⟩

/-- Bound names are identifiers. -/
theorem isIdentifier (h : a.WellFormed root) (hname : a.bindsLocally t name = true) :
    IsIdentifier name := by
  obtain ⟨v, hv⟩ := Option.isSome_iff_exists.1 hname
  obtain ⟨scope, hscope, hget⟩ := Option.bind_eq_some_iff.1 hv
  exact (h.scopes hscope).names name (Table.mem_names_of_get? hget)

/-- A store stays well formed when an identifier is bound in it. -/
theorem bind (h : a.WellFormed root) (hname : IsIdentifier name) (hv : a.Holds v) (t : ScopeId) :
    (a.bind t name v).WellFormed root where
  sound := (h.sound.corresponds_self.bind (Set.mem_univ t) name hv.isIn).closed
  tree hu := by
    rw [rootOf, chain_bind]
    exact h.tree ((has_update ..).1 hu)
  scopes := by
    intro u scope hscope
    rw [scope?_bind] at hscope
    split at hscope
    · obtain ⟨found, hfound, rfl⟩ := Option.map_eq_some_iff.1 hscope
      exact (h.scopes hfound).bind hname fun p hp => (hv p hp).1
    · exact h.scopes hscope

/-- So it does when a procedure is made. -/
theorem newProcedure (h : a.WellFormed root) (name : String) (params : List String) (body : SExpr)
    (s : ScopeId) : (a.newProcedure name params body s).2.WellFormed root :=
  ⟨⟨h.sound.1, h.sound.2⟩, h.tree, h.scopes⟩

/-- A scope for a call, inside one that exists. -/
theorem newScope (h : a.WellFormed root) (ht : a.Has t) {bindings : Table Value}
    (hnames : ∀ name ∈ bindings.names, IsIdentifier name)
    (hvalues : ∀ v ∈ bindings.values, a.Holds v) :
    (a.newScope (some t) bindings).2.WellFormed root where
  sound := by
    have hparent : ∀ u ∈ some t, u ∈ Set.univ ∧ a.Has u := by
      rintro u ⟨rfl⟩
      exact ⟨Set.mem_univ t, ht⟩
    exact (h.sound.corresponds_self.newScope hparent fun v hv => (hvalues v hv).isIn).closed
  tree := by
    intro u hu
    by_cases hnew : u = a.nextScope
    · obtain ⟨found, hfound⟩ := ht
      have hcall : (a.newScope (some t) bindings).2.scope? u = some ⟨a.chain t, bindings⟩ := by
        rw [Store.newScope, scope?_push, if_pos hnew]
        rfl
      rw [← h.tree ⟨found, hfound⟩, rootOf, rootOf, chain_eq hcall, chain_eq hfound,
        List.getLast?_cons_cons]
      rfl
    · obtain ⟨scope, hscope⟩ := hu
      rw [Store.newScope, scope?_push, if_neg hnew] at hscope
      rw [rootOf, Store.newScope, chain_push _ ⟨scope, hscope⟩]
      exact h.tree ⟨scope, hscope⟩
  scopes := by
    intro u scope hscope
    rw [Store.newScope, scope?_push] at hscope
    split at hscope
    · obtain rfl := Option.some.inj hscope
      refine ⟨hnames, fun p hp => ?_⟩
      exact (hvalues _ (Scope.mem_procedures.1 hp) p rfl).1
    · exact h.scopes hscope

/-- Taking scopes out and emptying them leaves the others well formed. -/
theorem of_sub (h : a.WellFormed root) (hsound : b.Sound)
    (hsub : ∀ {s scope}, b.scope? s = some scope →
      ∃ found, a.scope? s = some found ∧ (scope = found ∨ scope = found.emptied)) :
    b.WellFormed root where
  sound := hsound
  tree := by
    rintro u ⟨scope, hscope⟩
    obtain ⟨found, hfound, hsame⟩ := hsub hscope
    have houter : scope.outer = found.outer := by rcases hsame with rfl | rfl <;> rfl
    rw [← h.tree ⟨found, hfound⟩, rootOf, rootOf, chain_eq hscope, chain_eq hfound, houter]
  scopes := by
    intro u scope hscope
    obtain ⟨found, hfound, rfl | rfl⟩ := hsub hscope
    · exact h.scopes hfound
    · exact Scope.WellFormed.emptied found

/-- Settling keeps a store well formed. -/
theorem settle (h : a.WellFormed root) (roots : List ScopeId) :
    (a.settle roots).WellFormed root :=
  h.of_sub (h.sound.settle roots) fun hs => ⟨_, scope?_of_settle hs, .inl rfl⟩

end WellFormed
end Store

open Store

/-- **Evaluating what was read keeps the store well formed.** -/
def reading (root : ScopeId) : Discipline where
  Inv := Store.WellFormed root
  Place := Store.Has
  Tree := SExpr.IsSource
  Val := Store.Holds
  Change _ a b := ∀ t, a.Has t → b.Has t
  refl _ _ _ ht := ht
  trans h h' t ht := h' t (h t ht)
  place_mono h hs := h _ hs
  val_mono h hv p hp := ⟨(hv p hp).1, h _ (hv p hp).2⟩
  element := SExpr.IsSource.element
  plain := Value.satisfies_of_procedure?_eq_none
  lookup h _ hv := h.lookup hv
  define := by
    intro s a name expr v h _ hv htree hatom _
    have hname : IsIdentifier name :=
      htree.readable.isIdentifier (by simp [SExpr.atoms, SExpr.atomsAll]) hatom
    exact ⟨h.bind hname hv s, fun t => (has_update ..).2⟩
  assign h _ hv _ ht :=
    -- a name is bound already when another value is assigned to it
    ⟨h.bind (h.isIdentifier (bindsLocally_of_binder? ht)) hv _, fun t => (has_update ..).2⟩
  procedure := by
    intro s a name params body h hs htree hatom hnodup hparams _ made after
    have hmade : made.1.WellFormed := .of_definition htree hatom hnodup hparams _ _
    have hholds : made.2.Holds (.procedure made.1) := by
      rintro p ⟨⟩
      exact ⟨hmade, hs⟩
    have hbound : after.Holds (.procedure made.1) :=
      fun p hp => ⟨(hholds p hp).1, (has_update ..).2 (hholds p hp).2⟩
    exact ⟨(h.newProcedure ..).bind hmade.name hholds s, fun t => (has_update ..).2, hbound⟩
  enter := by
    intro s a p args h hp hargs _ call
    obtain ⟨hp, hscope⟩ := hp p rfl
    refine ⟨h.newScope hscope (fun x hx => ?_) fun v hv => ?_, has_newScope .., ?_, ?_⟩
    · exact hp.params x ((Table.mem_names_insertAll hx).resolve_right List.not_mem_nil)
    · exact hargs v (Table.mem_of_mem_values_insertAll hv)
    · exact ⟨hp.body, Nat.le_of_lt hp.nesting⟩
    · exact fun hchange t ht => hchange t (has_push _ ht)

/-! ### Sessions -/

namespace Session

variable {session : Session}

/-- The store is well formed, and so are the procedures that the host keeps. -/
structure WellFormed (root : ScopeId) (session : Session) : Prop where
  global : session.global = some root
  store : session.store.WellFormed root
  slots : ∀ v ∈ session.slots.values, v.Satisfies Procedure.WellFormed

/-- A session stays well formed when it settles. -/
theorem WellFormed.settle (h : session.WellFormed root) : session.settle.WellFormed root :=
  ⟨h.global, h.store.settle _, h.slots⟩

/-- So it does when a tree is released. -/
theorem WellFormed.release (h : session.WellFormed root) (s : ScopeId) (held : List Referent) :
    (session.release s held).2.WellFormed root := by
  have hsettled := h.store.settle (held.map Referent.scopeOf ++ session.roots)
  rw [release_eq]
  exact ⟨h.global, hsettled.of_sub (hsettled.sound.release _ s) eq_or_emptied_of_release, h.slots⟩

/-- Evaluating what was read keeps a session well formed, and the scope it is evaluated in. -/
theorem WellFormed.run_evaluate (h : session.WellFormed root) (hs : session.store.Has s)
    (limit : UInt64) (htree : tree.IsSource) :
    (session.run (evaluate limit s tree)).2.WellFormed root ∧
      (session.run (evaluate limit s tree)).2.store.Has s ∧
      ∀ v, (session.run (evaluate limit s tree)).1 = .ok v →
        v.Satisfies Procedure.WellFormed := by
  have hkeeps := (reading root).eval_keeps limit limit.toNat s h.store hs htree
  rw [run_eq]
  exact ⟨⟨h.global, hkeeps.inv, h.slots⟩, hkeeps.change s hs,
    fun v hv p hp => (hkeeps.result hv p hp).1⟩

/-- **Evaluating a text keeps a session well formed**, and so is what it returns. -/
theorem WellFormed.evaluateText (h : session.WellFormed root) (hs : session.store.Has s)
    (config : Config) (text : String) :
    (session.evaluateText config s text).2.WellFormed root ∧
      ∀ v, (session.evaluateText config s text).1 = .ok v →
        v.Satisfies Procedure.WellFormed := by
  cases hread : read config.comments text with
  | error fault =>
    unfold Session.evaluateText
    rw [hread]
    exact ⟨h, nofun⟩
  | ok tree =>
    obtain ⟨hafter, -, hresult⟩ :=
      h.run_evaluate hs config.maxDepth (SExpr.isSource_of_read hread)
    rw [evaluateText_of_read hread]
    exact ⟨hafter.release _ _, hresult⟩

/-- The session with the value of a text in a slot, if there is one and a slot is named. -/
def keeping (session : Session) : Option String → Except Error Value → Session
  | some slot, .ok v => { session with slots := session.slots.insert slot v }
  | _, _ => session

/-- A session stays well formed when a well-formed result is kept. -/
theorem WellFormed.keeping (h : session.WellFormed root) (slot : Option String)
    {result : Except Error Value}
    (hresult : ∀ v, result = .ok v → v.Satisfies Procedure.WellFormed) :
    (session.keeping slot result).WellFormed root := by
  rcases slot with - | slot
  · exact h
  · cases result with
    | error e => exact h
    | ok v =>
      refine ⟨h.global, h.store, fun w hw => ?_⟩
      rcases Table.mem_values_insert hw with rfl | hw
      · exact hresult w rfl
      · exact h.slots w hw

/-- What comes of the evaluation of a text in the global scope. -/
theorem step_evaluate_eq (hglobal : session.global = some root) (text : String)
    (slot : Option String) :
    session.step (.evaluate text .global slot) =
      (answerOf (session.evaluateText session.config root text).1,
        ((session.evaluateText session.config root text).2.keeping slot
          (session.evaluateText session.config root text).1).settle) := by
  have hscope : Host.scope .global session = .ok root session := scope_eq_ok.2 hglobal
  unfold Session.step Host.perform
  simp only [Bind.bind, EStateM.bind, hscope, modifyGet_eq]
  rcases session.evaluateText session.config root text with ⟨result, after⟩
  cases result <;> cases slot <;> rfl

/-- The session after the evaluation of a text in the global scope. -/
theorem step_evaluate (hglobal : session.global = some root) (text : String)
    (slot : Option String) :
    (session.step (.evaluate text .global slot)).2 =
      ((session.evaluateText session.config root text).2.keeping slot
        (session.evaluateText session.config root text).1).settle :=
  congrArg Prod.snd (step_evaluate_eq hglobal text slot)

/-- The value of a text that is evaluated in the global scope is kept. -/
theorem slots_step_evaluate {text : String} {tree : SExpr} {v : Value}
    (hglobal : session.global = some root) (hread : read session.config.comments text = .ok tree)
    (hvalue : (session.run (evaluate session.config.maxDepth root tree)).1 = .ok v)
    (name : String) :
    (session.step (.evaluate text .global (some name))).2.slots = session.slots.insert name v := by
  rw [step_evaluate hglobal, evaluateText_of_read hread]
  change (Session.keeping _ _ (session.run (evaluate _ root tree)).1).slots = _
  rw [hvalue, run_eq]
  rfl

/-- The steps of a host that only evaluates texts, keeps values and drops them. -/
inductive IsTextual : Step → Prop
  | evaluate (text : String) (slot : Option String) : IsTextual (.evaluate text .global slot)
  | dropSlot (slot : String) : IsTextual (.dropSlot slot)

/-- **A step that evaluates a text, or drops a value, keeps a session well formed.** -/
theorem WellFormed.step (h : session.WellFormed root) (hsound : session.Sound) {step : Step}
    (hstep : IsTextual step) : (session.step step).2.WellFormed root := by
  cases hstep with
  | evaluate text slot =>
    have hroot := hsound.roots root (mem_roots.2 (.inl h.global))
    obtain ⟨hafter, hresult⟩ := h.evaluateText hroot session.config text
    rw [step_evaluate h.global]
    exact (hafter.keeping slot hresult).settle
  | dropSlot slot =>
    refine WellFormed.settle ⟨h.global, h.store, fun v hv => ?_⟩
    exact h.slots v (Table.mem_values_erase hv)

/-- The primitive procedures go by identifiers. -/
theorem isIdentifier_primitive (op : Primitive) : IsIdentifier op.name := by
  have hchars : ∀ c ∈ op.name.toList, Text.isBlank c = false ∧ c ≠ '(' ∧ c ≠ ')' := by
    cases op <;> simp [Primitive.name] <;> decide
  refine isIdentifier_of_refusal? ?_ hchars ?_ ?_ <;> cases op <;> decide

/-- A new session holds the global scope, and the primitive procedures in it. -/
theorem wellFormed_new (config : Config) : (new config).WellFormed 0 where
  global := rfl
  store := by
    have hnew {t : ScopeId} {scope : Scope} (h : (new config).store.scope? t = some scope) :
        t = 0 ∧ scope = ⟨[], globalBindings⟩ := by
      have hscope : (({} : Store).push ⟨[], globalBindings⟩).scope? t = some scope := h
      rw [Store.scope?_push] at hscope
      split at hscope
      · exact ⟨by assumption, (Option.some.inj hscope).symm⟩
      · rw [Store.scope?_of_nextScope_le (Nat.zero_le t)] at hscope
        cases hscope
    refine ⟨(sound_new config).store, fun {t} ht => ?_, fun {t scope} hscope => ?_⟩
    · obtain ⟨scope, hscope⟩ := ht
      obtain ⟨rfl, rfl⟩ := hnew hscope
      rw [rootOf, chain_eq hscope]
      rfl
    · obtain ⟨-, rfl⟩ := hnew hscope
      refine ⟨fun name hname => ?_, fun p hp => ?_⟩
      · have hmem := (Table.mem_names_insertAll hname).resolve_right List.not_mem_nil
        obtain ⟨op, -, rfl⟩ := List.mem_map.1 hmem
        exact isIdentifier_primitive op
      · have hnone := Host.procedure?_of_mem_globalBindings _ (Scope.mem_procedures.1 hp)
        cases hnone
  slots _ hv := absurd hv List.not_mem_nil

/-- **A script of such steps keeps a session well formed**, if it starts from one. -/
theorem WellFormed.steps (h : session.WellFormed root) (hsound : session.Sound)
    {script : List Step} (hscript : ∀ step ∈ script, IsTextual step) :
    (session.steps script).2.WellFormed root := by
  induction script generalizing session with
  | nil => exact h
  | cons first rest ih =>
    obtain ⟨hfirst, hrest⟩ := List.forall_mem_cons.1 hscript
    exact ih (h.step hsound hfirst) (hsound.step first) hrest

/-- **What comes from texts is well formed.**  Whatever texts a new session is given, in any
order and whether or not they can be read and evaluated, the names bound in its scopes are
identifiers, and its procedures have an identifier as their name, different identifiers as
parameters, a body that the reader would take inside a list, and a scope in the tree of the
session. -/
theorem steps_wellFormed (config : Config) (script : List Step)
    (hscript : ∀ step ∈ script, IsTextual step) :
    let session := ((new config).steps script).2
    ∃ root, session.global = some root ∧
      (∀ t name, session.store.bindsLocally t name = true → IsIdentifier name) ∧
      ∀ p, session.HasProcedure p →
        IsIdentifier p.name ∧ p.params.Nodup ∧ (∀ x ∈ p.params, IsIdentifier x) ∧
        (∀ x ∈ p.body.atoms, Atom.refusal? x = none) ∧ p.body.nesting < maxNesting ∧
        session.store.Has p.scope ∧ session.store.rootOf p.scope = root := by
  intro session
  have h : session.WellFormed 0 := (wellFormed_new config).steps (sound_new config) hscript
  have hsound : session.Sound := ((Reachable.new config).steps script).sound
  refine ⟨0, h.global, fun t name => h.store.isIdentifier, fun p hp => ?_⟩
  have hhas : session.store.Has p.scope := hsound.has_of_isAnchored (.inr ⟨p, hp, rfl⟩)
  have hp : p.WellFormed := by
    rcases hp with hslot | ⟨t, scope, hscope, hp⟩
    · exact h.slots _ hslot p rfl
    · exact (h.store.scopes hscope).procedures p hp
  exact ⟨hp.name, hp.nodup, hp.params, fun x hx => (hp.body x hx).2.2, hp.nesting, hhas,
    h.store.tree hhas⟩

/-- A procedure with a definition in its body. -/
def adder : Procedure :=
  ⟨0, "adder", ["n"], .list [.atom "define", .list [.atom "add", .atom "k"],
    .list [.atom "+", .atom "n", .atom "k"]], 0⟩

/-- A procedure that comes from a text, with a definition in its body. -/
theorem adder_steps_wellFormed :
    let session := ((new {}).steps
      [.evaluate "(define (adder n) (define (add k) (+ n k)))" .global (some "a")]).2
    session.HasProcedure adder ∧ IsIdentifier adder.name ∧ adder.body.nesting < maxNesting ∧
      session.store.Has adder.scope := by
  let definition := Step.evaluate "(define (adder n) (define (add k) (+ n k)))" .global (some "a")
  intro session
  have hread : read (new {}).config.comments "(define (adder n) (define (add k) (+ n k)))" =
      .ok (.list [.atom "define", .list [.atom "adder", .atom "n"], adder.body]) := by
    decide +kernel
  have hvalue : ((new {}).run (evaluate 10000 0
      (.list [.atom "define", .list [.atom "adder", .atom "n"], adder.body]))).1 =
        .ok (.procedure adder) := by
    decide +kernel
  have hslots : session.slots = ({} : Table Value).insert "a" (.procedure adder) :=
    slots_step_evaluate rfl hread hvalue "a"
  have hhas : session.HasProcedure adder := by
    refine .inl ?_
    rw [hslots]
    exact List.mem_singleton_self _
  have htextual : ∀ step ∈ [definition], IsTextual step := by
    rintro step (_ | ⟨_, ⟨⟩⟩)
    exact .evaluate ..
  obtain ⟨root, -, -, hprocedures⟩ := steps_wellFormed {} [definition] htextual
  obtain ⟨hname, -, -, -, hnesting, hscope, -⟩ := hprocedures adder hhas
  exact ⟨hhas, hname, hnesting, hscope⟩

end Session
end StrictScheme
