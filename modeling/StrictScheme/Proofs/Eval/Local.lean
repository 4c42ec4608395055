/-
# Definitions stay local

A definition binds a name in the scope it is evaluated in, and the body of a user
procedure is evaluated in a scope of its own.  So an evaluation gives new names to the
scope it is carried out in and to the scopes it makes, and to no other: this is the
discipline `localNames`, whose changes `Store.GrowsAt` describes.

A name that is bound gets another value through `set!` only.  Where neither the tree nor
any procedure within reach has such a list in it, every binding keeps its value
(`withoutAssignment`).  What is within reach, and what is made on the way, stays in one
region, and all procedures there have bodies of the kind at hand (`Store.Governs`).
-/

import StrictScheme.Proofs.Eval.Discipline

namespace StrictScheme

/-! ### Keywords in a tree -/

namespace SExpr

mutual

/-- Whether a list that starts with the keyword of a special form stands anywhere in a tree. -/
def uses (form : SpecialForm) : SExpr → Bool
  | .atom _ => false
  | .list elements => elements.head? == some (.atom form.keyword) || usesAny form elements

/-- The same of trees that stand one after the other. -/
def usesAny (form : SpecialForm) : List SExpr → Bool
  | [] => false
  | first :: rest => uses form first || usesAny form rest

end

variable {form : SpecialForm}

/-- None of some trees uses a special form just when each of them does not. -/
theorem usesAny_eq_false {trees : List SExpr} :
    usesAny form trees = false ↔ ∀ tree ∈ trees, tree.uses form = false := by
  induction trees with
  | nil => simp [usesAny]
  | cons first rest ih => rw [usesAny, Bool.or_eq_false_iff, ih, List.forall_mem_cons]

/-- The elements of a list use no other special forms than the list. -/
theorem uses_of_mem {elements : List SExpr} {tree : SExpr}
    (h : (SExpr.list elements).uses form = false) (htree : tree ∈ elements) :
    tree.uses form = false := by
  rw [uses, Bool.or_eq_false_iff, usesAny_eq_false] at h
  exact h.2 tree htree

/-- A special form is used where it heads a list. -/
theorem uses_keyword (form : SpecialForm) (operands : List SExpr) :
    (SExpr.list (.atom form.keyword :: operands)).uses form = true := by
  simp [uses]

/-- No list in a tree is a definition or an assignment. -/
def IsPure (tree : SExpr) : Prop :=
  ∀ form, tree.uses form = false

instance (tree : SExpr) : Decidable tree.IsPure :=
  decidable_of_iff (tree.uses .define = false ∧ tree.uses .set = false)
    ⟨fun ⟨hdefine, hset⟩ form => by cases form <;> assumption, fun h => ⟨h .define, h .set⟩⟩

/-- The elements of a tree without definitions and assignments have none. -/
theorem IsPure.element {elements : List SExpr} {tree : SExpr} (h : (SExpr.list elements).IsPure)
    (htree : tree ∈ elements) : tree.IsPure :=
  fun form => uses_of_mem (h form) htree

/-- Without definitions and assignments every list is a call. -/
theorem IsPure.specialForm?_eq_none {head : SExpr} {operands : List SExpr}
    (h : (SExpr.list (head :: operands)).IsPure) : head.specialForm? = none := by
  refine Option.eq_none_iff_forall_ne_some.2 fun form hform => ?_
  obtain rfl := eq_atom_of_specialForm? hform
  exact absurd (uses_keyword form operands) (Bool.eq_false_iff.1 (h form))

end SExpr

namespace Store

variable {a b c : Store} {s t : ScopeId} {name : String} {v : Value}

/-! ### Names -/

/-- Names are added to one scope at most: all scopes stay, inside the same scopes, and the others
bind the names they did. -/
structure GrowsAt (s : ScopeId) (before after : Store) : Prop where
  has : ∀ {t}, before.Has t → after.Has t
  chain : ∀ {t}, before.Has t → after.chain t = before.chain t
  names : ∀ {t}, before.Has t → t ≠ s → ∀ name,
    after.bindsLocally t name = before.bindsLocally t name
  bound : ∀ {t name}, before.bindsLocally t name = true → after.bindsLocally t name = true

namespace GrowsAt

/-- A store grows nowhere when it is left as it is. -/
theorem refl (s : ScopeId) (a : Store) : GrowsAt s a a :=
  ⟨fun h => h, fun _ => rfl, fun _ _ _ => rfl, fun h => h⟩

/-- Names may be added again in the same scope. -/
theorem trans (h : GrowsAt s a b) (h' : GrowsAt s b c) : GrowsAt s a c where
  has ht := h'.has (h.has ht)
  chain ht := (h'.chain (h.has ht)).trans (h.chain ht)
  names ht hne name := (h'.names (h.has ht) hne name).trans (h.names ht hne name)
  bound ht := h'.bound (h.bound ht)

/-- Binding a name in the scope itself, or a name that is bound already. -/
theorem bind (h : t = s ∨ a.bindsLocally t name = true) (v : Value) :
    GrowsAt s a (a.bind t name v) where
  has := (has_update ..).2
  chain _ := chain_bind ..
  names := by
    intro u _ hus key
    rcases h with rfl | hbound
    · rw [bindsLocally, local?_bind_of_ne fun hut => absurd hut hus, bindsLocally]
    · exact bindsLocally_bind_of_bindsLocally hbound v u key
  bound := by
    intro u key hbound
    by_cases hkey : u = t ∧ key = name
    · obtain ⟨rfl, rfl⟩ := hkey
      rw [bindsLocally, local?_bind_self (has_of_bindsLocally hbound)]
      rfl
    · rwa [bindsLocally, local?_bind_of_ne (fun hut hname => hkey ⟨hut, hname⟩)]

/-- A new procedure adds no name. -/
theorem newProcedure (s : ScopeId) (a : Store) (name : String) (params : List String)
    (body : SExpr) (t : ScopeId) : GrowsAt s a (a.newProcedure name params body t).2 :=
  ⟨fun h => h, fun _ => rfl, fun _ _ _ => rfl, fun h => h⟩

/-- What grows at a scope that was just made leaves the older ones as they were. -/
theorem of_push {scope : Scope} (h : GrowsAt a.nextScope (a.push scope) b) (s : ScopeId) :
    GrowsAt s a b := by
  have hlocal {u : ScopeId} (hu : a.Has u) (name : String) :
      b.bindsLocally u name = a.bindsLocally u name := by
    rw [h.names (has_push scope hu) (ne_nextScope hu), bindsLocally, bindsLocally,
      local?_congr (scope?_push_of_has scope hu)]
  constructor
  · exact fun hu => h.has (has_push scope hu)
  · exact fun hu => (h.chain (has_push scope hu)).trans (chain_push scope hu)
  · exact fun hu _ => hlocal hu
  · intro u name hbound
    rw [hlocal (has_of_bindsLocally hbound), hbound]

end GrowsAt

end Store

open Store

/-- **Names are added to the scope of the evaluation only.** -/
def localNames : Discipline where
  Inv _ := True
  Place _ _ := True
  Tree _ := True
  Val _ _ := True
  Change := GrowsAt
  refl := GrowsAt.refl
  trans := GrowsAt.trans
  place_mono _ _ := trivial
  val_mono _ _ := trivial
  element _ _ := trivial
  plain _ := trivial
  lookup _ _ _ := trivial
  define _ _ _ _ _ _ := ⟨trivial, .bind (.inl rfl) _⟩
  assign _ _ _ _ ht := ⟨trivial, .bind (.inr (bindsLocally_of_binder? ht)) _⟩
  procedure _ _ _ _ _ _ _ :=
    ⟨trivial, (GrowsAt.newProcedure ..).trans (.bind (.inl rfl) _), trivial⟩
  enter _ _ _ _ := ⟨trivial, trivial, trivial, fun h => h.of_push _⟩

/-! ### Procedures within reach -/

/-- A value satisfies a property of user procedures if it is none or has the property. -/
def Value.Satisfies (P : Procedure → Prop) (v : Value) : Prop :=
  ∀ p, v.procedure? = some p → P p

/-- A value that is no user procedure satisfies whatever is asked of those. -/
theorem Value.satisfies_of_procedure?_eq_none {P : Procedure → Prop} {v : Value}
    (h : v.procedure? = none) : v.Satisfies P := by
  intro p hp
  rw [h] at hp
  exact absurd hp nofun

namespace Store

variable {a : Store} {region : Set ScopeId} {P : Procedure → Prop} {s t : ScopeId}
  {name : String} {v : Value}

/-- A user procedure is bound in a scope that is reached. -/
def ReachesProcedure (store : Store) (starts : List ScopeId) (p : Procedure) : Prop :=
  ∃ t scope, store.Reaches starts t ∧ store.scope? t = some scope ∧ p ∈ scope.procedures

/-- All user procedures that are bound in some scope. -/
def boundProcedures (store : Store) : List Procedure :=
  store.scopes.toList.flatMap fun slot =>
    match slot with
    | some scope => scope.procedures
    | none => []

/-- A procedure that is reached is bound somewhere. -/
theorem ReachesProcedure.mem_boundProcedures {store : Store} {starts : List ScopeId}
    {p : Procedure} (h : store.ReachesProcedure starts p) : p ∈ store.boundProcedures := by
  obtain ⟨t, scope, -, hscope, hp⟩ := h
  exact (mem_flatMap_scopes Scope.procedures).2 ⟨t, scope, hscope, hp⟩

/-- In a region that holds all numbers not yet given out, and the scopes around each of its
scopes, only user procedures of a kind are bound. -/
structure Governs (region : Set ScopeId) (P : Procedure → Prop) (store : Store) : Prop where
  fresh : ∀ {t}, store.nextScope ≤ t → t ∈ region
  outer : ∀ {t scope u}, t ∈ region → store.scope? t = some scope → u ∈ scope.outer → u ∈ region
  procedures : ∀ {t scope p}, t ∈ region → store.scope? t = some scope →
    p ∈ scope.procedures → P p

namespace Governs

/-- A governed region has the chains of its scopes in it. -/
theorem chain_mem (h : Governs region P a) (hs : s ∈ region) (ht : t ∈ a.chain s) :
    t ∈ region := by
  cases hscope : a.scope? s with
  | none =>
    rw [chain_eq_nil hscope] at ht
    exact absurd ht List.not_mem_nil
  | some scope =>
    rw [chain_eq hscope] at ht
    rcases List.mem_cons.1 ht with rfl | ht
    · exact hs
    · exact h.outer hs hscope ht

/-- What a name stands for in the region is of the kind. -/
theorem lookup (h : Governs region P a) (hs : s ∈ region) (hv : a.lookup s name = some v) :
    v.Satisfies P := by
  intro p hp
  obtain ⟨t, ht, scope, hscope, hmem⟩ := exists_procedure_of_lookup hv hp
  exact h.procedures (h.chain_mem hs ht) hscope hmem

/-- It stays governed when such a value is bound. -/
theorem bind (h : Governs region P a) (hv : v.Satisfies P) (t : ScopeId) (name : String) :
    Governs region P (a.bind t name v) where
  fresh hu := h.fresh ((nextScope_bind ..) ▸ hu)
  outer := by
    intro u scope w hu hscope hw
    rw [scope?_bind] at hscope
    split at hscope
    · obtain ⟨found, hfound, rfl⟩ := Option.map_eq_some_iff.1 hscope
      exact h.outer hu hfound hw
    · exact h.outer hu hscope hw
  procedures := by
    intro u scope p hu hscope hp
    rw [scope?_bind] at hscope
    split at hscope
    · obtain ⟨found, hfound, rfl⟩ := Option.map_eq_some_iff.1 hscope
      rcases Scope.mem_procedures_bind hp with rfl | hp
      · exact hv p rfl
      · exact h.procedures hu hfound hp
    · exact h.procedures hu hscope hp

/-- So it does when a procedure is made. -/
theorem newProcedure (h : Governs region P a) (name : String) (params : List String)
    (body : SExpr) (s : ScopeId) : Governs region P (a.newProcedure name params body s).2 :=
  ⟨h.fresh, h.outer, h.procedures⟩

/-- A new scope, made in a scope of the region or as a root. -/
theorem newScope (h : Governs region P a) {parent : Option ScopeId}
    (hparent : ∀ t ∈ parent, t ∈ region) {bindings : Table Value}
    (hbindings : ∀ v ∈ bindings.values, v.Satisfies P) :
    Governs region P (a.newScope parent bindings).2 where
  fresh := by
    intro u hu
    rw [Store.newScope, nextScope_push] at hu
    exact h.fresh (Nat.le_of_succ_le hu)
  outer := by
    intro u scope w hu hscope hw
    rw [Store.newScope, scope?_push] at hscope
    split at hscope
    · obtain rfl := Option.some.inj hscope
      cases parent with
      | none => exact absurd hw List.not_mem_nil
      | some t => exact h.chain_mem (hparent t rfl) hw
    · exact h.outer hu hscope hw
  procedures := by
    intro u scope p hu hscope hp
    rw [Store.newScope, scope?_push] at hscope
    split at hscope
    · obtain rfl := Option.some.inj hscope
      exact hbindings _ (Scope.mem_procedures.1 hp) p rfl
    · exact h.procedures hu hscope hp

end Governs

/-- **What is reached from a scope governs itself**: the procedures within reach are of a kind if
each of them is. -/
theorem Sound.governs {store : Store} (h : store.Sound) (hs : store.Has s)
    (hP : ∀ p, store.ReachesProcedure [s] p → P p) :
    Governs (Reaches.orFresh store [s]) P store := by
  have hclosed := (h.corresponds_of_sameOn hs ⟨fun _ => rfl, rfl, rfl⟩).closed
  refine ⟨.inr, fun ht hscope hu => (hclosed.outer_mem ht hscope hu).1, ?_⟩
  intro t scope p ht hscope hp
  have hreach : store.Reaches [s] t := ht.resolve_right (Nat.not_le_of_lt (lt_nextScope hscope))
  exact hP p ⟨t, scope, hreach, hscope, hp⟩

/-- A procedure within reach was defined in a scope within reach. -/
theorem ReachesProcedure.scope {starts : List ScopeId} {store : Store} {p : Procedure}
    (h : store.ReachesProcedure starts p) : store.Reaches starts p.scope := by
  obtain ⟨t, scope, ht, hscope, hp⟩ := h
  exact ht.step hscope (Scope.mem_references.2 (.inr ⟨p, hp, rfl⟩))

end Store

/-! ### Values -/

/-- Every binding keeps its value. -/
def Store.KeepsValues (before after : Store) : Prop :=
  ∀ t name v, before.local? t name = some v → after.local? t name = some v

/-- Binding a new name keeps the values of all others. -/
theorem Store.keepsValues_bind {a : Store} {s : ScopeId} {name : String}
    (h : a.bindsLocally s name = false) (v : Value) : a.KeepsValues (a.bind s name v) := by
  intro t key w hw
  rw [local?_bind_of_ne, hw]
  rintro rfl rfl
  rw [local?_eq_none_of_bindsLocally h] at hw
  exact absurd hw nofun

/-- A procedure of a region without an assignment in its body. -/
structure Procedure.AssignsNothing (region : Set ScopeId) (p : Procedure) : Prop where
  scope : p.scope ∈ region
  body : p.body.uses .set = false

/-- **Without assignments, every binding keeps its value.** -/
def withoutAssignment (region : Set ScopeId) : Discipline where
  Inv := Governs region (Procedure.AssignsNothing region)
  Place _ s := s ∈ region
  Tree tree := tree.uses .set = false
  Val _ v := v.Satisfies (Procedure.AssignsNothing region)
  Change _ := KeepsValues
  refl _ _ _ _ _ hv := hv
  trans h h' t name v hv := h' t name v (h t name v hv)
  place_mono _ h := h
  val_mono _ h := h
  element := SExpr.uses_of_mem
  plain := Value.satisfies_of_procedure?_eq_none
  lookup h hs hv := h.lookup hs hv
  define h _ hv _ _ hbound := ⟨h.bind hv _ _, keepsValues_bind hbound _⟩
  assign _ _ _ htree _ := absurd (SExpr.uses_keyword .set _) (Bool.eq_false_iff.1 htree)
  procedure := by
    intro s a name params body h hs htree _ _ _ hbound made after
    have hmade : (Value.procedure made.1).Satisfies (Procedure.AssignsNothing region) := by
      have hbody : body.uses .set = false := SExpr.uses_of_mem htree (by simp)
      rintro p ⟨⟩
      exact ⟨hs, hbody⟩
    exact ⟨(h.newProcedure ..).bind hmade s name, keepsValues_bind hbound _, hmade⟩
  enter := by
    intro s a p args h hp hargs _ call
    obtain ⟨hscope, hbody⟩ := hp p rfl
    have hparent : ∀ t ∈ some p.scope, t ∈ region := fun _ ht => Option.some.inj ht ▸ hscope
    refine ⟨h.newScope hparent fun v hv => ?_, h.fresh (Nat.le_refl _), hbody, ?_⟩
    · exact hargs v (Table.mem_of_mem_values_insertAll hv)
    · intro b hkeeps t name v hv
      rw [← local?_congr (scope?_push_of_has _ (has_of_local? hv)) name] at hv
      exact hkeeps t name v hv

/-! ### Both together -/

/-- **Definitions stay local.**  Whether or not an evaluation succeeds, every other scope binds
the names it did and no others, and the scope of the evaluation still binds those it did.
Without `set!` in the tree and in the procedures within reach, no binding gets another
value. -/
theorem evaluate_defines_locally (limit : UInt64) (s : ScopeId) (tree : SExpr) (store : Store) :
    (∀ t, store.Has t → t ≠ s → ∀ name,
      ((evaluate limit s tree).exec store).2.bindsLocally t name = store.bindsLocally t name) ∧
    (∀ name, store.bindsLocally s name = true →
      ((evaluate limit s tree).exec store).2.bindsLocally s name = true) ∧
    (store.Sound → store.Has s → tree.uses .set = false →
      (∀ p, store.ReachesProcedure [s] p → p.body.uses .set = false) →
      ∀ t name v, store.local? t name = some v →
        ((evaluate limit s tree).exec store).2.local? t name = some v) := by
  have hgrows : GrowsAt s store ((evaluate limit s tree).exec store).2 :=
    (localNames.eval_keeps limit limit.toNat s trivial trivial trivial).change
  refine ⟨fun t => hgrows.names, fun name => hgrows.bound, ?_⟩
  intro hsound hs htree hbodies
  have hgoverns := hsound.governs hs (P := Procedure.AssignsNothing (Reaches.orFresh store [s]))
    fun p hp => ⟨.inl hp.scope, hbodies p hp⟩
  exact ((withoutAssignment _).eval_keeps limit limit.toNat s hgoverns
    (.inl (.start (List.mem_singleton.2 rfl))) htree).change

/-- A session with a scope inside the global one, and a procedure that defines `x` in the scope
of its call. -/
def shadowing : Session :=
  ((Session.new {}).steps
    [.define .global "x" (.number 1), .newScope "inside" (some .global),
      .evaluateTree (.list [.atom "define", .list [.atom "f", .atom "y"],
        .list [.atom "define", .atom "x", .atom "y"]]) .global 10 none]).2

/-- A call that defines two names, one in the scope of its operand and one in its own. -/
theorem shadowing_defines_locally :
    let call := SExpr.list [.atom "f", .list [.atom "define", .atom "w", .atom "2"]]
    let after := ((evaluate 10 1 call).exec shadowing.store).2
    after.bindsLocally 0 "w" = false ∧ after.local? 0 "x" = some (.number 1) := by
  intro call after
  have hhas (t : ScopeId) (h : (shadowing.store.scope? t).isSome = true) :
      shadowing.store.Has t :=
    Option.isSome_iff_exists.1 h
  have hsound : shadowing.store.Sound := ((Session.Reachable.new {}).steps _).sound.store
  have hall : ∀ p ∈ shadowing.store.boundProcedures, p.body.uses .set = false := by
    decide +kernel
  obtain ⟨hnames, -, hvalues⟩ := evaluate_defines_locally 10 1 call shadowing.store
  constructor
  · rw [hnames 0 (hhas 0 (by decide +kernel)) Nat.zero_ne_one]
    decide +kernel
  · refine hvalues hsound (hhas 1 (by decide +kernel)) (by decide)
      (fun p hp => hall p hp.mem_boundProcedures) _ _ _ ?_
    decide +kernel

end StrictScheme
