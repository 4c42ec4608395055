/-
# Steps on one side of a border

A region splits a session when it divides the store, and some of the names of the host
lead into the region and the others lead out of it (`Session.Split`).  Two sessions are
twins on such a region when one mirrors the other there and both are split by it.

A step that mentions only the names of the region keeps twins, those included that
release, clear or ask whether a procedure exists; the answer is the same under the
renaming, and nothing changes on the other side (`Session.Twins.step`).
-/

import StrictScheme.Proofs.Session.Sound
import StrictScheme.Proofs.Store.Divide

namespace StrictScheme
namespace Session

variable {names : HostName → Bool} {r : Renaming} {region : Region} {session a b a' b' : Session}
  {s : ScopeId} {id : ProcedureId} {v : Value} {held held' : List Referent}

/-! ### Both sides of what a host has -/

/-- Each slot has a name that is one of those, or one of the others. -/
theorem mem_slots_iff (names : HostName → Bool) :
    v ∈ session.slots.values ↔ v ∈ (session.holdings names).slots.values ∨
      v ∈ (session.holdings (!names ·)).slots.values :=
  Table.mem_values_only

/-- What the host refers to stands under some of the names or under the others. -/
theorem mem_roots_iff (names : HostName → Bool) :
    s ∈ session.roots ↔
      s ∈ (session.holdings names).roots ∨ s ∈ (session.holdings (!names ·)).roots := by
  have hglobal : session.global = some s ↔ (session.holdings names).global = some s ∨
      (session.holdings (!names ·)).global = some s := by
    cases hname : names .global <;> simp [holdings, hname]
  have hhandles : s ∈ session.handles.values ↔ s ∈ (session.holdings names).handles.values ∨
      s ∈ (session.holdings (!names ·)).handles.values := Table.mem_values_only
  rw [mem_roots, Holdings.mem_roots, Holdings.mem_roots, hglobal, hhandles]
  simp only [mem_slots_iff names, or_and_right, exists_or]
  exact (or_congr_right or_or_or_comm).trans or_or_or_comm

/-! ### Sessions that are split -/

/-- Some of the names lead into a region that divides the store, and the others lead out of it.
The scopes outside the region hold themselves up with the help of the other names. -/
structure Split (names : HostName → Bool) (region : Region) (session : Session) : Prop where
  numbered : region.numbered
  store : session.store.Divided region
  mine : (session.holdings names).IsIn region session.store
  others : (session.holdings (!names ·)).IsIn region.compl session.store
  steady : session.store.Steady region (session.holdings (!names ·)).roots

/-- Nothing happens to a session under the other names and outside a region. -/
structure Untouched (names : HostName → Bool) (region : Region) (before after : Session) :
    Prop where
  config : after.config = before.config
  others : after.holdings (!names ·) = before.holdings (!names ·)
  outside : ∀ {s}, s ∉ region.scopes → after.store.scope? s = before.store.scope? s
  nextScope : before.store.nextScope ≤ after.store.nextScope
  nextProcedure : before.store.nextProcedure ≤ after.store.nextProcedure

/-- Nothing is touched in a session that is left as it is. -/
theorem Untouched.refl (names : HostName → Bool) (region : Region) (session : Session) :
    Untouched names region session session :=
  ⟨rfl, rfl, fun _ => rfl, Nat.le_refl _, Nat.le_refl _⟩

/-- What is left untouched twice is untouched. -/
theorem Untouched.trans (h : Untouched names region session a) (h' : Untouched names region a b) :
    Untouched names region session b :=
  ⟨h'.config.trans h.config, h'.others.trans h.others,
    fun hs => (h'.outside hs).trans (h.outside hs), h.nextScope.trans h'.nextScope,
    h.nextProcedure.trans h'.nextProcedure⟩

/-- What a program may do leaves untouched what is not its own. -/
theorem Within.untouched (h : Within names region a b) : Untouched names region a b :=
  ⟨h.config, h.others, h.store.outside, h.store.nextScope, h.store.nextProcedure⟩

namespace Split

/-- A session that is split mirrors itself on the region, if it has the numbers not yet given
out. -/
theorem mirrors_self (h : Split names region a)
    (hscope : ∀ k, a.store.nextScope + k ∈ region.scopes)
    (hprocedure : ∀ k, a.store.nextProcedure + k ∈ region.procedures) :
    Mirrors names .same region a a where
  config := rfl
  holdings := (Holdings.rename_same _).symm
  isIn := h.mine
  store := h.store.closedOn.corresponds_same h.store.admits hscope hprocedure

/-- **What works within the region keeps a session split.** -/
theorem within (h : Split names region a) (hafter : Mirrors names r region a' b')
    (hle : Within names region a a') : Split names region a' where
  numbered := h.numbered
  store := h.store.extend hle.store hafter.store h.numbered
  mine := hafter.isIn
  others := by
    rw [hle.others]
    refine ⟨fun s hs => (h.others.roots s hs).imp_right hle.store.has, fun id hid => ?_⟩
    obtain ⟨hmem, hlt⟩ := h.others.serials id hid
    exact ⟨hmem, fun hnumbered => (hlt hnumbered).trans_le hle.store.nextProcedure⟩
  steady := by
    rw [hle.others]
    exact h.steady.congr hle.store.outside

/-- **Taking scopes out keeps a session split.** -/
theorem reclaim {store : Store} (h : Split names region a)
    (hstore : Store.Reclaimed region a.roots a.store store) :
    Split names region { a with store := store } where
  numbered := h.numbered
  store := hstore.divided
  mine :=
    ⟨fun s hs => (h.mine.roots s hs).imp_right (hstore.has s ((mem_roots_iff names).2 (.inl hs))),
      fun id hid => (h.mine.serials id hid).imp_right fun hlt => hstore.nextProcedure ▸ hlt⟩
  others :=
    ⟨fun s hs => (h.others.roots s hs).imp_right (hstore.has s ((mem_roots_iff names).2 (.inr hs))),
      fun id hid => (h.others.serials id hid).imp_right fun hlt => hstore.nextProcedure ▸ hlt⟩
  steady := h.steady.congr hstore.outside

end Split

/-! ### Twins -/

/-- The second session mirrors the first one on a region that splits both. -/
structure Twins (names : HostName → Bool) (r : Renaming) (region : Region) (a b : Session) :
    Prop where
  mirrors : Mirrors names r region a b
  left : Split names region a
  right : Split names (region.image r) b

/-- Twins, and what may happen to the first one. -/
def twinning (names : HostName → Bool) (r : Renaming) (region : Region) :
    Coupling Session Session where
  Related := Twins names r region
  Allowed := Untouched names region
  refl := Untouched.refl names region
  trans := Untouched.trans

namespace Twins

/-- The second session mirrors itself. -/
theorem mirrors_right (h : Twins names r region a b) :
    Mirrors names .same (region.image r) b b := by
  refine h.right.mirrors_self (fun k => ?_) fun k => ?_
  · exact ⟨_, h.mirrors.store.freshScope k⟩
  · exact ⟨_, h.mirrors.store.freshProcedure k⟩

/-- **What goes in lockstep on sessions that mirror each other keeps twins**, if the second of
the computations stays within the region as well. -/
theorem lockstep {α β : Type} {x : Host α} {y : Host β} {J : Session → α → β → Prop}
    {K : Session → β → β → Prop} (h : Twins names r region a b)
    (hxy : Lockstep (mirroring names r region) J x y a b)
    (hyy : Lockstep (mirroring names .same (region.image r)) K y y b b) :
    Lockstep (twinning names r region) J x y a b := by
  unfold Lockstep at hxy hyy ⊢
  cases hx : x a <;> cases hy : y b <;> simp only [hx, hy] at hxy hyy ⊢
  · exact ⟨⟨hxy.1, h.left.within hxy.1 hxy.2.1, h.right.within hyy.1 hyy.2.1⟩,
      hxy.2.1.untouched, hxy.2.2⟩
  · exact ⟨⟨hxy.1, h.left.within hxy.1 hxy.2.1, h.right.within hyy.1 hyy.2.1⟩,
      hxy.2.1.untouched, hxy.2.2⟩

/-- The hosts of twins refer to the same scopes of the region. -/
theorem agree_roots (h : Twins names r region a b) : Store.Agree r region a.roots b.roots := by
  have hmine := Store.agree_map h.mirrors.store.injScope fun s hs => (h.left.mine.roots s hs).1
  rw [← Holdings.roots_rename, ← h.mirrors.holdings] at hmine
  intro s hs
  have hleft : s ∉ (a.holdings (!names ·)).roots := fun hmem =>
    (h.left.others.roots s hmem).1 hs
  have hright : r.scope s ∉ (b.holdings (!names ·)).roots := fun hmem =>
    (h.right.others.roots _ hmem).1 (Set.mem_image_of_mem _ hs)
  rw [mem_roots_iff names, mem_roots_iff names, or_iff_left hleft, or_iff_left hright]
  exact hmine s hs

/-! ### Taking scopes out of twins -/

/-- Twins stay twins when scopes are reclaimed inside in both, and nothing else is touched. -/
theorem reclaim (h : Twins names r region a b) {sa sb : Store}
    (hstore : Store.Corresponds r region sa sb)
    (ha : Store.Reclaimed region a.roots a.store sa)
    (hb : Store.Reclaimed (region.image r) b.roots b.store sb) :
    Twins names r region { a with store := sa } { b with store := sb } ∧
      Untouched names region a { a with store := sa } := by
  have hleft := h.left.reclaim ha
  refine ⟨⟨⟨h.mirrors.config, h.mirrors.holdings, hleft.mine, hstore⟩, hleft,
    h.right.reclaim hb⟩, rfl, rfl, ha.outside, ha.nextScope.ge, ha.nextProcedure.ge⟩

/-- Twins may settle. -/
theorem settle (h : Twins names r region a b) :
    Twins names r region a.settle b.settle ∧ Untouched names region a a.settle := by
  refine h.reclaim (h.mirrors.store.settle h.left.store h.right.store h.agree_roots) ?_ ?_
  · exact h.left.store.reclaimed_settle h.left.steady fun s hs => (mem_roots_iff names).2 (.inr hs)
  · exact h.right.store.reclaimed_settle h.right.steady
      fun s hs => (mem_roots_iff names).2 (.inr hs)

/-- Clearing the tree of a scope of the region. -/
theorem clear (h : Twins names r region a b) (hs : s ∈ region.scopes) :
    Twins names r region { a with store := a.store.clear a.roots s }
        { b with store := b.store.clear b.roots (r.scope s) } ∧
      Untouched names region a { a with store := a.store.clear a.roots s } := by
  refine h.reclaim (h.mirrors.store.emptyAll_settle h.left.store h.right.store h.agree_roots
    (h.mirrors.store.agree_treeOf h.left.store h.right.store hs)) ?_ ?_
  · exact h.left.store.reclaimed_emptyAll_settle h.left.steady
      (fun s hs => (mem_roots_iff names).2 (.inr hs)) fun t => h.left.store.treeOf_mem hs
  · exact h.right.store.reclaimed_emptyAll_settle h.right.steady
      (fun s hs => (mem_roots_iff names).2 (.inr hs))
      fun t => h.right.store.treeOf_mem (Set.mem_image_of_mem _ hs)

end Twins

/-! ### Releases and evaluations -/

/-- The results of evaluations that go in lockstep hold the same scopes of the region. -/
theorem heldBy_of_outcome {store : Store} {x y : Except Error Value}
    (h : Outcome (Value.Transported r region store) x y) :
    heldBy y = (heldBy x).map r.scope ∧
      ∀ t ∈ heldBy x, t ∈ region.scopes ∧ store.Has t := by
  cases x with
  | error e =>
    cases y with
    | error e' => exact ⟨rfl, nofun⟩
    | ok v => exact h.elim
  | ok u =>
    cases y with
    | error e' => exact h.elim
    | ok v =>
      obtain ⟨rfl, hu⟩ := h
      refine ⟨by cases u <;> rfl, fun t ht => ?_⟩
      obtain ⟨p, hp, rfl⟩ := mem_captured.1 ht
      exact ⟨(hu p hp).1, (hu p hp).2.1⟩

/-- Results can still be used when what they captured is left. -/
theorem outcome_keep {store after : Store} {x y : Except Error Value}
    (h : Outcome (Value.Transported r region store) x y)
    (hhas : ∀ t ∈ heldBy x, after.Has t) (hnext : after.nextProcedure = store.nextProcedure) :
    Outcome (Value.Transported r region after) x y := by
  cases x with
  | error e => cases y <;> exact h
  | ok u =>
    cases y with
    | error e' => exact h
    | ok v =>
      refine ⟨h.1, fun p hp => ?_⟩
      obtain ⟨hmem, -, hid, hlt⟩ := h.2 p hp
      exact ⟨hmem, hhas _ (mem_captured.2 ⟨p, hp, rfl⟩), hid, hnext ▸ hlt⟩

/-- A release takes scopes out on one side only. -/
theorem Split.reclaimed_release (h : Split names region a) (hs : s ∈ region.scopes)
    (held : List Referent) :
    Store.Reclaimed region (held.map Referent.scopeOf ++ a.roots) a.store
      (a.release s held).2.store := by
  have hothers : ∀ s ∈ (a.holdings (!names ·)).roots, s ∈ held.map Referent.scopeOf ++ a.roots :=
    fun s hs => List.mem_append_right _ ((mem_roots_iff names).2 (.inr hs))
  have hmap := map_scopeOf_append_holders held a
  have hsettled := h.store.reclaimed_settle h.steady hothers
  have hreleased := hsettled.divided.reclaimed_release (h.steady.congr hsettled.outside)
    (fun t ht => hmap ▸ hothers t ht) hs
  rw [hmap] at hreleased
  rw [release_eq]
  exact hsettled.trans hreleased

namespace Twins

/-- **Releasing the tree of a scope of the region**: the same number of scopes is emptied. -/
theorem release (h : Twins names r region a b) (hs : s ∈ region.scopes)
    (hheld : ∀ t ∈ held.map Referent.scopeOf, t ∈ region.scopes)
    (hheld' : held'.map Referent.scopeOf = (held.map Referent.scopeOf).map r.scope) :
    (b.release (r.scope s) held').1 = (a.release s held).1 ∧
      Twins names r region (a.release s held).2 (b.release (r.scope s) held').2 ∧
      Untouched names region a (a.release s held).2 := by
  have hagree : Store.Agree r region (held.map Referent.scopeOf ++ a.roots)
      (held'.map Referent.scopeOf ++ b.roots) := by
    rw [hheld']
    exact (Store.agree_map h.mirrors.store.injScope hheld).append h.agree_roots
  have hsettled := h.mirrors.store.settle h.left.store h.right.store hagree
  have hheldAgree := hagree
  rw [← map_scopeOf_append_holders, ← map_scopeOf_append_holders] at hheldAgree
  have hreleased :=
    hsettled.release (h.left.store.settle _) (h.right.store.settle _) hheldAgree hs
  have hstore : Store.Corresponds r region (a.release s held).2.store
      (b.release (r.scope s) held').2.store := by
    rw [release_eq, release_eq]
    exact hreleased.2
  refine ⟨?_, h.reclaim hstore ?_ ?_⟩
  · rw [release_eq, release_eq]
    exact hreleased.1
  · exact (h.left.reclaimed_release hs held).mono fun t => List.mem_append_right _
  · exact (h.right.reclaimed_release (Set.mem_image_of_mem _ hs) held').mono
      fun t => List.mem_append_right _

/-- What the second of two evaluations returns can be used in its session. -/
theorem outcome_right (h : Twins names r region a b) {x y : Except Error Value}
    (hxy : Outcome (Value.Transported r region a.store) x y) :
    Outcome (Value.Transported .same (region.image r) b.store) y y := by
  refine outcome_same.2 ⟨rfl, fun v hv => ?_⟩
  cases x with
  | error e =>
    rw [hv] at hxy
    exact hxy.elim
  | ok u =>
    rw [hv] at hxy
    obtain ⟨rfl, hu⟩ := hxy
    exact h.mirrors.store.isIn_rename hu

/-- **Evaluating a text in a scope of the region.** -/
theorem evaluateText (h : Twins names r region a b) (config : Config) (text : String)
    (hs : s ∈ region.scopes ∧ a.store.Has s) :
    Twins names r region (a.evaluateText config s text).2
        (b.evaluateText config (r.scope s) text).2 ∧
      Untouched names region a (a.evaluateText config s text).2 ∧
      Outcome (Value.Transported r region (a.evaluateText config s text).2.store)
        (a.evaluateText config s text).1 (b.evaluateText config (r.scope s) text).1 := by
  cases hread : read config.comments text with
  | error fault =>
    unfold Session.evaluateText
    rw [hread]
    exact ⟨h, .refl .., rfl⟩
  | ok tree =>
    have hs' : r.scope s ∈ (region.image r).scopes ∧ b.store.Has (r.scope s) :=
      ⟨Set.mem_image_of_mem _ hs.1, (h.mirrors.store.has_iff hs.1).2 hs.2⟩
    obtain ⟨hmirrors, hle, houtcome⟩ := h.mirrors.run_evaluate config.maxDepth tree hs
    obtain ⟨hmirrors', hle', -⟩ := h.mirrors_right.run_evaluate config.maxDepth tree hs'
    have hran : Twins names r region _ _ :=
      ⟨hmirrors, h.left.within hmirrors hle, h.right.within hmirrors' hle'⟩
    rw [evaluateText_of_read hread, evaluateText_of_read hread]
    generalize a.run (evaluate config.maxDepth s tree) = ran at hle houtcome hran ⊢
    generalize b.run (evaluate config.maxDepth (r.scope s) tree) = ran' at houtcome hran ⊢
    obtain ⟨hheld, hmem⟩ := heldBy_of_outcome houtcome
    have hin : ∀ t ∈ s :: heldBy ran.1, t ∈ region.scopes ∧ ran.2.store.Has t := by
      rintro t (_ | ⟨_, ht⟩)
      · exact ⟨hs.1, hle.store.has hs.2⟩
      · exact hmem t ht
    -- the release after an evaluation keeps what the result captured
    have hreclaimed := hran.left.reclaimed_release hs.1 (.scope s :: referents ran.1)
    rw [map_scopeOf_referents] at hreclaimed
    have hheld' : (.scope (r.scope s) :: referents ran'.1).map Referent.scopeOf =
        ((.scope s :: referents ran.1).map Referent.scopeOf).map r.scope := by
      rw [map_scopeOf_referents, map_scopeOf_referents, hheld, List.map_cons]
    obtain ⟨-, htwins, huntouched⟩ :=
      hran.release hs.1 (fun t ht => (hin t (map_scopeOf_referents s ran.1 ▸ ht)).1) hheld'
    refine ⟨htwins, hle.untouched.trans huntouched, outcome_keep houtcome (fun t ht => ?_) ?_⟩
    · have hmem := List.mem_cons_of_mem s ht
      exact hreclaimed.has t (List.mem_append_left _ hmem) (hin t hmem).2
    · exact hreclaimed.nextProcedure

/-- Letting the global scope go. -/
theorem dropGlobal (h : Twins names r region a b) (hname : names .global = true) :
    Twins names r region { a with global := none } { b with global := none } ∧
      Untouched names region a { a with global := none } := by
  have hothers (session : Session) : ({ session with global := none } : Session).holdings
      (!names ·) = session.holdings (!names ·) := by
    simp [holdings, hname]
  have hfewer (session : Session) (s : ScopeId)
      (hs : s ∈ (({ session with global := none } : Session).holdings names).roots) :
      s ∈ (session.holdings names).roots := by
    refine Holdings.mem_roots.2 (.inr ((Holdings.mem_roots.1 hs).resolve_left ?_))
    simp [holdings]
  have hsplit {region : Region} {session : Session} (h : Split names region session) :
      Split names region { session with global := none } :=
    { h with
      mine := ⟨fun s hs => h.mine.roots s (hfewer session s hs), h.mine.serials⟩
      others := by
        rw [hothers]
        exact h.others
      steady := by
        rw [hothers]
        exact h.steady }
  obtain ⟨-, hhandles, hslots, hwatches⟩ := Holdings.mk.inj h.mirrors.holdings
  refine ⟨⟨{ h.mirrors with
    holdings := Holdings.ext (by simp [holdings, Holdings.rename]) hhandles hslots hwatches
    isIn := (hsplit h.left).mine }, hsplit h.left, hsplit h.right⟩, ?_⟩
  exact { Untouched.refl names region a with others := hothers a }

/-- Dropping the interpreter, if its tree is in the region. -/
theorem drop (h : Twins names r region a b) (hname : names .global = true) :
    Twins names r region a.drop b.drop ∧ Untouched names region a a.drop := by
  unfold Session.drop
  rw [h.mirrors.global hname]
  cases hs : a.global with
  | none => exact ⟨h, .refl ..⟩
  | some s =>
    obtain ⟨hclear, huntouched⟩ := h.clear (h.mirrors.global_mem hname hs).1
    obtain ⟨hdrop, hsame⟩ := hclear.dropGlobal hname
    exact ⟨hdrop, huntouched.trans hsame⟩

/-- **A procedure of the region exists in both sessions or in neither.** -/
theorem isAlive (h : Twins names r region a b) (hid : id ∈ region.procedures) :
    b.isAlive (r.procedure id) = a.isAlive id := by
  have hstore := h.mirrors.store
  have hslots : (b.holdings names).slots.values =
      (a.holdings names).slots.values.map (Value.rename r) := by
    rw [h.mirrors.holdings, Holdings.rename, Table.values_map]
  rw [Bool.eq_iff_iff, isAlive_eq_true, isAlive_eq_true]
  constructor
  · rintro (⟨q, hq, hqid⟩ | ⟨t, scope, ht, q, hq, hqid⟩)
    · rcases (mem_slots_iff names).1 hq with hq | hq
      · rw [hslots] at hq
        obtain ⟨v, hv, hvq⟩ := List.mem_map.1 hq
        cases v with
        | procedure p =>
          obtain rfl := Value.procedure.inj hvq
          have hp := (h.left.mine.slot hv p rfl).2.2.1
          exact .inl ⟨p, (mem_slots_iff names).2 (.inl hv), hstore.injProcedure hp hid hqid⟩
        | number | boolean | builtin => cases hvq
      · -- nothing under the other names has a number of the region
        have hout := (h.right.others.slot hq q rfl).2.2.1
        exact absurd ⟨id, hid, hqid.symm⟩ hout
    · obtain ⟨u, hu, rfl⟩ := (h.right.store.serials ht hq).1.1 ⟨id, hid, hqid.symm⟩
      rw [hstore.scope? hu] at ht
      obtain ⟨found, hfound, rfl⟩ := Option.map_eq_some_iff.1 ht
      rw [Scope.procedures_rename] at hq
      obtain ⟨p, hp, rfl⟩ := List.mem_map.1 hq
      have hpid := (h.left.store.serials hfound hp).1.2 hu
      exact .inr ⟨u, found, hfound, p, hp, hstore.injProcedure hpid hid hqid⟩
  · rintro (⟨p, hp, rfl⟩ | ⟨t, scope, ht, p, hp, rfl⟩)
    · rcases (mem_slots_iff names).1 hp with hp | hp
      · refine .inl ⟨p.rename r, (mem_slots_iff names).2 (.inl ?_), rfl⟩
        rw [hslots]
        exact List.mem_map_of_mem hp
      · exact absurd hid (h.left.others.slot hp p rfl).2.2.1
    · have htmem := (h.left.store.serials ht hp).1.1 hid
      refine .inr ⟨r.scope t, scope.rename r, by rw [hstore.scope? htmem, ht]; rfl, p.rename r,
        ?_, rfl⟩
      rw [Scope.procedures_rename]
      exact List.mem_map_of_mem hp

end Twins
end Session

/-! ### Steps -/

namespace Host

open Session

variable {names : HostName → Bool} {r : Renaming} {region : Region} {a b : Session}

/-- A scope is found under its name in both twins, or in none. -/
theorem scope_twins (h : Twins names r region a b) {name : ScopeName}
    (hname : names name.hostName = true) :
    Lockstep (twinning names r region) (ScopeMirrored r region) (scope name) (scope name) a b :=
  h.lockstep (scope_mirrors h.mirrors hname) (scope_mirrors h.mirrors_right hname)

/-- Evaluating a text in a named scope. -/
theorem evaluateText_twins (h : Twins names r region a b) (config : Session → Config)
    (hconfig : ∀ a b : Session, b.config = a.config → config b = config a) (text : String)
    {scopeName : ScopeName} (hscope : names scopeName.hostName = true) {slotName : Option String}
    (hslot : ∀ n ∈ slotName, names (.slot n) = true) :
    Lockstep (twinning names r region) (AnswerMirrored r)
      (do
        let s ← scope scopeName
        yield slotName (← modifyGet fun session => session.evaluateText (config session) s text))
      (do
        let s ← scope scopeName
        yield slotName (← modifyGet fun session => session.evaluateText (config session) s text))
      a b := by
  refine Lockstep.bind (scope_twins h hscope) ?_
  rintro s _ a b h - ⟨rfl, hs⟩
  obtain ⟨htwins, huntouched, houtcome⟩ := h.evaluateText (config a) text hs
  refine Lockstep.modifyGet_bind huntouched ?_
  rw [hconfig a b h.mirrors.config]
  exact htwins.lockstep (yield_mirrors htwins.mirrors hslot houtcome)
    (yield_mirrors htwins.mirrors_right hslot (htwins.outcome_right houtcome))

/-- **Every step that mentions none but the names keeps twins**, with the same answer under the
renaming. -/
theorem perform_twins (h : Twins names r region a b) {step : Step}
    (hnames : ∀ name ∈ step.names, names name = true) :
    Lockstep (twinning names r region) (AnswerMirrored r) (perform step) (perform step) a b := by
  by_cases hreclaims : Reclaims step
  · cases step with
    | evaluate text scopeName slotName =>
      obtain ⟨hscope, hslot⟩ := List.forall_mem_cons.1 hnames
      exact evaluateText_twins h Session.config (fun _ _ => id) text hscope (names_slot hslot)
    | evaluateDefault text scopeName slotName =>
      obtain ⟨hscope, hslot⟩ := List.forall_mem_cons.1 hnames
      exact evaluateText_twins h (fun _ => {}) (fun _ _ _ => rfl) text hscope (names_slot hslot)
    | clear scopeName =>
      refine Lockstep.bind (scope_twins h (hnames _ (List.mem_singleton_self _))) ?_
      rintro s _ a b h - ⟨rfl, hs, -⟩
      obtain ⟨htwins, huntouched⟩ := h.clear hs
      exact Lockstep.modifyGet_bind huntouched (Lockstep.pure htwins rfl)
    | release scopeName =>
      refine Lockstep.bind (scope_twins h (hnames _ (List.mem_singleton_self _))) ?_
      rintro s _ a b h - ⟨rfl, hs, -⟩
      have hheld : ∀ t ∈ ([] : List Referent).map Referent.scopeOf, t ∈ region.scopes :=
        fun _ ht => absurd ht List.not_mem_nil
      have hsame : ([] : List Referent).map Referent.scopeOf =
          (([] : List Referent).map Referent.scopeOf).map r.scope := rfl
      obtain ⟨hcount, htwins, huntouched⟩ := h.release hs hheld hsame
      exact Lockstep.modifyGet_bind huntouched
        (Lockstep.pure htwins (congrArg Answer.released hcount))
    | dropInterpreter =>
      obtain ⟨htwins, huntouched⟩ := h.drop (hnames _ (List.mem_singleton_self _))
      exact Lockstep.modifyGet_bind huntouched (Lockstep.pure htwins rfl)
    | _ => exact hreclaims.elim
  · by_cases halive : ∃ name, step = .isAlive name
    · obtain ⟨name, rfl⟩ := halive
      have hname := hnames _ (List.mem_singleton_self _)
      refine Lockstep.get_bind ?_
      rw [h.mirrors.watch hname]
      cases hid : a.watches.get? name with
      | none => exact Lockstep.throw h
      | some id =>
        refine Lockstep.get_bind (Lockstep.pure h ?_)
        have hmem : id ∈ (a.holdings names).watches.values :=
          Table.mem_values_of_get? ((Table.get?_only hname _).trans hid)
        exact congrArg Answer.truth
          (h.isAlive (h.left.mine.serials id (Holdings.mem_serials.2 (.inr hmem))).1)
    · have hne (name : String) : step ≠ .isAlive name := fun hname => halive ⟨name, hname⟩
      exact h.lockstep (perform_mirrors hreclaims hne hnames h.mirrors)
        (perform_mirrors hreclaims hne hnames h.mirrors_right)

end Host

namespace Session

variable {names : HostName → Bool} {r : Renaming} {region : Region} {a b : Session}

/-- **A step on one side of the border** gives the same answer in twins, under the renaming; they
stay twins, and nothing happens on the other side. -/
theorem Twins.step (h : Twins names r region a b) {step : Step}
    (hnames : ∀ name ∈ step.names, names name = true) :
    (b.step step).1 = (a.step step).1.rename r ∧
      Twins names r region (a.step step).2 (b.step step).2 ∧
      Untouched names region a (a.step step).2 := by
  have hperform := Host.perform_twins h hnames
  unfold Lockstep at hperform
  unfold Session.step
  cases ha : Host.perform step a with
  | ok answer a' =>
    cases hb : Host.perform step b with
    | error reason b' => simp only [ha, hb] at hperform
    | ok answer' b' =>
      simp only [ha, hb] at hperform ⊢
      obtain ⟨htwins, huntouched, hanswer⟩ := hperform
      obtain ⟨hsettled, hsame⟩ := htwins.settle
      exact ⟨hanswer, hsettled, huntouched.trans hsame⟩
  | error reason a' =>
    cases hb : Host.perform step b with
    | ok answer' b' => simp only [ha, hb] at hperform
    | error reason' b' =>
      simp only [ha, hb] at hperform ⊢
      obtain ⟨htwins, huntouched, rfl⟩ := hperform
      obtain ⟨hsettled, hsame⟩ := htwins.settle
      exact ⟨rfl, hsettled, huntouched.trans hsame⟩

end Session
end StrictScheme
