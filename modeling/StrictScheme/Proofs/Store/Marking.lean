/-
# Counting and marking

A release knows neither what the host refers to nor the other trees; it only knows how
often something is referred to.  All references there are, less those that the tree
makes itself, are those of the host and of the scopes and procedures outside the tree.
So what is referred to more often than the tree does it is what these refer to
(`Store.isHeldOutside_iff`).

From there the marking follows references inside the tree.  What it comes to look at
(`Marking.Meets`) is settled from the start: each turn takes up one thing that is pending
and marks it, and of all the rest the same things are met afterwards
(`Marking.meets_iff_of_next?`).  In the end just these are marked (`Marking.unmarked_run`).

Both together say that what is left is what a walk from the host and from all scopes of
the other trees does not reach (`Store.Registered.mem_garbage`).
-/

import Mathlib.Data.List.Nodup
import Mathlib.Logic.Function.Iterate
import StrictScheme.Proofs.Store.Registry

namespace StrictScheme

variable {store : Store} {held : List Referent} {tree : List ScopeId} {scope : Scope}
  {s t : ScopeId} {p : Procedure} {x y : Referent}

/-- The references of scopes and procedures. -/
inductive Store.Refers (store : Store) : Referent → Referent → Prop
  | parent {s t : ScopeId} {scope : Scope} (hs : store.scope? s = some scope)
      (ht : scope.parent? = some t) : store.Refers (.scope s) (.scope t)
  | binding {s : ScopeId} {scope : Scope} {p : Procedure} (hs : store.scope? s = some scope)
      (hp : p ∈ scope.procedures) : store.Refers (.scope s) (.procedure p)
  | captured (p : Procedure) : store.Refers (.procedure p) (.scope p.scope)

/-! ### Counting -/

namespace Tally

variable {tally : Tally}

/-- A reference that is added goes into one of the buckets that there are. -/
theorem size_add (tally : Tally) (x : Referent) :
    (tally.add x).buckets.size = tally.buckets.size :=
  Array.size_modify

/-- Adding a reference counts for what is referred to. -/
theorem count_add (h : 0 < tally.buckets.size) (x y : Referent) :
    (tally.add x).count y = tally.count y + [x].count y := by
  have hbucket (z : Referent) : tally.bucket z < tally.buckets.size := Nat.mod_lt _ h
  have hsame : (tally.add x).bucket y = tally.bucket y := by
    rw [bucket, bucket, size_add]
  rw [count, count, hsame]
  simp only [add, Array.getD_eq_getD_getElem?, Array.getElem?_modify,
    Array.getElem?_eq_getElem (hbucket y)]
  by_cases hxy : x = y
  · subst hxy
    simp
  · split <;> simp [hxy]

/-- **A tally counts the references of a list.** -/
theorem count_ofList (listed : List Referent) (x : Referent) :
    (ofList listed).count x = listed.count x := by
  suffices ∀ tally : Tally, 0 < tally.buckets.size →
      (listed.foldl add tally).count x = tally.count x + listed.count x by
    have hempty : count ⟨Array.replicate (listed.length + 1) []⟩ x = 0 := by
      rw [count, Array.getD_eq_getD_getElem?, Array.getElem?_replicate]
      split <;> rfl
    rw [ofList, this _ (by simp), hempty, Nat.zero_add]
  induction listed with
  | nil => exact fun _ _ => rfl
  | cons y rest ih =>
    intro tally h
    rw [List.foldl_cons, ih _ (by rwa [size_add]), count_add h, Nat.add_assoc,
      ← List.count_append]
    rfl

end Tally

/-- Erasing duplicates leaves none. -/
theorem nodup_eraseDups {α : Type} [DecidableEq α] (l : List α) : l.eraseDups.Nodup := by
  match l with
  | [] => exact List.nodup_nil
  | a :: rest =>
    rw [List.eraseDups_cons, List.nodup_cons, List.mem_eraseDups, List.mem_filter]
    exact ⟨fun h => by simpa using h.2, nodup_eraseDups _⟩
termination_by l.length
decreasing_by exact Nat.lt_succ_of_le (List.length_filter_le _ _)

/-- A list is, in some order, another one without repetitions and the rest. -/
theorem perm_append_filter {α : Type} [DecidableEq α] {part whole : List α} (hpart : part.Nodup)
    (hwhole : whole.Nodup) (hsub : ∀ a ∈ part, a ∈ whole) :
    whole.Perm (part ++ whole.filter (· ∉ part)) := by
  have hnodup : (part ++ whole.filter (· ∉ part)).Nodup := by
    refine List.nodup_append.2 ⟨hpart, hwhole.filter _, ?_⟩
    rintro a ha _ hb rfl
    exact of_decide_eq_true (List.mem_filter.1 hb).2 ha
  refine (List.perm_ext_iff_of_nodup hwhole hnodup).2 fun a => ?_
  rw [List.mem_append, List.mem_filter, decide_eq_true_iff]
  by_cases ha : a ∈ part
  · exact iff_of_true (hsub a ha) (.inl ha)
  · exact ⟨fun h => .inr ⟨h, ha⟩, fun h => (h.resolve_left ha).1⟩

namespace Store

/-- A procedure refers to the scope in which it was defined, and to nothing else. -/
theorem refers_procedure_iff : store.Refers (.procedure p) x ↔ x = .scope p.scope := by
  constructor
  · rintro ⟨⟩
    rfl
  · rintro rfl
    exact .captured p

/-- A scope refers to one other scope at most, its parent. -/
theorem refers_scope_iff :
    store.Refers (.scope s) (.scope t) ↔ (store.scope? s).bind Scope.parent? = some t := by
  rw [Option.bind_eq_some_iff]
  constructor
  · rintro ⟨hs, ht⟩
    exact ⟨_, hs, ht⟩
  · exact fun ⟨_, hs, ht⟩ => .parent hs ht

/-- The procedures of some scopes are those that one of them refers to. -/
theorem mem_proceduresOf :
    p ∈ store.proceduresOf tree ↔ ∃ s ∈ tree, store.Refers (.scope s) (.procedure p) := by
  rw [proceduresOf, List.mem_flatMap]
  refine exists_congr fun s => and_congr_right fun _ => ⟨fun hp => ?_, fun h => ?_⟩
  · cases hs : store.scope? s with
    | none =>
      rw [hs] at hp
      exact absurd hp List.not_mem_nil
    | some scope =>
      rw [hs] at hp
      exact .binding hs hp
  · cases h with
    | binding hs hp =>
      rw [hs]
      exact hp

/-- The referents of a scope are what it refers to. -/
theorem mem_referents_iff (hs : store.scope? s = some scope) :
    x ∈ scope.referents ↔ store.Refers (.scope s) x := by
  rw [Scope.referents, List.mem_append, List.mem_map, List.mem_map]
  constructor
  · rintro (⟨t, ht, rfl⟩ | ⟨p, hp, rfl⟩)
    · exact .parent hs (Option.mem_toList.1 ht)
    · exact .binding hs hp
  · intro h
    cases h with
    | parent hs' ht =>
      obtain rfl := Option.some.inj (hs.symm.trans hs')
      exact .inl ⟨_, Option.mem_toList.2 ht, rfl⟩
    | binding hs' hp =>
      obtain rfl := Option.some.inj (hs.symm.trans hs')
      exact .inr ⟨_, hp, rfl⟩

/-- What is listed for a tree is what its scopes and procedures refer to. -/
theorem mem_referentsOf {procedures : List Procedure} :
    x ∈ store.referentsOf tree procedures ↔
      (∃ s ∈ tree, store.Refers (.scope s) x) ∨
        ∃ p ∈ procedures, store.Refers (.procedure p) x := by
  rw [referentsOf, List.mem_append, List.mem_flatMap, List.mem_map]
  refine or_congr (exists_congr fun s => and_congr_right fun _ => ?_)
    (exists_congr fun p => and_congr_right fun _ => ?_)
  · cases hs : store.scope? s with
    | none =>
      refine iff_of_false List.not_mem_nil fun h => ?_
      cases h with
      | parent hs' => rw [hs] at hs'; cases hs'
      | binding hs' => rw [hs] at hs'; cases hs'
    | some scope => exact mem_referents_iff hs
  · constructor
    · rintro rfl
      exact .captured p
    · rintro ⟨⟩
      rfl

/-- What some scopes and procedures refer to is what a part of them refers to, and the rest. -/
theorem count_referentsOf {scopes : List ScopeId} {procedures all : List Procedure}
    (htree : tree.Nodup) (hscopes : scopes.Nodup) (hsub : ∀ s ∈ tree, s ∈ scopes)
    (hprocedures : procedures.Nodup) (hall : all.Nodup) (hsub' : ∀ p ∈ procedures, p ∈ all)
    (x : Referent) :
    (store.referentsOf scopes all).count x = (store.referentsOf tree procedures).count x +
      (store.referentsOf (scopes.filter (· ∉ tree)) (all.filter (· ∉ procedures))).count x := by
  have hscopes' := (perm_append_filter htree hscopes hsub).flatMap_right
    fun s => ((store.scope? s).map Scope.referents).getD []
  have hall' := (perm_append_filter hprocedures hall hsub').map fun p => Referent.scope p.scope
  simp only [referentsOf, List.count_append, hscopes'.count_eq, hall'.count_eq,
    List.flatMap_append, List.map_append]
  omega

/-- What there is: the scopes that exist, and the procedures that the host or a scope refers to. -/
def Contains (store : Store) (held : List Referent) : Referent → Prop
  | .scope s => store.Has s
  | .procedure p => .procedure p ∈ held ∨ ∃ s, store.Refers (.scope s) (.procedure p)

/-- What belongs to a tree: its scopes, and the procedures bound in them. -/
def Inside (store : Store) (tree : List ScopeId) : Referent → Prop
  | .scope s => s ∈ tree
  | .procedure p => p ∈ store.proceduresOf tree

/-- Of the procedures that there are, each is counted once. -/
theorem mem_procedures_iff :
    p ∈ (held.filterMap Referent.procedure? ++ store.proceduresOf store.ids).eraseDups ↔
      store.Contains held (.procedure p) := by
  rw [List.mem_eraseDups, List.mem_append, mem_proceduresOf, List.mem_filterMap]
  refine or_congr ⟨?_, fun hp => ⟨_, hp, rfl⟩⟩
    (exists_congr fun s => and_iff_right_of_imp fun h => ?_)
  · rintro ⟨_ | q, hq, hp⟩
    · cases hp
    · exact Option.some.inj hp ▸ hq
  · cases h with
    | binding hs hp => exact mem_ids.2 ⟨_, hs⟩

/-- What refers to something from outside a tree is one of the scopes and procedures that are left
when those of the tree are taken away. -/
theorem mem_referentsOf_filter {scopes : List ScopeId} {procedures all : List Procedure}
    (hscopes : ∀ {s}, s ∈ scopes ↔ store.Contains held (.scope s))
    (hall : ∀ {p}, p ∈ all ↔ store.Contains held (.procedure p))
    (hprocedures : ∀ {p}, p ∈ procedures ↔ store.Inside tree (.procedure p)) :
    x ∈ store.referentsOf (scopes.filter (· ∉ tree)) (all.filter (· ∉ procedures)) ↔
      ∃ y, store.Contains held y ∧ ¬ store.Inside tree y ∧ store.Refers y x := by
  rw [mem_referentsOf]
  constructor
  · rintro (⟨s, hs, hrefers⟩ | ⟨p, hp, hrefers⟩)
    · rw [List.mem_filter, decide_eq_true_iff, hscopes] at hs
      exact ⟨.scope s, hs.1, hs.2, hrefers⟩
    · rw [List.mem_filter, decide_eq_true_iff, hall, hprocedures] at hp
      exact ⟨.procedure p, hp.1, hp.2, hrefers⟩
  · rintro ⟨s | p, hy, hout, hrefers⟩
    · exact .inl ⟨s, List.mem_filter.2 ⟨hscopes.2 hy, decide_eq_true hout⟩, hrefers⟩
    · exact .inr ⟨p, List.mem_filter.2
        ⟨hall.2 hy, decide_eq_true (mt hprocedures.1 hout)⟩, hrefers⟩

/-- **What is referred to more often than the tree does it** is what the host, or something that
does not belong to the tree, refers to. -/
theorem isHeldOutside_iff (htree : tree.Nodup) (hsub : ∀ s ∈ tree, store.Has s) :
    isHeldOutside (.ofList (store.allReferents held))
        (.ofList (store.referentsOf tree (store.proceduresOf tree).eraseDups)) x = true ↔
      x ∈ held ∨ ∃ y, store.Contains held y ∧ ¬ store.Inside tree y ∧ store.Refers y x := by
  set bound := (store.proceduresOf tree).eraseDups
  set all := (held.filterMap Referent.procedure? ++ store.proceduresOf store.ids).eraseDups
  have hbound {p : Procedure} : p ∈ bound ↔ store.Inside tree (.procedure p) :=
    List.mem_eraseDups
  have hall {p : Procedure} : p ∈ all ↔ store.Contains held (.procedure p) := mem_procedures_iff
  have hboundsub : ∀ p ∈ bound, p ∈ all := by
    intro p hp
    obtain ⟨s, -, h⟩ := mem_proceduresOf.1 (hbound.1 hp)
    exact hall.2 (.inr ⟨s, h⟩)
  -- what the tree makes itself counts on both sides
  have hcount : (store.allReferents held).count x = held.count x +
      ((store.referentsOf tree bound).count x +
        (store.referentsOf (store.ids.filter (· ∉ tree)) (all.filter (· ∉ bound))).count x) := by
    rw [allReferents, List.count_append, count_referentsOf htree (nodup_ids store)
      (fun s hs => mem_ids.2 (hsub s hs)) (nodup_eraseDups _) (nodup_eraseDups _) hboundsub x]
  rw [isHeldOutside, decide_eq_true_iff, Tally.count_ofList, Tally.count_ofList, hcount,
    ← mem_referentsOf_filter mem_ids hall hbound, ← List.count_pos_iff (l := held),
    ← List.count_pos_iff (l := store.referentsOf _ _)]
  omega

end Store

/-! ### Marking -/

/-- The references that a marking follows: those that do not lead to a scope outside the tree. -/
def Store.Follows (store : Store) (tree : List ScopeId) (x y : Referent) : Prop :=
  store.Refers x y ∧ ∀ s, y = .scope s → s ∈ tree

namespace Marking

variable {marking after : Marking}

/-- Something that is still to be looked at. -/
def Pending (marking : Marking) : Referent → Prop
  | .scope s => s ∈ marking.pendingScopes
  | .procedure p => p ∈ marking.pendingProcedures

/-- Something that is not marked so far. -/
def Unmarked (marking : Marking) : Referent → Prop
  | .scope s => s ∈ marking.scopes
  | .procedure p => p ∈ marking.procedures

/-- What a marking comes to look at: what is pending, and what is referred to by something
unmarked that it comes to look at. -/
inductive Meets (marking : Marking) (store : Store) (tree : List ScopeId) : Referent → Prop
  | pending {x : Referent} (h : marking.Pending x) : marking.Meets store tree x
  | step {x y : Referent} (h : marking.Meets store tree x) (hx : marking.Unmarked x)
      (hy : store.Follows tree x y) : marking.Meets store tree y

/-- One thing is marked, and what it refers to becomes pending if it was not marked before. -/
structure Marks (store : Store) (tree : List ScopeId) (marking : Marking) (x : Referent)
    (after : Marking) : Prop where
  unmarked : ∀ y, after.Unmarked y ↔ marking.Unmarked y ∧ y ≠ x
  pending : ∀ y, after.Pending y ↔
    marking.Pending y ∨ marking.Unmarked x ∧ store.Follows tree x y

/-- Marking once more changes nothing. -/
theorem Marks.refl (hx : ¬ marking.Unmarked x) : Marks store tree marking x marking where
  unmarked y := (and_iff_left_of_imp fun hy hyx => hx (by rwa [← hyx])).symm
  pending y := (or_iff_left fun h => hx h.1).symm

/-- Marking a procedure marks just that, and looks on where it refers to. -/
theorem marks_markProcedure (marking : Marking) (store : Store) (tree : List ScopeId)
    (p : Procedure) : Marks store tree marking (.procedure p) (marking.markProcedure tree p) := by
  unfold markProcedure
  split
  · next hp =>
    have hunmarked : marking.Unmarked (.procedure p) := hp
    constructor
    · rintro (t | q)
      · exact (and_iff_left Referent.noConfusion).symm
      · simp [Unmarked]
    · intro y
      rw [and_iff_right hunmarked, Store.Follows, Store.refers_procedure_iff]
      cases y with
      | scope t =>
        rw [Pending, List.mem_append, List.mem_filter, List.mem_singleton, decide_eq_true_iff,
          or_comm]
        refine or_congr_right (and_congr ?_ ?_) <;> simp
      | procedure q => exact (or_iff_left fun h => Referent.noConfusion h.1).symm
  · next hp => exact .refl hp

/-- Marking a scope marks just that, and looks on where it refers to. -/
theorem marks_markScope (marking : Marking) (store : Store) (tree : List ScopeId)
    (s : ScopeId) : Marks store tree marking (.scope s) (marking.markScope store tree s) := by
  unfold markScope
  split
  · next hs =>
    have hunmarked : marking.Unmarked (.scope s) := hs
    constructor
    · rintro (t | q)
      · simp [Unmarked]
      · exact (and_iff_left Referent.noConfusion).symm
    · intro y
      rw [and_iff_right hunmarked, Store.Follows]
      cases y with
      | scope t =>
        rw [Pending, List.mem_append, List.mem_filter, Option.mem_toList, decide_eq_true_iff,
          or_comm, Store.refers_scope_iff]
        simp [Pending]
      | procedure q =>
        rw [Pending, List.mem_append, Store.mem_proceduresOf, or_comm]
        simp [Pending]
  · next hs => exact .refl hs

/-- **Each turn takes up one thing that is pending, and marks it.** -/
theorem exists_marks_of_next? (h : marking.next? store tree = some after) :
    ∃ (x : Referent) (rest : Marking), (∀ y, marking.Pending y ↔ y = x ∨ rest.Pending y) ∧
      (∀ y, rest.Unmarked y ↔ marking.Unmarked y) ∧ Marks store tree rest x after := by
  unfold next? at h
  split at h
  · next p rest hpending =>
    refine ⟨.procedure p, { marking with pendingProcedures := rest }, ?_, ?_,
      Option.some.inj h ▸ marks_markProcedure ..⟩
    · rintro (t | q) <;> simp [Pending, hpending]
    · rintro (t | q) <;> rfl
  · next s rest hnone hpending =>
    refine ⟨.scope s, { marking with pendingScopes := rest }, ?_, ?_,
      Option.some.inj h ▸ marks_markScope ..⟩
    · rintro (t | q) <;> simp [Pending, hpending]
    · rintro (t | q) <;> rfl
  · cases h

/-- A turn is about what it marks; all else that is met is met afterwards, and nothing more. -/
theorem meets_iff_of_next? (h : marking.next? store tree = some after) :
    ∃ x, (∀ y, after.Unmarked y ↔ marking.Unmarked y ∧ y ≠ x) ∧
      ∀ y, marking.Meets store tree y ↔ y = x ∨ after.Meets store tree y := by
  obtain ⟨x, rest, hpending, hsame, hmarks⟩ := exists_marks_of_next? h
  have hunmarked (y : Referent) : after.Unmarked y ↔ marking.Unmarked y ∧ y ≠ x := by
    rw [hmarks.unmarked, hsame]
  have hnow {y : Referent} : after.Pending y ↔
      rest.Pending y ∨ marking.Unmarked x ∧ store.Follows tree x y := by
    rw [hmarks.pending, hsame]
  refine ⟨x, hunmarked, fun y => ⟨fun hy => ?_, ?_⟩⟩
  · induction hy with
    | pending hy => exact ((hpending _).1 hy).imp_right fun hy => .pending (hnow.2 (.inl hy))
    | @step z y _ hz hrefers ih =>
      by_cases hzx : z = x
      · subst hzx
        exact .inr (.pending (hnow.2 (.inr ⟨hz, hrefers⟩)))
      · exact .inr ((ih.resolve_left hzx).step ((hunmarked z).2 ⟨hz, hzx⟩) hrefers)
  · have hx : marking.Meets store tree x := .pending ((hpending x).2 (.inl rfl))
    rintro (rfl | hy)
    · exact hx
    · induction hy with
      | pending hy =>
        rcases hnow.1 hy with hy | ⟨hmark, hrefers⟩
        · exact .pending ((hpending _).2 (.inr hy))
        · exact hx.step hmark hrefers
      | step _ hz hrefers ih => exact ih.step ((hunmarked _).1 hz).1 hrefers

/-- There is nothing left to look at when a marking ends. -/
theorem not_meets_of_next? (h : marking.next? store tree = none) (x : Referent) :
    ¬ marking.Meets store tree x := by
  have hnone : ∀ y, ¬ marking.Pending y := by
    unfold next? at h
    split at h
    · cases h
    · cases h
    · next hprocedures hscopes => rintro (t | q) <;> simp [Pending, hprocedures, hscopes]
  intro hx
  induction hx with
  | pending hx => exact hnone _ hx
  | step _ _ _ ih => exact ih

/-- **A marking marks what it meets, and nothing else.** -/
theorem unmarked_run (marking : Marking) (store : Store) (tree : List ScopeId) (x : Referent) :
    (marking.run store tree).Unmarked x ↔
      marking.Unmarked x ∧ ¬ marking.Meets store tree x := by
  fun_induction run marking store tree with
  | case1 marking after h ih =>
    obtain ⟨y, hunmarked, hmeets⟩ := meets_iff_of_next? h
    rw [ih, hunmarked, hmeets, not_or, and_assoc]
  | case2 marking h => exact (and_iff_left (not_meets_of_next? h x)).symm

/-- A run goes on from where a turn leads. -/
theorem run_of_next? (h : marking.next? store tree = some after) :
    marking.run store tree = after.run store tree := by
  rw [run]
  split
  · next _ hsome => rw [Option.some.inj (hsome.symm.trans h)]
  · next hnone => rw [hnone] at h; cases h

/-- A run is over when there is nothing left to look at. -/
theorem run_of_next?_none (h : marking.next? store tree = none) :
    marking.run store tree = marking := by
  rw [run]
  split
  · next _ hsome => rw [hsome] at h; cases h
  · rfl

/-- **A run is turn after turn**, as many as it takes until there is nothing left to look at. -/
theorem run_eq_iterate (n : Nat)
    (hend : ((fun m => (m.next? store tree).getD m)^[n] marking).next? store tree = none) :
    marking.run store tree = (fun m => (m.next? store tree).getD m)^[n] marking := by
  induction n generalizing marking with
  | zero => exact run_of_next?_none hend
  | succ n ih =>
    rw [Function.iterate_succ_apply] at hend ⊢
    rw [← ih hend]
    cases hnext : marking.next? store tree with
    | some after => exact run_of_next? hnext
    | none => rfl

/-- Only the scopes of a store count for a marking. -/
theorem run_congr {a b : Store} (h : ∀ s, a.scope? s = b.scope? s) :
    marking.run a tree = marking.run b tree := by
  have hnext (marking : Marking) : marking.next? a tree = marking.next? b tree := by
    simp only [next?, markScope, Store.proceduresOf, h]
  fun_induction run marking a tree with
  | case1 marking after hafter ih => rw [ih, run_of_next? ((hnext _).symm.trans hafter)]
  | case2 marking hend => rw [run_of_next?_none ((hnext _).symm.trans hend)]

/-- A marking only takes scopes out. -/
theorem sublist_run (marking : Marking) (store : Store) (tree : List ScopeId) :
    (marking.run store tree).scopes.Sublist marking.scopes := by
  fun_induction run marking store tree with
  | case1 marking after h ih =>
    refine ih.trans ?_
    unfold next? at h
    split at h
    · obtain rfl := Option.some.inj h
      unfold markProcedure
      split <;> exact List.Sublist.refl _
    · obtain rfl := Option.some.inj h
      unfold markScope
      split
      · exact List.filter_sublist
      · exact List.Sublist.refl _
    · cases h
  | case2 marking h => exact List.Sublist.refl _

end Marking

/-! ### What is left unmarked -/

namespace Store

/-- The scopes of the other trees. -/
def others (store : Store) (root : ScopeId) : List ScopeId :=
  store.ids.filter (store.rootOf · != root)

/-- The others are the scopes that exist in other trees. -/
theorem mem_others {root : ScopeId} :
    s ∈ store.others root ↔ store.Has s ∧ store.rootOf s ≠ root := by
  rw [others, List.mem_filter, mem_ids, bne_iff_ne]

/-- At the start nothing inside is marked. -/
theorem unmarked_unmarkedTree : (store.unmarkedTree held tree).Unmarked x ↔ store.Inside tree x := by
  cases x with
  | scope s => rfl
  | procedure p => exact List.mem_eraseDups

/-- What is looked at first is what the host holds inside, and what anything outside refers to. -/
theorem pending_unmarkedTree (htree : tree.Nodup) (hsub : ∀ s ∈ tree, store.Has s) :
    (store.unmarkedTree held tree).Pending x ↔ store.Inside tree x ∧
      (x ∈ held ∨ ∃ y, store.Contains held y ∧ ¬ store.Inside tree y ∧ store.Refers y x) := by
  rw [← isHeldOutside_iff htree hsub]
  cases x with
  | scope s => exact List.mem_filter
  | procedure p => exact List.mem_filter.trans (and_congr_left' List.mem_eraseDups)

/-- What is reached refers to what is reached; a procedure stands for the scope in which it was
defined. -/
theorem Reaches.of_refers {starts : List ScopeId} (hx : store.Reaches starts x.scopeOf)
    (h : store.Refers x y) : store.Reaches starts y.scopeOf := by
  cases h with
  | parent hs ht => exact hx.step hs (Scope.mem_references.2 (.inl ht))
  | binding hs hp => exact hx.step hs (Scope.mem_references.2 (.inr ⟨_, hp, rfl⟩))
  | captured p => exact hx

/-- Only scopes that exist refer to something. -/
theorem Refers.has (h : store.Refers (.scope s) x) : store.Has s := by
  cases h with
  | parent hs _ => exact ⟨_, hs⟩
  | binding hs _ => exact ⟨_, hs⟩

/-- The marking of a tree meets only what the host, or a scope outside the tree, leads to. -/
theorem reaches_of_meets {starts : List ScopeId} (htree : tree.Nodup)
    (hsub : ∀ s ∈ tree, store.Has s) (hheld : ∀ x ∈ held, store.Reaches starts x.scopeOf)
    (houtside : ∀ s, store.Has s → s ∉ tree → s ∈ starts)
    (hx : (store.unmarkedTree held tree).Meets store tree x) : store.Reaches starts x.scopeOf := by
  have hscope {s : ScopeId} (hs : store.Has s) (hout : s ∉ tree) :
      store.Reaches starts (Referent.scope s).scopeOf :=
    .start (houtside s hs hout)
  induction hx with
  | step _ _ h ih => exact ih.of_refers h.1
  | pending hx =>
    rcases ((pending_unmarkedTree htree hsub).1 hx).2 with hx | ⟨s | p, hy, hout, h⟩
    · exact hheld _ hx
    · exact (hscope hy hout).of_refers h
    · rcases hy with hp | ⟨s, hs⟩
      · exact (hheld _ hp).of_refers h
      · -- the scope that binds the procedure is no more in the tree than the procedure
        have houts : s ∉ tree := fun hin => hout (mem_proceduresOf.2 ⟨s, hin, hs⟩)
        exact ((hscope hs.has houts).of_refers hs).of_refers h

/-- What something refers to is met, if what refers to it is met or outside the tree. -/
theorem meets_of_refers (htree : tree.Nodup) (hsub : ∀ s ∈ tree, store.Has s)
    (hx : store.Contains held x)
    (hmeets : store.Inside tree x → (store.unmarkedTree held tree).Meets store tree x)
    (h : store.Refers x y) (hy : store.Inside tree y) :
    (store.unmarkedTree held tree).Meets store tree y := by
  by_cases hxin : store.Inside tree x
  · refine (hmeets hxin).step (unmarked_unmarkedTree.2 hxin) ⟨h, ?_⟩
    rintro s rfl
    exact hy
  · exact .pending ((pending_unmarkedTree htree hsub).2 ⟨hy, .inr ⟨x, hx, hxin, h⟩⟩)

/-- The marking of a tree meets each scope of the tree that the host, or a scope outside the tree,
leads to. -/
theorem meets_of_reaches {starts : List ScopeId} (htree : tree.Nodup)
    (hsub : ∀ s ∈ tree, store.Has s)
    (hstarts : ∀ s ∈ starts, s ∈ tree → ∃ x ∈ held, x.scopeOf = s)
    (hs : store.Reaches starts s) (hmem : s ∈ tree) :
    (store.unmarkedTree held tree).Meets store tree (.scope s) := by
  have hmet {x : Referent} (hx : x ∈ held) (hin : store.Inside tree x) :
      (store.unmarkedTree held tree).Meets store tree x :=
    .pending ((pending_unmarkedTree htree hsub).2 ⟨hin, .inl hx⟩)
  induction hs with
  | start hs =>
    obtain ⟨s | p, hx, rfl⟩ := hstarts _ hs hmem
    · exact hmet hx hmem
    · have hcontains : store.Contains held (.procedure p) := .inl hx
      exact meets_of_refers htree hsub hcontains (hmet hx) (.captured p) hmem
  | @step u t scope _ hu ht ih =>
    have hcontains : store.Contains held (.scope u) := ⟨scope, hu⟩
    rcases Scope.mem_references.1 ht with ht | ⟨p, hp, rfl⟩
    · exact meets_of_refers htree hsub hcontains ih (.parent hu ht) hmem
    · have hbinding : store.Refers (.scope u) (.procedure p) := .binding hu hp
      have hcontains' : store.Contains held (.procedure p) := .inr ⟨u, hbinding⟩
      exact meets_of_refers htree hsub hcontains'
        (meets_of_refers htree hsub hcontains ih hbinding) (.captured p) hmem

/-- **What is left unmarked**: the scopes of the tree that neither the host nor a scope of another
tree leads to. -/
theorem Registered.mem_garbage (h : store.Registered) (hsound : store.Sound) :
    t ∈ store.garbage held s ↔ store.Has t ∧
      ¬ store.Reaches (held.map Referent.scopeOf ++ store.others (store.rootOf s)) t := by
  have hmem {t : ScopeId} : t ∈ store.treeOf s ↔ store.Has t ∧ store.rootOf t = store.rootOf s :=
    h.mem_treeOf hsound
  have hsub : ∀ t ∈ store.treeOf s, store.Has t := fun t ht => (hmem.1 ht).1
  have hgarbage : t ∈ store.garbage held s ↔
      t ∈ store.treeOf s ∧ ¬ (store.unmarkedTree held (store.treeOf s)).Meets store
        (store.treeOf s) (.scope t) :=
    Marking.unmarked_run (store.unmarkedTree held (store.treeOf s)) store _ (.scope t)
  rw [hgarbage]
  constructor
  · rintro ⟨ht, hmeets⟩
    refine ⟨hsub t ht, fun hreaches => hmeets ?_⟩
    refine meets_of_reaches (h.nodup_treeOf s) hsub (fun u hu hin => ?_) hreaches ht
    rcases List.mem_append.1 hu with hu | hu
    · exact List.mem_map.1 hu
    · exact absurd (hmem.1 hin).2 (mem_others.1 hu).2
  · rintro ⟨ht, hreaches⟩
    have hother {u : ScopeId} (hu : store.Has u) (hout : u ∉ store.treeOf s) :
        u ∈ held.map Referent.scopeOf ++ store.others (store.rootOf s) :=
      List.mem_append_right _ (mem_others.2 ⟨hu, fun hroot => hout (hmem.2 ⟨hu, hroot⟩)⟩)
    refine ⟨?_, fun hmeets => hreaches ?_⟩
    · by_contra hout
      exact hreaches (.start (hother ht hout))
    · refine reaches_of_meets (h.nodup_treeOf s) hsub (fun x hx => ?_) (fun u => hother) hmeets
      exact .start (List.mem_append_left _ (List.mem_map_of_mem hx))

end Store
end StrictScheme
