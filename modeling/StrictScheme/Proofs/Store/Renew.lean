/-
# Numbers given out in the meantime

Stores that correspond give out their next numbers in parallel.  When one of them has
gone on alone, outside the region, its next numbers are others.  The correspondence
starts anew from there: the numbers of the region that were given out stand for what
they stood for, and the next numbers of the one store for those of the other
(`Store.Corresponds.renew`).

In the same way a store corresponds to what comes of it, if the numbers given out in the
meantime are skipped (`Store.Sound.corresponds_later`).
-/

import StrictScheme.Proofs.Store.Divide

namespace StrictScheme

/-! ### Starting to number again -/

/-- The numbers below a bound are given as before, and those from `first` on are given anew, in
order from `next` on. -/
def restart (f : Nat → Nat) (first next : Nat) (n : Nat) : Nat :=
  if first ≤ n then next + (n - first) else f n

/-- Numbers below `first` are given as before. -/
theorem restart_of_lt {f : Nat → Nat} {first next n : Nat} (h : n < first) :
    restart f first next n = f n :=
  if_neg (Nat.not_le_of_lt h)

/-- Those from there on follow the next number. -/
theorem restart_add (f : Nat → Nat) (first next k : Nat) :
    restart f first next (first + k) = next + k := by
  rw [restart, if_pos (Nat.le_add_right first k), Nat.add_sub_cancel_left]

/-- The numbers of a set that are below a bound, and those from `first` on. -/
def belowOrFrom (numbers : Set Nat) (bound first : Nat) : Set Nat :=
  {n | n ∈ numbers ∧ n < bound ∨ first ≤ n}

/-- Numbers that were kept apart still are. -/
theorem injOn_restart {f : Nat → Nat} {numbers : Set Nat} {bound first next : Nat}
    (hinj : Set.InjOn f numbers) (hlt : ∀ n ∈ numbers, n < bound → f n < next)
    (hle : bound ≤ first) : Set.InjOn (restart f first next) (belowOrFrom numbers bound first) := by
  rintro m (⟨hm, hmlt⟩ | hm) n (⟨hn, hnlt⟩ | hn) hmn
  · rw [restart_of_lt (hmlt.trans_le hle), restart_of_lt (hnlt.trans_le hle)] at hmn
    exact hinj hm hn hmn
  · have hfm := hlt m hm hmlt
    rw [restart_of_lt (hmlt.trans_le hle), restart, if_pos hn] at hmn
    omega
  · have hfn := hlt n hn hnlt
    rw [restart_of_lt (hnlt.trans_le hle), restart, if_pos hm] at hmn
    omega
  · rw [restart, restart, if_pos hm, if_pos hn] at hmn
    have hm : first ≤ m := hm
    have hn : first ≤ n := hn
    omega

/-- The numbers that were given, and those to be given next, are the same as before. -/
theorem image_restart {f : Nat → Nat} {numbers : Set Nat} {bound first next : Nat}
    (hfresh : ∀ k, bound + k ∈ numbers ∧ f (bound + k) = next + k) (hle : bound ≤ first) :
    restart f first next '' belowOrFrom numbers bound first = f '' numbers := by
  ext m
  constructor
  · rintro ⟨n, ⟨hn, hnlt⟩ | hn, rfl⟩
    · exact ⟨n, hn, (restart_of_lt (hnlt.trans_le hle)).symm⟩
    · obtain ⟨k, rfl⟩ := Nat.exists_eq_add_of_le hn
      exact ⟨bound + k, (hfresh k).1, by rw [(hfresh k).2, restart_add]⟩
  · rintro ⟨n, hn, rfl⟩
    rcases Nat.lt_or_ge n bound with hnlt | hnle
    · exact ⟨n, .inl ⟨hn, hnlt⟩, restart_of_lt (hnlt.trans_le hle)⟩
    · obtain ⟨k, rfl⟩ := Nat.exists_eq_add_of_le hnle
      exact ⟨first + k, .inr (Nat.le_add_right ..), by rw [restart_add, (hfresh k).2]⟩

namespace Store

variable {r : Renaming} {region : Region} {a b : Store}

/-! ### Renewing a correspondence -/

/-- The part of a region that was given out, and the numbers that another store gives out next. -/
def renewed (region : Region) (before after : Store) : Region where
  scopes := belowOrFrom region.scopes before.nextScope after.nextScope
  procedures := belowOrFrom region.procedures before.nextProcedure after.nextProcedure
  numbered := region.numbered

/-- A renaming of the numbers that were given out, and of those that another store gives out
next. -/
def renewal (r : Renaming) (after other : Store) : Renaming where
  scope := restart r.scope after.nextScope other.nextScope
  procedure := restart r.procedure after.nextProcedure other.nextProcedure

/-- **What happens outside the region in the first store makes no difference**, but that the
numbers it gives out next are others. -/
theorem Corresponds.renew {after : Store} (h : Corresponds r region a b) (ha : a.Divided region)
    (hafter : after.Divided (renewed region a after))
    (hsame : ∀ {s}, s ∈ region.scopes → s < a.nextScope → after.scope? s = a.scope? s)
    (hscope : a.nextScope ≤ after.nextScope)
    (hprocedure : a.nextProcedure ≤ after.nextProcedure) :
    Corresponds (renewal r after b) (renewed region a after) after b where
  scope? := by
    rintro s (⟨hs, hlt⟩ | hs)
    · have hrename : ∀ t < a.nextScope, (renewal r after b).scope t = r.scope t :=
        fun t ht => restart_of_lt (ht.trans_le hscope)
      rw [hsame hs hlt, hrename s hlt, h.scope? hs]
      cases hfound : a.scope? s with
      | none => rfl
      | some scope =>
        refine congrArg some (Scope.rename_congr (fun t ht => ?_) fun p hp => ?_).symm
        · obtain ⟨found, hfound⟩ := (h.closed.outer_mem hs hfound ht).2
          exact hrename t (lt_nextScope hfound)
        · have hreference := Scope.mem_references.2 (.inr ⟨p, hp, rfl⟩)
          have hid := (ha.serials hfound hp).2
          obtain ⟨found, hfound⟩ := ha.sound.has_of_mem_references hfound hreference
          have hid' : (renewal r after b).procedure p.id = r.procedure p.id :=
            restart_of_lt (hid.trans_le hprocedure)
          rw [Procedure.rename, Procedure.rename, hrename _ (lt_nextScope hfound), hid']
    · obtain ⟨k, rfl⟩ := Nat.exists_eq_add_of_le hs
      rw [scope?_of_nextScope_le hs, Option.map_none]
      have hfresh : (renewal r after b).scope (after.nextScope + k) = b.nextScope + k :=
        restart_add ..
      rw [hfresh, scope?_of_nextScope_le (Nat.le_add_right ..)]
  closed := hafter.closedOn
  serial := hafter.admits
  injScope := injOn_restart h.injScope (fun _ => h.scope_lt) hscope
  injProcedure := injOn_restart h.injProcedure (fun _ => h.procedure_lt) hprocedure
  freshScope k := ⟨.inr (Nat.le_add_right ..), restart_add ..⟩
  freshProcedure k := ⟨.inr (Nat.le_add_right ..), restart_add ..⟩

/-- The region that starts anew has the image that it had. -/
theorem Corresponds.image_renewed {after : Store} (h : Corresponds r region a b)
    (hscope : a.nextScope ≤ after.nextScope)
    (hprocedure : a.nextProcedure ≤ after.nextProcedure) :
    (renewed region a after).image (renewal r after b) = region.image r :=
  Region.ext (image_restart h.freshScope hscope) (image_restart h.freshProcedure hprocedure) rfl

/-! ### A store that has gone on -/

/-- Numbers from `first` on are given anew, in order from `next` on, and those below stay. -/
def renumber (first next : ScopeId) : Renaming where
  scope := restart (fun t => t) first next
  procedure id := id

/-- Numbers that were given out stay. -/
theorem renumber_of_lt {first t : ScopeId} (h : t < first) (next : ScopeId) :
    (renumber first next).scope t = t :=
  restart_of_lt (f := fun t => t) h

/-- The next numbers are given in order. -/
theorem renumber_add (first next k : ScopeId) :
    (renumber first next).scope (first + k) = next + k :=
  restart_add (fun t => t) ..

/-- Numbers that are given anew in higher places stay different. -/
theorem renumber_injective {first next : ScopeId} (h : first ≤ next) :
    Function.Injective (renumber first next).scope := by
  intro s t hst
  change restart (fun t => t) first next s = restart (fun t => t) first next t at hst
  unfold restart at hst
  grind

/-- Procedures of scopes that were there before are not renamed. -/
theorem rename_renumber_of_has {store : Store} {p : Procedure} (h : store.Has p.scope)
    (next : ScopeId) : p.rename (renumber store.nextScope next) = p := by
  rw [Procedure.rename, renumber_of_lt h.lt_nextScope]
  rfl

/-- In a sound store no scope has a number that was not given out. -/
theorem Sound.rename_renumber {store : Store} {s : ScopeId} {scope : Scope} (h : store.Sound)
    (hs : store.scope? s = some scope) (next : ScopeId) :
    scope.rename (renumber store.nextScope next) = scope := by
  refine (Scope.rename_congr (fun t ht => ?_) fun p hp => ?_).trans scope.rename_same
  · exact renumber_of_lt (ClosedOn.outer_mem h (Set.mem_univ s) hs ht).2.lt_nextScope next
  · have hp := h.has_of_mem_references hs (Scope.mem_references.2 (.inr ⟨p, hp, rfl⟩))
    exact rename_renumber_of_has hp next

/-- **A store corresponds to what comes of it**, as long as the scopes there were are as they were
and no procedure was made: the numbers given out in the meantime are skipped. -/
theorem Sound.corresponds_later {store later : Store} (h : store.Sound)
    (hsame : ∀ {t}, t < store.nextScope → later.scope? t = store.scope? t)
    (hscope : store.nextScope ≤ later.nextScope)
    (hprocedure : later.nextProcedure = store.nextProcedure) :
    Corresponds (renumber store.nextScope later.nextScope) ⟨Set.univ, Set.univ, False⟩ store
      later where
  scope? := by
    intro s _
    rcases Nat.lt_or_ge s store.nextScope with hlt | hle
    · rw [renumber_of_lt hlt, hsame hlt]
      cases hfound : store.scope? s with
      | none => rfl
      | some scope => rw [Option.map_some, h.rename_renumber hfound]
    · obtain ⟨k, rfl⟩ := Nat.exists_eq_add_of_le hle
      rw [renumber_add, scope?_of_nextScope_le hle, scope?_of_nextScope_le (Nat.le_add_right ..)]
      rfl
  closed := h
  serial _ _ _ := ⟨Set.mem_univ _, False.elim⟩
  injScope := (renumber_injective hscope).injOn
  injProcedure _ _ _ _ heq := heq
  freshScope k := ⟨Set.mem_univ _, renumber_add ..⟩
  freshProcedure k := ⟨Set.mem_univ _, by rw [hprocedure]; rfl⟩

/-- A scope more makes no difference but to the numbers. -/
theorem Sound.corresponds_push {store : Store} (h : store.Sound) (scope : Scope) :
    Corresponds (renumber store.nextScope (store.nextScope + 1)) ⟨Set.univ, Set.univ, False⟩ store
      (store.push scope) := by
  rw [← nextScope_push store scope]
  refine h.corresponds_later (fun ht => ?_) ?_ (nextProcedure_push store scope)
  · rw [scope?_push, if_neg (Nat.ne_of_lt ht)]
  · rw [nextScope_push]
    exact Nat.le_succ _

end Store
end StrictScheme
