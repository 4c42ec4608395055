/-
# What an evaluation can touch

An evaluation works in the scopes that can be reached from the one it is carried out
in, and in those it makes.  It changes nothing else, what is bound elsewhere makes no
difference to it, and it brings no other scope into reach.  All three are read off
`eval_lockstep`, on the region of the reached scopes and the numbers not yet given out
(`Store.Reaches.orFresh`): that region is closed, and it stays so to the end.
-/

import StrictScheme.Proofs.Session.Sound

namespace StrictScheme

open Store Session

variable {store other : Store} {s t : ScopeId}

/-- What a computation returns, and the store it leaves, whether or not it fails. -/
def Action.exec {α : Type} (action : Action α) (store : Store) : Except Error α × Store :=
  match action store with
  | .ok a after => (.ok a, after)
  | .error e after => (.error e, after)

/-- Running a computation in a session. -/
theorem Session.run_eq {α : Type} (session : Session) (action : Action α) :
    session.run action = ((action.exec session.store).1,
      { session with store := (action.exec session.store).2 }) := by
  obtain ⟨config, store, global, handles, slots, watches⟩ := session
  simp only [Session.run, Action.exec]
  cases action store <;> rfl

/-- Two stores that differ at most in scopes outside a set. -/
structure Store.SameOn (scopes : Set ScopeId) (store other : Store) : Prop where
  scope? : ∀ {t}, t ∈ scopes → other.scope? t = store.scope? t
  nextScope : other.nextScope = store.nextScope
  nextProcedure : other.nextProcedure = store.nextProcedure

/-- Stores that are the same on what is reached correspond there and on the numbers not yet
given out. -/
theorem Store.Sound.corresponds_of_sameOn (h : store.Sound) (hs : store.Has s)
    (hother : store.SameOn {t | store.Reaches [s] t} other) :
    Corresponds .same (Region.of (Reaches.orFresh store [s])) store other := by
  have hstart : ∀ t ∈ [s], t ∈ Set.univ ∧ store.Has t := by
    intro t ht
    exact ⟨Set.mem_univ t, List.mem_singleton.1 ht ▸ hs⟩
  refine (h.corresponds_self.restrict hstart).replace (fun _ _ => rfl) ?_ rfl hother.nextScope rfl
    hother.nextProcedure
  rintro t (ht | ht)
  · exact hother.scope? ht
  · change other.scope? t = store.scope? t
    rw [scope?_of_nextScope_le ht, scope?_of_nextScope_le (hother.nextScope ▸ ht)]

/-- What two computations in lockstep return and leave. -/
theorem exec_of_lockstep {r : Renaming} {region : Region} {x y : Action Value}
    (h : Lockstep (correspondence r region) (Value.Transported r region) x y store other) :
    Corresponds r region (x.exec store).2 (y.exec other).2 ∧
      store.Extends region (x.exec store).2 ∧
      (y.exec other).1 = (x.exec store).1.map (Value.rename r) ∧
      ∀ v, (x.exec store).1 = .ok v → v.IsIn region (x.exec store).2 := by
  unfold Lockstep at h
  unfold Action.exec
  cases hx : x store with
  | ok u after =>
    cases hy : y other with
    | error e after' => simp only [hx, hy] at h
    | ok v after' =>
      simp only [hx, hy] at h ⊢
      obtain ⟨hrelated, hle, rfl, hu⟩ := h
      exact ⟨hrelated, hle, rfl, fun w hw => Except.ok.inj hw ▸ hu⟩
  | error e after =>
    cases hy : y other with
    | ok v after' => simp only [hx, hy] at h
    | error e' after' =>
      simp only [hx, hy] at h ⊢
      obtain ⟨hrelated, hle, rfl⟩ := h
      exact ⟨hrelated, hle, rfl, nofun⟩

/-- Two evaluations in lockstep on a region, as far as it concerns what they return and leave. -/
theorem exec_evaluate_of_corresponds {scopes : Set ScopeId} (limit : UInt64) (tree : SExpr)
    (h : Corresponds .same (Region.of scopes) store other) (hs : s ∈ scopes) (ha : store.Has s) :
    Corresponds .same (Region.of scopes) ((evaluate limit s tree).exec store).2
        ((evaluate limit s tree).exec other).2 ∧
      store.Extends (Region.of scopes) ((evaluate limit s tree).exec store).2 ∧
      ((evaluate limit s tree).exec other).1 = ((evaluate limit s tree).exec store).1 ∧
      ∀ v, ((evaluate limit s tree).exec store).1 = .ok v →
        v.IsIn (Region.of scopes) ((evaluate limit s tree).exec store).2 := by
  have hboth := eval_lockstep limit limit.toNat hs tree store other h ha
  obtain ⟨hrelated, hle, hresult, hvalue⟩ := exec_of_lockstep hboth
  refine ⟨hrelated, hle, hresult.trans ?_, hvalue⟩
  have hsame : Value.rename .same = id := funext Value.rename_same
  rw [hsame, Except.map_id]
  rfl

/-- **An evaluation is confined to what can be reached.**  Whether or not it succeeds, the other
scopes are left as they were; a store with other bindings there gives the same result and the
same reached scopes; and what can be reached afterwards, also from the result, could be reached
before or is new. -/
theorem Store.Sound.evaluate_confined (h : store.Sound) (hs : store.Has s) (limit : UInt64)
    (tree : SExpr) :
    (∀ t, store.Has t → ¬ store.Reaches [s] t →
      ((evaluate limit s tree).exec store).2.scope? t = store.scope? t) ∧
    (∀ other, store.SameOn {t | store.Reaches [s] t} other →
      ((evaluate limit s tree).exec other).1 = ((evaluate limit s tree).exec store).1 ∧
      ∀ t, store.Reaches [s] t → ((evaluate limit s tree).exec other).2.scope? t =
        ((evaluate limit s tree).exec store).2.scope? t) ∧
    ∀ t, ((evaluate limit s tree).exec store).2.Reaches
        (s :: heldBy ((evaluate limit s tree).exec store).1) t →
      store.Reaches [s] t ∨
        store.nextScope ≤ t ∧ ((evaluate limit s tree).exec store).2.Has t := by
  have hmem : s ∈ Reaches.orFresh store [s] := .inl (.start (List.mem_singleton.2 rfl))
  have hself := h.corresponds_of_sameOn hs ⟨fun _ => rfl, rfl, rfl⟩
  obtain ⟨hafter, hle, -, hvalue⟩ := exec_evaluate_of_corresponds limit tree hself hmem hs
  refine ⟨fun t ht hreach => ?_, fun other hother => ?_, fun t hreach => ?_⟩
  · refine hle.outside fun hregion => ?_
    rcases hregion with hin | hfresh
    · exact hreach hin
    · obtain ⟨scope, hscope⟩ := ht
      exact Nat.not_le_of_lt (lt_nextScope hscope) hfresh
  · obtain ⟨hboth, -, hsame, -⟩ :=
      exec_evaluate_of_corresponds limit tree (h.corresponds_of_sameOn hs hother) hmem hs
    exact ⟨hsame, fun t ht => hboth.scope?_same (.inl ht)⟩
  · have hstarts : ∀ u ∈ s :: heldBy ((evaluate limit s tree).exec store).1,
        u ∈ Reaches.orFresh store [s] ∧ ((evaluate limit s tree).exec store).2.Has u := by
      rintro u (_ | ⟨_, hu⟩)
      · exact ⟨hmem, hle.has hs⟩
      · exact has_of_mem_heldBy hvalue hu
    obtain ⟨hin, hhas⟩ := hafter.closed.reaches_mem hstarts hreach
    exact hin.imp_right fun hfresh => ⟨hfresh, hhas⟩

/-- A session with two trees, each with a number bound to `x`. -/
def twoTrees : Session :=
  ((new {}).steps
    [.define .global "x" (.number 1), .newGlobal "b", .define (.handle "b") "x" (.number 2)]).2

/-- An assignment in one tree, which neither changes nor consults the other one. -/
theorem twoTrees_evaluate_confined :
    let assignment := SExpr.list [.atom "set!", .atom "x", .atom "3"]
    ((evaluate 10 0 assignment).exec twoTrees.store).2.scope? 1 = twoTrees.store.scope? 1 ∧
      ((evaluate 10 0 assignment).exec (twoTrees.store.bind 1 "+" (.number 4))).1 =
        ((evaluate 10 0 assignment).exec twoTrees.store).1 := by
  intro assignment
  have hhas (t : ScopeId) (h : (twoTrees.store.scope? t).isSome = true) : twoTrees.store.Has t :=
    Option.isSome_iff_exists.1 h
  have halone : (twoTrees.store.scope? 0).map Scope.references = some [] := by decide +kernel
  have hreach : ∀ t, twoTrees.store.Reaches [0] t → t = 0 := by
    intro t ht
    induction ht with
    | start h => exact List.mem_singleton.1 h
    | step _ hscope href ih =>
      rw [ih] at hscope
      rw [hscope] at halone
      rw [Option.some.inj halone] at href
      exact absurd href List.not_mem_nil
  obtain ⟨houtside, hother, -⟩ := Store.Sound.evaluate_confined
    ((Reachable.new {}).steps _).sound.store (hhas 0 (by decide +kernel)) 10 assignment
  refine ⟨houtside 1 (hhas 1 (by decide +kernel)) fun h => absurd (hreach 1 h) Nat.one_ne_zero, ?_⟩
  refine (hother _ ⟨fun ht => ?_, nextScope_bind .., nextProcedure_bind ..⟩).1
  rw [scope?_bind, if_neg]
  rw [hreach _ ht]
  exact Nat.zero_ne_one

end StrictScheme
