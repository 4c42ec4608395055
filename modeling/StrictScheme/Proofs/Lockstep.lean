/-
# Computations in lockstep

Two computations run in lockstep from two states when both succeed or both fail with
the same error, and the states are related afterwards as they were before.  What they
return is related too, in a way that may depend on the state of the first one.

A `Coupling` says which states are related, and how the first state may change on the
way.  The rules follow the operators a computation is made of: `Lockstep.pure`,
`Lockstep.throw`, `Lockstep.bind` and the rules for reading and changing the state.
Run next to itself, a computation keeps what the coupling says of its own state.

Of computations that have no state, only the outcomes are compared (`Outcome`).
-/

import Mathlib.Data.List.Forall2
import StrictScheme.Error

namespace StrictScheme

/-- Pairs of states that are related, and the changes of the first one that are allowed. -/
structure Coupling (σ τ : Type) where
  Related : σ → τ → Prop
  Allowed : σ → σ → Prop
  refl : ∀ s, Allowed s s
  trans : ∀ {s s' s''}, Allowed s s' → Allowed s' s'' → Allowed s s''

/-- Both computations succeed with related results, or both fail with the same error; either
way the states are related afterwards. -/
def Lockstep {ε σ τ α β : Type} (coupling : Coupling σ τ) (Result : σ → α → β → Prop)
    (x : EStateM ε σ α) (y : EStateM ε τ β) (s : σ) (t : τ) : Prop :=
  match x s, y t with
  | .ok a s', .ok b t' => coupling.Related s' t' ∧ coupling.Allowed s s' ∧ Result s' a b
  | .error e s', .error e' t' => coupling.Related s' t' ∧ coupling.Allowed s s' ∧ e = e'
  | _, _ => False

namespace Lockstep

variable {ε σ τ α β α' β' : Type} {coupling : Coupling σ τ} {J : σ → α → β → Prop}
  {K : σ → α' → β' → Prop} {s : σ} {t : τ} {x : EStateM ε σ α} {y : EStateM ε τ β}

/-- Values that are related may be returned. -/
theorem pure {a : α} {b : β} (h : coupling.Related s t) (hab : J s a b) :
    Lockstep (ε := ε) coupling J (Pure.pure a) (Pure.pure b) s t :=
  ⟨h, coupling.refl s, hab⟩

/-- The same error may be thrown. -/
theorem throw {e : ε} (h : coupling.Related s t) :
    Lockstep coupling J (MonadExcept.throw e : EStateM ε σ α)
      (MonadExcept.throw e : EStateM ε τ β) s t :=
  ⟨h, coupling.refl s, rfl⟩

/-- States and results may be related less closely. -/
theorem weaken {coarse : Coupling σ τ} {J' : σ → α → β → Prop}
    (h : Lockstep coupling J x y s t)
    (hrelated : ∀ {s t}, coupling.Related s t → coarse.Related s t)
    (hallowed : ∀ {s s'}, coupling.Allowed s s' → coarse.Allowed s s')
    (hJ : ∀ s a b, J s a b → J' s a b) : Lockstep coarse J' x y s t := by
  unfold Lockstep at h ⊢
  cases hx : x s <;> cases hy : y t <;> simp only [hx, hy] at h ⊢
  · exact ⟨hrelated h.1, hallowed h.2.1, hJ _ _ _ h.2.2⟩
  · exact ⟨hrelated h.1, hallowed h.2.1, h.2.2⟩

/-- Results may be related less closely. -/
theorem mono {J' : σ → α → β → Prop} (h : Lockstep coupling J x y s t)
    (hJ : ∀ s a b, J s a b → J' s a b) : Lockstep coupling J' x y s t :=
  h.weaken id id hJ

/-- What follows a failure does not matter. -/
theorem throw_bind {e : ε} {f : α' → EStateM ε σ α} {g : β' → EStateM ε τ β}
    (h : coupling.Related s t) :
    Lockstep coupling J (MonadExcept.throw e >>= f) (MonadExcept.throw e >>= g) s t :=
  ⟨h, coupling.refl s, rfl⟩

/-- **One computation after the other**, the second of them with states related less closely. -/
theorem bind_weaken {coarse : Coupling σ τ} {f : α → EStateM ε σ α'} {g : β → EStateM ε τ β'}
    (h : Lockstep coupling J x y s t)
    (hrelated : ∀ {s t}, coupling.Related s t → coarse.Related s t)
    (hallowed : ∀ {s s'}, coupling.Allowed s s' → coarse.Allowed s s')
    (hf : ∀ a b s' t', coupling.Related s' t' → coupling.Allowed s s' → J s' a b →
      Lockstep coarse K (f a) (g b) s' t') :
    Lockstep coarse K (x >>= f) (y >>= g) s t := by
  unfold Lockstep at h ⊢
  simp only [Bind.bind, EStateM.bind]
  cases hx : x s with
  | error e s' =>
    cases hy : y t with
    | error e' t' =>
      simp only [hx, hy] at h ⊢
      exact ⟨hrelated h.1, hallowed h.2.1, h.2.2⟩
    | ok b t' => simp only [hx, hy] at h
  | ok a s' =>
    cases hy : y t with
    | error e' t' => simp only [hx, hy] at h
    | ok b t' =>
      simp only [hx, hy] at h ⊢
      obtain ⟨hrel, hle, hab⟩ := h
      have hnext := hf a b s' t' hrel hle hab
      unfold Lockstep at hnext
      cases hfa : f a s' <;> cases hgb : g b t' <;> simp only [hfa, hgb] at hnext ⊢
      · exact ⟨hnext.1, coarse.trans (hallowed hle) hnext.2.1, hnext.2.2⟩
      · exact ⟨hnext.1, coarse.trans (hallowed hle) hnext.2.1, hnext.2.2⟩

/-- **One computation after the other.** -/
theorem bind {f : α → EStateM ε σ α'} {g : β → EStateM ε τ β'}
    (h : Lockstep coupling J x y s t)
    (hf : ∀ a b s' t', coupling.Related s' t' → coupling.Allowed s s' → J s' a b →
      Lockstep coupling K (f a) (g b) s' t') :
    Lockstep coupling K (x >>= f) (y >>= g) s t :=
  h.bind_weaken id id hf

/-- Reading the state. -/
theorem get_bind {f : σ → EStateM ε σ α} {g : τ → EStateM ε τ β}
    (h : Lockstep coupling J (f s) (g t) s t) :
    Lockstep coupling J (get >>= f) (get >>= g) s t := h

/-- Changing the state and returning something. -/
theorem modifyGet {f : σ → α × σ} {g : τ → β × τ} (h : coupling.Related (f s).2 (g t).2)
    (hle : coupling.Allowed s (f s).2) (hab : J (f s).2 (f s).1 (g t).1) :
    Lockstep (ε := ε) coupling J (MonadStateOf.modifyGet f) (MonadStateOf.modifyGet g) s t :=
  ⟨h, hle, hab⟩

/-- Changing the state and going on with what is returned; nothing is asked of the states in
between. -/
theorem modifyGet_bind {f : σ → α × σ} {g : τ → β × τ} {k : α → EStateM ε σ α'}
    {l : β → EStateM ε τ β'} (hle : coupling.Allowed s (f s).2)
    (h : Lockstep coupling K (k (f s).1) (l (g t).1) (f s).2 (g t).2) :
    Lockstep coupling K (MonadStateOf.modifyGet f >>= k) (MonadStateOf.modifyGet g >>= l) s t := by
  change Lockstep coupling K (fun s => k (f s).1 (f s).2) (fun t => l (g t).1 (g t).2) s t
  unfold Lockstep at h ⊢
  cases hx : k (f s).1 (f s).2 <;> cases hy : l (g t).1 (g t).2 <;> simp only [hx, hy] at h ⊢
  · exact ⟨h.1, coupling.trans hle h.2.1, h.2.2⟩
  · exact ⟨h.1, coupling.trans hle h.2.1, h.2.2⟩

/-- Changing the state. -/
theorem modify {f : σ → σ} {g : τ → τ} {Done : σ → PUnit → PUnit → Prop}
    (h : coupling.Related (f s) (g t)) (hle : coupling.Allowed s (f s))
    (hdone : Done (f s) ⟨⟩ ⟨⟩) :
    Lockstep (ε := ε) coupling Done (modify f) (modify g) s t :=
  ⟨h, hle, hdone⟩

end Lockstep

/-! ### Without a state -/

/-- Both computations succeed with related results, or both fail with the same error. -/
def Outcome {α β : Type} (J : α → β → Prop) : Except Error α → Except Error β → Prop
  | .ok u, .ok v => J u v
  | .error e, .error e' => e = e'
  | _, _ => False

namespace Outcome

variable {α β α' β' : Type} {J : α → β → Prop} {K : α' → β' → Prop} {x : Except Error α}
  {y : Except Error β}

/-- Results may be related less closely. -/
theorem mono {J' : α → β → Prop} (h : Outcome J x y) (hJ : ∀ u v, J u v → J' u v) :
    Outcome J' x y := by
  cases x <;> cases y
  · exact h
  · exact h
  · exact h
  · exact hJ _ _ h

/-- One computation after the other. -/
theorem bind {f : α → Except Error α'} {g : β → Except Error β'} (h : Outcome J x y)
    (hf : ∀ u v, J u v → Outcome K (f u) (g v)) : Outcome K (x >>= f) (y >>= g) := by
  cases x with
  | error e =>
    cases y with
    | error e' => exact h
    | ok v => exact h.elim
  | ok u =>
    cases y with
    | error e' => exact h.elim
    | ok v => exact hf u v h

/-- The same computation on elements that are related. -/
theorem mapM {f : α → Except Error α'} {g : β → Except Error β'} {us : List α} {vs : List β}
    (h : List.Forall₂ J us vs) (hf : ∀ u v, J u v → Outcome K (f u) (g v)) :
    Outcome (List.Forall₂ K) (us.mapM f) (vs.mapM g) := by
  induction h with
  | nil => exact List.Forall₂.nil
  | cons huv _ ih =>
    rw [List.mapM_cons, List.mapM_cons]
    exact (hf _ _ huv).bind fun u v hfirst => ih.bind fun us vs hrest => hrest.cons hfirst

/-- The same fold over elements that are related, started from results that are. -/
theorem foldlM {f : α' → α → Except Error α'} {g : β' → β → Except Error β'} {us : List α}
    {vs : List β} {a : α'} {b : β'} (h : List.Forall₂ J us vs)
    (hf : ∀ a b u v, K a b → J u v → Outcome K (f a u) (g b v)) (hab : K a b) :
    Outcome K (us.foldlM f a) (vs.foldlM g b) := by
  induction h generalizing a b with
  | nil => exact hab
  | cons huv _ ih =>
    rw [List.foldlM_cons, List.foldlM_cons]
    exact (hf a b _ _ hab huv).bind fun a b hab => ih hab

end Outcome
end StrictScheme
