/-
# Answers that do not depend on the order

`=` compares neighbours only.  But values are equal when what equality looks at is the same
(`Value.identity`), so equality is an equivalence, and if all neighbours are equal then every
two arguments are (`neighboursEqual_iff`).

`and` and `or` look at all arguments before they decide.  One of the two truth values decides
the outcome, wherever it stands (`Decides`).  An argument that is no truth value is an error,
wherever it stands, and the leftmost one is reported.

So what these three return depends on which values are among the arguments, and neither on the
order nor on how often each of them is given (`run_unordered`).
-/

import Mathlib.Data.List.Pairwise
import StrictScheme.Builtin

namespace StrictScheme

/-- What equality looks at: a number or truth value itself, the name of a builtin, the serial
number of a user procedure. -/
inductive Value.Identity where
  | number (n : Number)
  | boolean (b : Bool)
  | builtin (name : String)
  | procedure (id : ProcedureId)

namespace Value

/-- What equality looks at in a value. -/
def identity : Value → Identity
  | .number n => .number n
  | .boolean b => .boolean b
  | .builtin b => .builtin b.name
  | .procedure p => .procedure p.id

/-- Values are equal just when they have the same identity. -/
theorem equal_iff_identity {v w : Value} : v.equal w = true ↔ v.identity = w.identity := by
  cases v <;> cases w <;> simp [equal, identity]

/-- **Equality is an equivalence.** -/
theorem equivalence_equal : Equivalence fun v w : Value => v.equal w = true where
  refl _ := equal_iff_identity.2 rfl
  symm h := equal_iff_identity.2 (equal_iff_identity.1 h).symm
  trans h h' := equal_iff_identity.2 ((equal_iff_identity.1 h).trans (equal_iff_identity.1 h'))

end Value

namespace Primitive

variable {op : Primitive} {b : Bool} {bs : List Bool} {v w : Value} {args same : List Value}
  {e : Error}

/-! ### Equal neighbours -/

/-- Neighbours are equal just when their identities are, all along. -/
theorem neighboursEqual_iff_isChain (args : List Value) :
    neighboursEqual args = true ↔ (args.map Value.identity).IsChain (· = ·) := by
  induction args with
  | nil => simp [neighboursEqual]
  | cons v rest ih =>
    cases rest with
    | nil => simp [neighboursEqual]
    | cons w rest =>
      rw [neighboursEqual, Bool.and_eq_true, ih, Value.equal_iff_identity, List.map_cons,
        List.map_cons, List.map_cons, List.isChain_cons_cons]

/-- **When all neighbours are equal, every two are.** -/
theorem neighboursEqual_iff (args : List Value) :
    neighboursEqual args = true ↔ ∀ v ∈ args, ∀ w ∈ args, v.equal w = true := by
  rw [neighboursEqual_iff_isChain, List.isChain_iff_pairwise]
  constructor
  · intro h v hv w hw
    have hall := h.forall_of_forall fun _ _ => rfl
    exact Value.equal_iff_identity.2 (hall (List.mem_map_of_mem hv) (List.mem_map_of_mem hw))
  · intro h
    refine List.pairwise_map.2 (List.pairwise_of_forall_mem_list fun v hv w hw => ?_)
    exact Value.equal_iff_identity.1 (h v hv w hw)

/-! ### Truth values -/

/-- Truth values are taken as they are. -/
theorem conditions_booleans (op : Primitive) (bs : List Bool) :
    op.conditions (bs.map .boolean) = .ok bs := by
  unfold conditions
  induction bs with
  | nil => rfl
  | cons b bs ih =>
    rw [List.map_cons, List.mapM_cons, ih]
    rfl

/-- Anything else is refused. -/
theorem condition_of_not_boolean (hv : ∀ c, v ≠ .boolean c) (op : Primitive) :
    op.condition v = .error (.typeMismatch
      (op.name ++ " requires boolean arguments (no truthiness), found " ++ v.describe)) := by
  cases v with
  | boolean c => exact absurd rfl (hv c)
  | number | builtin | procedure => simp [condition, Value.asBoolean, String.append_assoc]

/-- The leftmost argument that is no truth value is reported. -/
theorem conditions_of_not_boolean (hv : ∀ c, v ≠ .boolean c) (op : Primitive) (bs : List Bool)
    (back : List Value) :
    op.conditions (bs.map .boolean ++ v :: back) =
      .error (.typeMismatch
        (op.name ++ " requires boolean arguments (no truthiness), found " ++ v.describe)) := by
  unfold conditions
  induction bs with
  | nil =>
    rw [List.map_nil, List.nil_append, List.mapM_cons, condition_of_not_boolean hv]
    rfl
  | cons b bs ih =>
    rw [List.map_cons, List.cons_append, List.mapM_cons, ih]
    rfl

/-- Arguments are truth values, or one of them is the leftmost that is none. -/
theorem booleans_or_not (args : List Value) :
    (∃ bs : List Bool, args = bs.map Value.boolean) ∨
      ∃ (bs : List Bool) (v : Value) (back : List Value),
        args = bs.map Value.boolean ++ v :: back ∧ ∀ c, v ≠ .boolean c := by
  induction args with
  | nil => exact .inl ⟨[], rfl⟩
  | cons u args ih =>
    by_cases hu : ∃ c, u = .boolean c
    · obtain ⟨c, rfl⟩ := hu
      rcases ih with ⟨bs, rfl⟩ | ⟨bs, v, back, rfl, hv⟩
      · exact .inl ⟨c :: bs, rfl⟩
      · exact .inr ⟨c :: bs, v, back, rfl, hv⟩
    · exact .inr ⟨[], u, args, rfl, fun c heq => hu ⟨c, heq⟩⟩

/-- A conjunction is decided by one argument that is false, and a disjunction by one that is
true. -/
inductive Decides : Primitive → Bool → Prop where
  | conjunction : Decides .and false
  | disjunction : Decides .or true

namespace Decides

/-- On truth values, the one that decides is the answer if it is there. -/
theorem run_booleans (hop : Decides op b) (bs : List Bool) :
    op.run (bs.map .boolean) = .ok (.boolean (if b ∈ bs then b else !b)) := by
  have hlast : (if b ∈ bs then b else !b) = (if b then bs.any id else bs.all id) := by
    cases hop with
    | conjunction => by_cases h : false ∈ bs <;> simp_all
    | disjunction => by_cases h : true ∈ bs <;> simp_all
  rw [hlast]
  cases hop <;> simp only [run, conditions_booleans] <;> rfl

/-- The first operand that is no truth value is the error, whatever stands before it. -/
theorem run_of_not_boolean (hop : Decides op b) (hv : ∀ c, v ≠ .boolean c) (bs : List Bool)
    (back : List Value) :
    op.run (bs.map .boolean ++ v :: back) =
      .error (.typeMismatch
        (op.name ++ " requires boolean arguments (no truthiness), found " ++ v.describe)) := by
  cases hop <;> simp only [run, conditions_of_not_boolean hv] <;> rfl

/-- So the primitives succeed on truth values only. -/
theorem run_eq_ok (hop : Decides op b) :
    op.run args = .ok w ↔
      (∀ v ∈ args, ∃ c, v = .boolean c) ∧ w = .boolean (if .boolean b ∈ args then b else !b) := by
  rcases booleans_or_not args with ⟨bs, rfl⟩ | ⟨bs, v, back, rfl, hv⟩
  · have hall : ∀ v ∈ bs.map Value.boolean, ∃ c, v = .boolean c := by
      intro v hv
      obtain ⟨c, -, rfl⟩ := List.mem_map.1 hv
      exact ⟨c, rfl⟩
    have hmem : Value.boolean b ∈ bs.map Value.boolean ↔ b ∈ bs := by simp
    rw [hop.run_booleans, Except.ok.injEq, and_iff_right hall, eq_comm]
    simp only [hmem]
  · rw [hop.run_of_not_boolean hv]
    refine ⟨nofun, fun ⟨hall, _⟩ => ?_⟩
    obtain ⟨c, hc⟩ := hall v (by simp)
    exact absurd hc (hv c)

/-- They fail at the first operand that is no truth value. -/
theorem run_eq_error (hop : Decides op b) :
    op.run args = .error e ↔ ∃ (bs : List Bool) (v : Value) (back : List Value),
      args = bs.map Value.boolean ++ v :: back ∧ (∀ c, v ≠ .boolean c) ∧ e = .typeMismatch
        (op.name ++ " requires boolean arguments (no truthiness), found " ++ v.describe) := by
  constructor
  · intro h
    rcases booleans_or_not args with ⟨bs, rfl⟩ | ⟨bs, v, back, rfl, hv⟩
    · rw [hop.run_booleans] at h
      cases h
    · rw [hop.run_of_not_boolean hv] at h
      exact ⟨bs, v, back, rfl, hv, (Except.error.inj h).symm⟩
  · rintro ⟨bs, v, back, rfl, hv, rfl⟩
    exact hop.run_of_not_boolean hv bs back

end Decides

/-! ### All three -/

/-- The procedures that look at all their arguments alike. -/
inductive Compares : Primitive → Prop where
  | equality : Compares .equal
  | decision {op : Primitive} {b : Bool} (hop : Decides op b) : Compares op

namespace Compares

/-- Two arguments are enough, and there is no upper bound. -/
theorem call_eq (hop : Compares op) (hcount : 2 ≤ args.length) :
    op.builtin.call args = op.run args := by
  have harity : op.arity = .atLeast 2 := by
    cases hop with
    | equality => rfl
    | decision hop => cases hop <;> rfl
  have hvalid : op.arity.validate op.name args.length = .ok () := by
    rw [harity, Arity.validate, Arity.accepts, decide_eq_true hcount]
    rfl
  unfold Builtin.call
  rw [Primitive.builtin, hvalid]
  rfl

/-- **The same values give the same answer.** -/
theorem run_eq_ok_congr (hop : Compares op) (hsame : ∀ v, v ∈ args ↔ v ∈ same) :
    op.run args = .ok w ↔ op.run same = .ok w := by
  cases hop with
  | equality =>
    have hequal : neighboursEqual args = neighboursEqual same := by
      rw [Bool.eq_iff_iff, neighboursEqual_iff, neighboursEqual_iff]
      simp only [hsame]
    rw [run, run, hequal]
  | decision hop =>
    rw [hop.run_eq_ok, hop.run_eq_ok]
    simp only [hsame]

end Compares

/-- **Equality, conjunction and disjunction do not depend on the order.**  Values are equal when
equality looks at the same in both, which is an equivalence.  `=` is true exactly if every two
arguments are equal.  `and` and `or` return what one deciding argument decides, or else the
opposite, if all arguments are truth values; otherwise they fail, and the error is about the
leftmost argument that is none.  What the three return is the same for all arguments among
which are the same values. -/
theorem run_unordered (args : List Value) (hcount : 2 ≤ args.length) :
    (Equivalence fun v w : Value => v.equal w = true) ∧
    (∀ v w : Value, v.equal w = true ↔ v.identity = w.identity) ∧
    (∃ b, Primitive.equal.builtin.call args = .ok (.boolean b) ∧
      (b = true ↔ ∀ v ∈ args, ∀ w ∈ args, v.equal w = true)) ∧
    (∀ op b, Decides op b →
      (∀ w, op.builtin.call args = .ok w ↔ (∀ v ∈ args, ∃ c, v = .boolean c) ∧
        w = .boolean (if .boolean b ∈ args then b else !b)) ∧
      ((∃ e, op.builtin.call args = .error e) ↔ ∃ v ∈ args, ∀ c, v ≠ .boolean c) ∧
      ∀ e, op.builtin.call args = .error e ↔ ∃ (bs : List Bool) (v : Value) (back : List Value),
        args = bs.map Value.boolean ++ v :: back ∧ (∀ c, v ≠ .boolean c) ∧ e = .typeMismatch
          (op.name ++ " requires boolean arguments (no truthiness), found " ++ v.describe)) ∧
    ∀ op, Compares op → ∀ same : List Value, 2 ≤ same.length → (∀ v, v ∈ args ↔ v ∈ same) →
      ∀ w, op.builtin.call args = .ok w ↔ op.builtin.call same = .ok w := by
  refine ⟨Value.equivalence_equal, fun v w => Value.equal_iff_identity, ?equality, ?decision,
    ?order⟩
  case equality =>
    rw [Compares.equality.call_eq hcount]
    exact ⟨neighboursEqual args, rfl, neighboursEqual_iff args⟩
  case decision =>
    intro op b hop
    rw [(Compares.decision hop).call_eq hcount]
    refine ⟨fun w => hop.run_eq_ok, ?_, fun e => hop.run_eq_error⟩
    constructor
    · rintro ⟨e, he⟩
      obtain ⟨bs, v, back, rfl, hv, -⟩ := hop.run_eq_error.1 he
      exact ⟨v, by simp, hv⟩
    · rintro ⟨v, hv, hnot⟩
      cases hrun : op.run args with
      | error e => exact ⟨e, rfl⟩
      | ok w =>
        obtain ⟨c, hc⟩ := (hop.run_eq_ok.1 hrun).1 v hv
        exact absurd hc (hnot c)
  case order =>
    intro op hop same hcount' hsame w
    rw [hop.call_eq hcount, hop.call_eq hcount']
    exact hop.run_eq_ok_congr hsame

/-- An argument that is no truth value is reported, also where `#f` has decided already; truth
values can be given in another order and more than once. -/
theorem decided_run_unordered :
    Primitive.and.builtin.call [.boolean false, .number 1, .number 2] =
      .error (.typeMismatch
        "and requires boolean arguments (no truthiness), found number 1") ∧
    Primitive.and.builtin.call [.boolean true, .boolean false, .boolean true] =
      .ok (.boolean false) := by
  constructor
  · obtain ⟨-, -, -, hdecide, -⟩ :=
      run_unordered [.boolean false, .number 1, .number 2] (by decide)
    refine ((hdecide .and false .conjunction).2.2 _).2 ?_
    exact ⟨[false], .number 1, [.number 2], rfl, nofun, rfl⟩
  · obtain ⟨-, -, -, -, horder⟩ := run_unordered [.boolean false, .boolean true] (by decide)
    have hsame : ∀ v : Value, v ∈ [.boolean false, .boolean true] ↔
        v ∈ [.boolean true, .boolean false, .boolean true] := by grind
    exact (horder .and (.decision .conjunction) _ (by decide) hsame _).1 rfl

end Primitive
end StrictScheme
