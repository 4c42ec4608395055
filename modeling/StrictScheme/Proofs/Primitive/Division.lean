/-
# Exact quotients

`/` divides by one argument after the other, each time toward zero.  That is one division by
the product of all divisors (`total_tdiv`), although the product is in general far out of
range: dividing toward zero twice is dividing once by the product, whatever the signs
(`tdiv_tdiv`).

A step brings no number out of range but one: `-2^63`, divided by `-1`.  The scan stands at
`-2^63` only if it starts there, and only as long as it divides by `1`: no other divisor
leaves that number (`tdiv_ne_min`).  So overflow can be told from the arguments
(`Overflows`), and one step keeps what they tell (`overflows_cons`).  The induction on the
divisors in `foldlM_quotient` rests on this.

`foldlM_quotient_steps` looks at the same scan from its end, and says that every step is
exact up to the one that fails.
-/

import StrictScheme.Proofs.Primitive.Fold

namespace StrictScheme
namespace Primitive

variable {a b q : Number} {bs : List Number} {e : Error}

/-! ### Division toward zero, over all integers -/

/-- **Dividing twice is dividing by the product.** -/
theorem tdiv_tdiv (i j k : Int) : (i.tdiv j).tdiv k = i.tdiv (j * k) := by
  obtain ⟨i, rfl | rfl⟩ := i.eq_nat_or_neg <;> obtain ⟨j, rfl | rfl⟩ := j.eq_nat_or_neg <;>
    obtain ⟨k, rfl | rfl⟩ := k.eq_nat_or_neg <;>
    simp only [Int.neg_tdiv, Int.tdiv_neg, Int.neg_mul, Int.mul_neg, Int.neg_neg,
      ← Int.natCast_mul, ← Int.ofNat_tdiv, Nat.div_div_eq_div_mul]

/-- Dividing by one number after the other is dividing by their product. -/
theorem total_tdiv (a : Number) (bs : List Number) :
    total Int.tdiv (a :: bs) = a.toInt.tdiv (bs.map Int64.toInt).prod := by
  induction bs using List.reverseRecOn with
  | nil => exact (Int.tdiv_one _).symm
  | append_singleton bs b ih =>
    rw [← List.cons_append, total_concat (List.cons_ne_nil _ _), ih, tdiv_tdiv, List.map_append,
      List.prod_append, List.map_singleton, List.prod_singleton]

/-- A divisor that is neither zero nor a unit at least halves a number. -/
theorem natAbs_tdiv_le_half {i j : Int} (hzero : j ≠ 0) (hone : j ≠ 1) (hneg : j ≠ -1) :
    (i.tdiv j).natAbs ≤ i.natAbs / 2 := by
  rw [Int.natAbs_tdiv]
  exact Nat.div_le_div_left (by omega) (by decide)

/-- Only the smallest number has a quotient out of range, and only by `-1`. -/
theorem fits_tdiv {i j : Int} (hi : Number.Fits i) (hunit : ¬ (i = -2 ^ 63 ∧ j = -1)) :
    Number.Fits (i.tdiv j) := by
  unfold Number.Fits at *
  have hle : (i.tdiv j).natAbs ≤ i.natAbs := Int.natAbs_tdiv_le_natAbs i j
  by_cases hmin : i = -2 ^ 63
  · rcases eq_or_ne j 0 with rfl | hzero
    · rw [Int.tdiv_zero]; omega
    · rcases eq_or_ne j 1 with rfl | hone
      · rw [Int.tdiv_one]; omega
      · have := natAbs_tdiv_le_half (i := i) hzero hone fun hneg => hunit ⟨hmin, hneg⟩
        omega
  · omega

/-- No quotient is the smallest number, unless it is a quotient by `1`. -/
theorem tdiv_ne_min {i j : Int} (hi : Number.Fits i) (hzero : j ≠ 0) (hone : j ≠ 1) :
    i.tdiv j ≠ -2 ^ 63 := by
  unfold Number.Fits at hi
  rcases eq_or_ne j (-1) with rfl | hneg
  · rw [Int.tdiv_neg, Int.tdiv_one]; omega
  · have := natAbs_tdiv_le_half (i := i) hzero hone hneg
    omega

/-! ### One step -/

/-- The least number divided by minus one is too large. -/
theorem quotient_of_overflow (h : a.toInt = -2 ^ 63) :
    quotient a (-1) = .error (.arithmetic "integer overflow in division") := by
  have hquotient : a.toInt.tdiv (-1) = 2 ^ 63 := by rw [h]; rfl
  rw [quotient, if_neg (by decide)]
  refine fitting_of_not_fits ?_
  show ¬ Number.Fits (a.toInt.tdiv (-1))
  rw [hquotient]
  decide

/-- A step that goes through is exact. -/
theorem toInt_of_quotient (h : quotient a b = .ok q) : q.toInt = a.toInt.tdiv b.toInt := by
  unfold quotient at h
  split at h
  · cases h
  · exact fitting_eq_ok.1 h

/-- Every other step goes through. -/
theorem exists_quotient (hzero : b ≠ 0) (hunit : ¬ (a.toInt = -2 ^ 63 ∧ b = -1)) :
    ∃ q, quotient a b = .ok q := by
  have hfits : Number.Fits (a.toInt.tdiv b.toInt) :=
    fits_tdiv a.fits_toInt fun h => hunit ⟨h.1, Int64.toInt_inj.1 h.2⟩
  rw [quotient, if_neg hzero]
  exact exists_fitting hfits

/-- What one step does, by cases of the divisor. -/
theorem quotient_cases (a b : Number) :
    (a.toInt = -2 ^ 63 ∧ b = -1 ∧
      quotient a b = .error (.arithmetic "integer overflow in division")) ∨
    (b = 0 ∧ quotient a b = .error (.arithmetic "division by zero")) ∨
    (b ≠ 0 ∧ ¬ (a.toInt = -2 ^ 63 ∧ b = -1) ∧ ∃ q, quotient a b = .ok q) := by
  by_cases hunit : a.toInt = -2 ^ 63 ∧ b = -1
  · obtain ⟨hmin, rfl⟩ := hunit
    exact .inl ⟨hmin, rfl, quotient_of_overflow hmin⟩
  · rcases eq_or_ne b 0 with rfl | hzero
    · exact .inr (.inl ⟨rfl, rfl⟩)
    · exact .inr (.inr ⟨hzero, hunit, exists_quotient hzero hunit⟩)

/-- A division fails for a zero, or for that one overflow. -/
theorem quotient_eq_error (h : quotient a b = .error e) :
    (b = 0 ∧ e = .arithmetic "division by zero") ∨
      (a.toInt = -2 ^ 63 ∧ b = -1 ∧ e = .arithmetic "integer overflow in division") := by
  rcases quotient_cases a b with ⟨hmin, hb, he⟩ | ⟨hb, he⟩ | ⟨-, -, q, hq⟩
  · exact .inr ⟨hmin, hb, Except.error.inj (h.symm.trans he)⟩
  · exact .inl ⟨hb, Except.error.inj (h.symm.trans he)⟩
  · rw [hq] at h
    cases h

/-! ### Overflow, told from the arguments -/

/-- The first number is the smallest one and is divided by `-1`, after divisors that are all
`1`. -/
def Overflows (a : Number) (bs : List Number) : Prop :=
  a.toInt = -2 ^ 63 ∧ ∃ front back, bs = front ++ -1 :: back ∧ ∀ b ∈ front, b = 1

/-- In other words, `-1` is the first divisor that is not `1`. -/
theorem overflows_iff_find? :
    Overflows a bs ↔ a.toInt = -2 ^ 63 ∧ bs.find? (· ≠ 1) = some (-1) := by
  rw [List.find?_eq_some_iff_append, Overflows]
  simp

/-- Dividing by nothing does not overflow. -/
theorem not_overflows_nil : ¬ Overflows a [] := by
  rw [overflows_iff_find?]
  simp

/-- Nor does dividing by zero, which fails before. -/
theorem not_overflows_zero : ¬ Overflows a (0 :: bs) := by
  rw [overflows_iff_find?]
  simp

/-- **One exact step keeps what the arguments tell about overflow.** -/
theorem overflows_cons (hzero : b ≠ 0) (hunit : ¬ (a.toInt = -2 ^ 63 ∧ b = -1))
    (hq : q.toInt = a.toInt.tdiv b.toInt) : Overflows a (b :: bs) ↔ Overflows q bs := by
  rw [overflows_iff_find?, overflows_iff_find?]
  rcases eq_or_ne b 1 with rfl | hone
  · -- the same number is divided by the rest
    have hsame : q.toInt = a.toInt := hq.trans (Int.tdiv_one _)
    rw [hsame, List.find?_cons_of_neg (by simp)]
  · -- neither side holds: `b` is the first divisor that is not `1`, and `q` is not the smallest
    rw [List.find?_cons_of_pos (by simpa using hone)]
    constructor
    · rintro ⟨hmin, hfirst⟩
      exact absurd ⟨hmin, Option.some.inj hfirst⟩ hunit
    · rintro ⟨hmin, -⟩
      have hzero' : b.toInt ≠ 0 := fun hb => hzero (Int64.toInt_inj.1 hb)
      have hone' : b.toInt ≠ 1 := fun hb => hone (Int64.toInt_inj.1 hb)
      exact absurd (hq.symm.trans hmin) (tdiv_ne_min a.fits_toInt hzero' hone')

/-! ### A whole division -/

/-- **A division overflows, or meets a zero, or goes through.** -/
theorem foldlM_quotient (a : Number) (bs : List Number) :
    (Overflows a bs ∧
      bs.foldlM quotient a = .error (.arithmetic "integer overflow in division")) ∨
    (¬ Overflows a bs ∧ 0 ∈ bs ∧
      bs.foldlM quotient a = .error (.arithmetic "division by zero")) ∨
    (¬ Overflows a bs ∧ 0 ∉ bs ∧ ∃ q, bs.foldlM quotient a = .ok q) := by
  induction bs generalizing a with
  | nil => exact .inr (.inr ⟨not_overflows_nil, List.not_mem_nil, a, rfl⟩)
  | cons b bs ih =>
    rcases quotient_cases a b with ⟨hmin, rfl, he⟩ | ⟨rfl, -⟩ | ⟨hzero, hunit, q, hstep⟩
    · refine .inl ⟨⟨hmin, [], bs, rfl, nofun⟩, ?_⟩
      rw [List.foldlM_cons, he]
      rfl
    · exact .inr (.inl ⟨not_overflows_zero, List.mem_cons_self, rfl⟩)
    · have hfold : (b :: bs).foldlM quotient a = bs.foldlM quotient q := by
        rw [List.foldlM_cons, hstep]
        rfl
      have hmem : 0 ∈ b :: bs ↔ 0 ∈ bs := by simp [hzero.symm]
      rw [overflows_cons hzero hunit (toInt_of_quotient hstep), hfold, hmem]
      exact ih q

/-- **A division is exact as far as it goes**, and it stops at a divisor that the number at
which it stands cannot be divided by. -/
theorem foldlM_quotient_steps (a : Number) (bs : List Number) :
    (∃ q, bs.foldlM quotient a = .ok q ∧ StaysInRange Int.tdiv (a :: bs) ∧
      q.toInt = total Int.tdiv (a :: bs)) ∨
    ∃ front b back e, bs.foldlM quotient a = .error e ∧ bs = front ++ b :: back ∧
      StaysInRange Int.tdiv (a :: front) ∧
      (b = 0 ∧ e = .arithmetic "division by zero" ∨
        total Int.tdiv (a :: front) = -2 ^ 63 ∧ b = -1 ∧
          e = .arithmetic "integer overflow in division") := by
  induction bs using List.reverseRecOn with
  | nil => exact .inl ⟨a, rfl, staysInRange_concat.2 ⟨staysInRange_nil, a.fits_toInt⟩, rfl⟩
  | append_singleton bs c ih =>
    rw [List.foldlM_append]
    rcases ih with ⟨r, hr, hrange, hvalue⟩ | ⟨front, b, back, e, he, rfl, hstop⟩
    · cases hstep : quotient r c with
      | ok q =>
        have htotal : q.toInt = total Int.tdiv (a :: (bs ++ [c])) := by
          rw [← List.cons_append, total_concat (List.cons_ne_nil _ _), ← hvalue,
            toInt_of_quotient hstep]
        refine .inl ⟨q, ?_, staysInRange_concat.2 ⟨hrange, htotal ▸ q.fits_toInt⟩, htotal⟩
        rw [hr]
        exact congrArg (· >>= pure) hstep
      | error e =>
        refine .inr ⟨bs, c, [], e, ?_, rfl, hrange, hvalue ▸ quotient_eq_error hstep⟩
        rw [hr]
        exact congrArg (· >>= pure) hstep
    · refine .inr ⟨front, b, back ++ [c], e, ?_, by simp, hstop⟩
      rw [he]
      rfl

/-- A division of numbers is carried out from the left. -/
theorem run_divide (a : Number) (bs : List Number) :
    Primitive.divide.run ((a :: bs).map .number) = Value.number <$> bs.foldlM quotient a :=
  congrArg (Value.number <$> ·) (foldlM_advance_numbers a bs)

/-- **Exact division.**  The quotient of `a` by all of `bs`, one after the other, is the
quotient by their product, and the values on the way fit 64 bits.  It exists unless a divisor
is zero, or the smallest number meets `-1` after divisors that are all `1`.  The second case
is overflow and is reported as such, also when there are zeros; there is no other error, and
an error is about the first divisor at which the division cannot go on. -/
theorem divide_exact (a : Number) (bs : List Number) :
    (0 ∉ bs → ¬ (a.toInt = -2 ^ 63 ∧ bs.find? (· ≠ 1) = some (-1)) →
      ∃ q, Primitive.divide.run ((a :: bs).map .number) = .ok (.number q) ∧
        q.toInt = a.toInt.tdiv (bs.map Int64.toInt).prod ∧ StaysInRange Int.tdiv (a :: bs)) ∧
    (Primitive.divide.run ((a :: bs).map .number) =
        .error (.arithmetic "integer overflow in division") ↔
      a.toInt = -2 ^ 63 ∧ ∃ front back, bs = front ++ -1 :: back ∧ ∀ b ∈ front, b = 1) ∧
    (Primitive.divide.run ((a :: bs).map .number) = .error (.arithmetic "division by zero") ↔
      ¬ Overflows a bs ∧ 0 ∈ bs) ∧
    (∀ e, Primitive.divide.run ((a :: bs).map .number) = .error e →
      ∃ front b back, bs = front ++ b :: back ∧ StaysInRange Int.tdiv (a :: front) ∧
        (b = 0 ∧ e = .arithmetic "division by zero" ∨
          total Int.tdiv (a :: front) = -2 ^ 63 ∧ b = -1 ∧
            e = .arithmetic "integer overflow in division")) := by
  rw [run_divide]
  refine ⟨?exact, ?overflow, ?zero, ?stop⟩
  case exact =>
    intro hzero hunit
    rcases foldlM_quotient a bs with ⟨hover, -⟩ | ⟨-, hmem, -⟩ | ⟨-, -, q, hq⟩
    · exact absurd (overflows_iff_find?.1 hover) hunit
    · exact absurd hmem hzero
    · rcases foldlM_quotient_steps a bs with ⟨q', hq', hrange, hvalue⟩ | ⟨_, _, _, e, he, -⟩
      · exact ⟨q', congrArg _ hq', hvalue.trans (total_tdiv a bs), hrange⟩
      · rw [hq] at he
        cases he
  case overflow =>
    show _ ↔ Overflows a bs
    rcases foldlM_quotient a bs with ⟨hover, h⟩ | ⟨hover, -, h⟩ | ⟨hover, -, q, h⟩
    all_goals
      rw [h]
      simp [hover]
  case zero =>
    rcases foldlM_quotient a bs with ⟨hover, h⟩ | ⟨hover, hmem, h⟩ | ⟨-, hmem, q, h⟩
    · rw [h]; simp [hover]
    · rw [h]; simp [hover, hmem]
    · rw [h]; simp [hmem]
  case stop =>
    intro e he
    rcases foldlM_quotient_steps a bs with ⟨q, hq, -⟩ | ⟨front, b, back, e', he', hstop⟩
    · rw [hq] at he
      cases he
    · rw [he'] at he
      obtain rfl := Except.error.inj he
      exact ⟨front, b, back, hstop⟩

/-- Dividing the smallest number by one changes nothing, and its overflow comes before the
zero. -/
example :
    Primitive.divide.run
        [.number (-9223372036854775808), .number 1, .number (-1), .number 0] =
      .error (.arithmetic "integer overflow in division") := by decide

end Primitive
end StrictScheme
