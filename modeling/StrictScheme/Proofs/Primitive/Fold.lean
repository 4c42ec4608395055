/-
# Exact sums, differences and products

`+`, `-` and `*` scan their arguments from the left and keep one number.  Compare the scan
with the fold of the same operation over all integers, which has a value for every list of
numbers (`total`).  The scan goes on as long as it reads numbers and the values of all
beginnings fit 64 bits (`StaysInRange`), and it then stands at exactly the value of the fold
(`Folds.run_numbers`).  Otherwise it stops at the leftmost argument that is no number or
takes the value out of range (`StopsAt`), and the error is about that argument
(`Folds.run_of_stopsAt`).

Every list of arguments does one or the other (`passes_or_stops`), so both kinds of outcome
are characterized.  Overflow is a matter of the beginnings, and not of the value of the whole
list: the same numbers can have a sum in one order and none in another.  But sums and
products that exist in two orders are equal, and a product that is zero stays zero.
-/

import StrictScheme.Proofs.Atom
import StrictScheme.Builtin
import Mathlib.Algebra.BigOperators.Group.List.Basic
import Mathlib.Algebra.Ring.Int.Defs
import Mathlib.Data.List.Induction
import Mathlib.Data.List.Infix

namespace StrictScheme
namespace Primitive

variable {op : Primitive} {f : Int → Int → Int} {what : String} {ns : List Number} {v w : Value}
  {args front back : List Value} {step : Number → Number → Except Error Number} {n r : Number}
  {e : Error}

/-! ### Results that fit -/

/-- A number fits if there is one of the machine with that value. -/
theorem fitting_eq_ok {i : Int} : fitting what i = .ok n ↔ n.toInt = i := by
  rw [← Number.ofInt?_eq_some, fitting]
  cases Number.ofInt? i <;> simp

/-- Otherwise the error tells the operation that overflowed. -/
theorem fitting_of_not_fits {i : Int} (h : ¬ Number.Fits i) :
    fitting what i = .error (.arithmetic ("integer overflow in " ++ what)) := by
  rw [fitting, Number.ofInt?_eq_none.2 h]

/-- Every value in range fits. -/
theorem exists_fitting {i : Int} (h : Number.Fits i) : ∃ n, fitting what i = .ok n := by
  cases hn : Number.ofInt? i with
  | some n => exact ⟨n, by rw [fitting, hn]⟩
  | none => exact absurd h (Number.ofInt?_eq_none.1 hn)

/-! ### A scan and the number at which it stands -/

/-- One step of a scan that stands at the number `acc`. -/
def advance (op : Primitive) (step : Number → Number → Except Error Number) (acc : Number)
    (v : Value) : Except Error Number := do
  step acc (← op.operand v)

/-- A fold starts from its first operand. -/
theorem fold_number (a : Number) (rest : List Value) :
    op.fold step (.number a :: rest) = Value.number <$> rest.foldlM (op.advance step) a :=
  rfl

/-- Among numbers it goes from step to step. -/
theorem foldlM_advance_numbers (a : Number) (ns : List Number) :
    (ns.map Value.number).foldlM (op.advance step) a = ns.foldlM step a :=
  List.foldlM_map

/-- **A fold goes on from the number at which it stands.** -/
theorem fold_append (h : op.fold step front = .ok (.number r)) (back : List Value) :
    op.fold step (front ++ back) = Value.number <$> back.foldlM (op.advance step) r := by
  cases front with
  | nil => cases h
  | cons first rest =>
    cases first with
    | number a =>
      rw [fold_number] at h
      rw [List.cons_append, fold_number, List.foldlM_append]
      cases hrest : rest.foldlM (op.advance step) a with
      | error e => rw [hrest] at h; cases h
      | ok r' => rw [hrest] at h; cases h; rfl
    | _ => cases h

/-- An operand that is no number is refused. -/
theorem operand_of_not_number (h : ∀ n, v ≠ .number n) :
    op.operand v =
      .error (.typeMismatch (op.name ++ " requires numbers, found " ++ v.describe)) := by
  cases v with
  | number n => exact absurd rfl (h n)
  | _ => simp [operand, Value.asNumber, String.append_assoc]

/-- So it is in the first place. -/
theorem fold_of_not_number (h : ∀ n, v ≠ .number n) (back : List Value) :
    op.fold step (v :: back) =
      .error (.typeMismatch (op.name ++ " requires numbers, found " ++ v.describe)) := by
  rw [fold, operand_of_not_number h]
  rfl

/-- So it is in every other place. -/
theorem advance_of_not_number (h : ∀ n, v ≠ .number n) (r : Number) :
    op.advance step r v =
      .error (.typeMismatch (op.name ++ " requires numbers, found " ++ v.describe)) := by
  rw [advance, operand_of_not_number h]
  rfl

/-! ### The fold over all integers -/

/-- The value of a fold over all integers, which starts from the first number. -/
def total (f : Int → Int → Int) : List Number → Int
  | [] => 0
  | first :: rest => rest.foldl (fun acc n => f acc n.toInt) first.toInt

/-- The values of all beginnings fit 64 bits. -/
def StaysInRange (f : Int → Int → Int) (ns : List Number) : Prop :=
  ∀ front, front <+: ns → Number.Fits (total f front)

instance (f : Int → Int → Int) (ns : List Number) : Decidable (StaysInRange f ns) :=
  decidable_of_iff (∀ front ∈ ns.inits, Number.Fits (total f front))
    (forall_congr' fun front => imp_congr_left (List.mem_inits front ns))

/-- One number more takes one step more. -/
theorem total_concat (hne : ns ≠ []) (n : Number) :
    total f (ns ++ [n]) = f (total f ns) n.toInt := by
  cases ns with
  | nil => exact absurd rfl hne
  | cons first rest => simp only [List.cons_append, total, List.foldl_append, List.foldl_cons,
      List.foldl_nil]

/-- No numbers at all are in range. -/
theorem staysInRange_nil : StaysInRange f [] := by
  intro front hfront
  rw [List.prefix_nil.1 hfront, total]
  decide

/-- One number more stays in range if the numbers before do, and the total with it. -/
theorem staysInRange_concat :
    StaysInRange f (ns ++ [n]) ↔ StaysInRange f ns ∧ Number.Fits (total f (ns ++ [n])) := by
  constructor
  · intro h
    exact ⟨fun front hfront => h front (hfront.trans (List.prefix_append ..)), h _ List.prefix_rfl⟩
  · rintro ⟨hns, hlast⟩ front hfront
    rcases List.prefix_concat_iff.1 hfront with rfl | hfront
    · exact hlast
    · exact hns front hfront

/-- A fold may as well start from a unit on the left. -/
theorem total_eq_foldl {unit : Int} (hunit : ∀ i, f unit i = i) (hne : ns ≠ []) :
    total f ns = (ns.map Int64.toInt).foldl f unit := by
  cases ns with
  | nil => exact absurd rfl hne
  | cons first rest => rw [total, List.map_cons, List.foldl_cons, hunit, List.foldl_map]

/-! ### The scan against the fold -/

/-- The operations that fold their arguments over the integers: what they do in one step, and
how they name it when it overflows. -/
inductive Folds : Primitive → (Int → Int → Int) → String → Prop where
  | addition : Folds .add (· + ·) "addition"
  | subtraction : Folds .subtract (· - ·) "subtraction"
  | multiplication : Folds .multiply (· * ·) "multiplication"

/-- After the numbers `ns`, the argument `v` does not let a scan go on. -/
inductive StopsAt (op : Primitive) (f : Int → Int → Int) (what : String) (ns : List Number) :
    Value → Error → Prop where
  | mismatch {v : Value} : (∀ n, v ≠ .number n) →
      StopsAt op f what ns v
        (.typeMismatch (op.name ++ " requires numbers, found " ++ v.describe))
  | overflow {n : Number} : ¬ Number.Fits (total f (ns ++ [n])) →
      StopsAt op f what ns (.number n) (.arithmetic ("integer overflow in " ++ what))

/-- Every list of arguments passes the scan or has a leftmost argument that stops it. -/
theorem passes_or_stops (op : Primitive) (f : Int → Int → Int) (what : String)
    (args : List Value) :
    (∃ ns, args = ns.map Value.number ∧ StaysInRange f ns) ∨
      ∃ ns v back e, args = ns.map Value.number ++ v :: back ∧ StaysInRange f ns ∧
        StopsAt op f what ns v e := by
  induction args using List.reverseRecOn with
  | nil => exact .inl ⟨[], rfl, staysInRange_nil⟩
  | append_singleton args v ih =>
    rcases ih with ⟨ns, rfl, hns⟩ | ⟨ns, u, back, e, rfl, hns, hstop⟩
    · cases v with
      | number n =>
        by_cases hfits : Number.Fits (total f (ns ++ [n]))
        · exact .inl ⟨ns ++ [n], by simp, staysInRange_concat.2 ⟨hns, hfits⟩⟩
        · exact .inr ⟨ns, _, [], _, rfl, hns, .overflow hfits⟩
      | _ => exact .inr ⟨ns, _, [], _, rfl, hns, .mismatch nofun⟩
    · -- a scan that has stopped does not come to the last argument
      exact .inr ⟨ns, u, back ++ [v], e, by simp, hns, hstop⟩

/-- One step of an operation whose results have to fit. -/
def checked (f : Int → Int → Int) (what : String) (a b : Number) : Except Error Number :=
  fitting what (f a.toInt b.toInt)

namespace Folds

/-- The three operations are folds of checked steps. -/
theorem run_eq (hop : Folds op f what) (args : List Value) :
    op.run args = op.fold (checked f what) args := by
  cases hop <;> rfl

/-- **A scan that stays in range stands at the value of the fold.** -/
theorem run_numbers (hop : Folds op f what) (hne : ns ≠ []) (h : StaysInRange f ns) :
    ∃ r, op.run (ns.map Value.number) = .ok (.number r) ∧ r.toInt = total f ns := by
  rw [hop.run_eq]
  induction ns using List.reverseRecOn with
  | nil => exact absurd rfl hne
  | append_singleton ns n ih =>
    obtain ⟨hns, hfits⟩ := staysInRange_concat.1 h
    rcases eq_or_ne ns [] with rfl | hne
    · exact ⟨n, rfl, rfl⟩
    · -- the scan goes on from the value of all numbers but the last
      obtain ⟨r, hrun, hr⟩ := ih hne hns
      rw [total_concat hne, ← hr] at hfits ⊢
      obtain ⟨r', hr'⟩ := exists_fitting hfits
      refine ⟨r', ?_, fitting_eq_ok.1 hr'⟩
      rw [List.map_append, fold_append hrun, foldlM_advance_numbers, List.foldlM_cons, checked, hr']
      rfl

/-- **A scan that stops reports the argument that stops it**, whatever follows. -/
theorem run_of_stopsAt (hop : Folds op f what) (hns : StaysInRange f ns)
    (hstop : StopsAt op f what ns v e) (back : List Value) :
    op.run (ns.map Value.number ++ v :: back) = .error e := by
  rcases eq_or_ne ns [] with rfl | hne
  · cases hstop with
    | mismatch hv => rw [hop.run_eq, List.map_nil, List.nil_append, fold_of_not_number hv]
    | overflow hfits => exact absurd (Number.fits_toInt _) hfits
  · obtain ⟨r, hrun, hr⟩ := hop.run_numbers hne hns
    rw [hop.run_eq] at hrun ⊢
    rw [fold_append hrun, List.foldlM_cons]
    cases hstop with
    | mismatch hv => rw [advance_of_not_number hv]; rfl
    | @overflow n hfits =>
      rw [total_concat hne, ← hr] at hfits
      have hstep : op.advance (checked f what) r (.number n) =
          .error (.arithmetic ("integer overflow in " ++ what)) := fitting_of_not_fits hfits
      rw [hstep]
      rfl

/-- **A fold succeeds on numbers that stay in range**, with their total. -/
theorem run_eq_ok (hop : Folds op f what) (hne : args ≠ []) :
    op.run args = .ok w ↔ ∃ ns r, args = ns.map Value.number ∧ StaysInRange f ns ∧
      w = .number r ∧ r.toInt = total f ns := by
  constructor
  · intro h
    rcases passes_or_stops op f what args with ⟨ns, rfl, hns⟩ | ⟨ns, v, back, e, rfl, hns, hstop⟩
    · obtain ⟨r, hrun, hr⟩ := hop.run_numbers (by simpa using hne) hns
      exact ⟨ns, r, rfl, hns, Except.ok.inj (h.symm.trans hrun), hr⟩
    · rw [hop.run_of_stopsAt hns hstop] at h
      cases h
  · rintro ⟨ns, r, rfl, hns, rfl, hr⟩
    obtain ⟨r', hrun, hr'⟩ := hop.run_numbers (by simpa using hne) hns
    rw [hrun, Int64.toInt_inj.1 (hr.trans hr'.symm)]

/-- **It fails at the first operand** that is no number, or that takes the total out of range. -/
theorem run_eq_error (hop : Folds op f what) (hne : args ≠ []) :
    op.run args = .error e ↔ ∃ ns v back, args = ns.map Value.number ++ v :: back ∧
      StaysInRange f ns ∧ StopsAt op f what ns v e := by
  constructor
  · intro h
    rcases passes_or_stops op f what args with ⟨ns, rfl, hns⟩ | ⟨ns, v, back, e', rfl, hns, hstop⟩
    · obtain ⟨r, hrun, -⟩ := hop.run_numbers (by simpa using hne) hns
      rw [hrun] at h
      cases h
    · rw [hop.run_of_stopsAt hns hstop] at h
      obtain rfl := Except.error.inj h
      exact ⟨ns, v, back, rfl, hns, hstop⟩
  · rintro ⟨ns, v, back, rfl, hns, hstop⟩
    exact hop.run_of_stopsAt hns hstop back

end Folds

/-! ### Order, and products that are zero -/

/-- Sums and products over all integers do not depend on the order. -/
theorem Folds.total_perm (hop : Folds op f what) (hsym : op = .add ∨ op = .multiply)
    {ms : List Number} (hne : ns ≠ []) (hperm : ns.Perm ms) : total f ns = total f ms := by
  have hvalues : (ns.map Int64.toInt).Perm (ms.map Int64.toInt) := hperm.map _
  have hne' : ms ≠ [] := fun hms => hne (List.perm_nil.1 (hms ▸ hperm))
  cases hop with
  | addition =>
    rw [total_eq_foldl Int.zero_add hne, total_eq_foldl Int.zero_add hne']
    exact hvalues.foldl_eq 0
  | subtraction => simp at hsym
  | multiplication =>
    rw [total_eq_foldl Int.one_mul hne, total_eq_foldl Int.one_mul hne']
    exact hvalues.foldl_eq 1

/-- Sums and products of the same operands are the same, if they are in range. -/
theorem Folds.run_perm (hop : Folds op f what) (hsym : op = .add ∨ op = .multiply)
    (hne : args ≠ []) {reordered : List Value} (hperm : args.Perm reordered)
    (hv : op.run args = .ok v) (hw : op.run reordered = .ok w) : v = w := by
  have hne' : reordered ≠ [] := fun hnil => hne (List.perm_nil.1 (hnil ▸ hperm))
  obtain ⟨ns, r, rfl, -, rfl, hr⟩ := (hop.run_eq_ok hne).1 hv
  obtain ⟨ms, q, rfl, -, rfl, hq⟩ := (hop.run_eq_ok hne').1 hw
  have hnumbers : ns.Perm ms :=
    (List.map_perm_map_iff fun _ _ heq => Value.number.inj heq).1 hperm
  have hvalue : r.toInt = q.toInt := by
    rw [hr, hq, hop.total_perm hsym (by simpa using hne) hnumbers]
  rw [Int64.toInt_inj.1 hvalue]

/-- A product that stands at zero goes on with zero, whatever the numbers that follow. -/
theorem foldlM_multiply_zero (back : List Value) :
    back.foldlM (Primitive.multiply.advance (checked (· * ·) "multiplication")) 0 = .ok 0 ∨
      ∃ v ∈ back, (∀ n, v ≠ .number n) ∧
        back.foldlM (Primitive.multiply.advance (checked (· * ·) "multiplication")) 0 =
          .error (.typeMismatch ("* requires numbers, found " ++ v.describe)) := by
  induction back with
  | nil => exact .inl rfl
  | cons u back ih =>
    by_cases hu : ∃ n, u = .number n
    · obtain ⟨n, rfl⟩ := hu
      have hstep : Primitive.multiply.advance (checked (· * ·) "multiplication") 0 (.number n) =
          .ok 0 := fitting_eq_ok.2 (Int.zero_mul _).symm
      rw [List.foldlM_cons, hstep]
      rcases ih with h | ⟨v, hv, hnot, h⟩
      · exact .inl h
      · exact .inr ⟨v, List.mem_cons_of_mem _ hv, hnot, h⟩
    · have hnot : ∀ n, u ≠ .number n := fun n heq => hu ⟨n, heq⟩
      refine .inr ⟨u, List.mem_cons_self, hnot, ?_⟩
      rw [List.foldlM_cons, advance_of_not_number hnot]
      rfl

/-- A product that has come to zero stays zero, or meets an operand that is no number. -/
theorem run_multiply_zero (h : Primitive.multiply.run front = .ok (.number 0))
    (back : List Value) :
    Primitive.multiply.run (front ++ back) = .ok (.number 0) ∨
      ∃ v ∈ back, (∀ n, v ≠ .number n) ∧ Primitive.multiply.run (front ++ back) =
        .error (.typeMismatch ("* requires numbers, found " ++ v.describe)) := by
  have hrun : Primitive.multiply.run (front ++ back) = _ := fold_append h back
  rw [hrun]
  rcases foldlM_multiply_zero back with hzero | ⟨v, hv, hnot, herror⟩
  · exact .inl (congrArg _ hzero)
  · exact .inr ⟨v, hv, hnot, congrArg _ herror⟩

/-- **Exact checked folds.**  On one or more arguments an operation returns a number exactly
when all of them are numbers and the values of all beginnings fit, and it is the exact value
of the fold.  It fails exactly when a leftmost argument stops the scan, with the error about
that argument.  The number that sums and products return is the same in every order in which
they return one, and after a product of zero only an argument that is no number can fail. -/
theorem Folds.run_exact (hop : Folds op f what) (hne : args ≠ []) :
    (∀ w, op.run args = .ok w ↔ ∃ ns r, args = ns.map Value.number ∧ StaysInRange f ns ∧
      w = .number r ∧ r.toInt = total f ns) ∧
    (∀ e, op.run args = .error e ↔ ∃ ns v back, args = ns.map Value.number ++ v :: back ∧
      StaysInRange f ns ∧ StopsAt op f what ns v e) ∧
    (op = .add ∨ op = .multiply → ∀ reordered, args.Perm reordered →
      ∀ v w, op.run args = .ok v → op.run reordered = .ok w → v = w) ∧
    (op = .multiply → ∀ front back, args = front ++ back → op.run front = .ok (.number 0) →
      op.run args = .ok (.number 0) ∨ ∃ v ∈ back, (∀ n, v ≠ .number n) ∧
        op.run args = .error (.typeMismatch ("* requires numbers, found " ++ v.describe))) := by
  refine ⟨fun w => hop.run_eq_ok hne, fun e => hop.run_eq_error hne, ?_, ?_⟩
  · intro hsym reordered hperm v w hv hw
    exact hop.run_perm hsym hne hperm hv hw
  · rintro rfl front back rfl hzero
    exact run_multiply_zero hzero back

/-- The largest number and one have no sum, whatever is added next; with minus one between
them they have one. -/
theorem limits_run_exact :
    Folds .add (· + ·) "addition" ∧
    Primitive.add.run [.number Int64.maxValue, .number 1, .boolean true] =
      .error (.arithmetic "integer overflow in addition") ∧
    Primitive.add.run [.number Int64.maxValue, .number (-1), .number 1] =
      .ok (.number Int64.maxValue) := by
  refine ⟨.addition, ?_, ?_⟩
  · refine ((Folds.run_exact .addition (List.cons_ne_nil _ _)).2.1 _).2 ?_
    exact ⟨[Int64.maxValue], .number 1, [.boolean true], rfl, by decide, .overflow (by decide)⟩
  · refine ((Folds.run_exact .addition (List.cons_ne_nil _ _)).1 _).2 ?_
    exact ⟨[Int64.maxValue, -1, 1], _, rfl, by decide, rfl, by decide⟩

end Primitive
end StrictScheme
