/-
# What the primitive procedures mean

A number stands for an integer, and the ten primitive procedures for operations on integers of
any size and on truth values (`Primitive.meaning`).  Sums, differences, products and quotients
are those of the integers, one argument after the other, and there is none once a step leaves
the range of 64 bits.  Arguments are equal if every two of them are, a comparison asks for an
ascending or descending order, and the logical operations quantify over their arguments.

Whatever the arguments, a primitive procedure returns a value that represents what it means for
the data that the arguments represent, or it fails as its meaning does
(`Primitive.call_meaning`).
-/

import StrictScheme.Proofs.Lockstep
import StrictScheme.Proofs.Primitive.Division
import StrictScheme.Proofs.Primitive.Unordered

namespace StrictScheme

/-- An integer of any size, or a truth value. -/
inductive Datum where
  | integer (i : Int)
  | truth (b : Bool)
deriving DecidableEq, Repr

/-- A datum as error messages describe it. -/
def Datum.describe : Datum → String
  | .integer i => "number " ++ toString i
  | .truth b => "boolean " ++ printBoolean b

/-- A number represents the integer that is its value, and a truth value itself. -/
inductive Value.Represents : Value → Datum → Prop where
  | number (n : Number) : Represents (.number n) (.integer n.toInt)
  | boolean (b : Bool) : Represents (.boolean b) (.truth b)

namespace Value.Represents

variable {v w : Value} {d e : Datum}

/-- A value is described as what it represents. -/
theorem describe (h : v.Represents d) : v.describe = d.describe := by
  cases h <;> rfl

/-- **Values are equal when they represent the same datum.** -/
theorem equal_iff (hv : v.Represents d) (hw : w.Represents e) : v.equal w = true ↔ d = e := by
  rw [Value.equal_iff_identity]
  cases hv <;> cases hw <;> simp [Value.identity, Int64.toInt_inj]

/-- A datum is represented by one value at most. -/
theorem unique (hv : v.Represents d) (hw : w.Represents d) : v = w := by
  cases hv with
  | number n =>
    generalize hd : Datum.integer n.toInt = d at hw
    cases hw with
    | number m => rw [Int64.toInt_inj.1 (Datum.integer.inj hd)]
    | boolean b => cases hd
  | boolean b =>
    cases hw
    rfl

end Value.Represents

namespace Primitive

variable {op : Primitive} {v : Value} {d : Datum} {args : List Value} {data : List Datum}

/-! ### Operations on integers and truth values -/

/-- The integer that an argument of arithmetic or comparison has to be. -/
def integer (op : Primitive) : Datum → Except Error Int
  | .integer i => .ok i
  | d => .error (.typeMismatch (op.name ++ " requires numbers, found " ++ d.describe))

/-- The truth value that an argument of a logical procedure has to be. -/
def truth (op : Primitive) : Datum → Except Error Bool
  | .truth b => .ok b
  | d => .error (.typeMismatch
      (op.name ++ " requires boolean arguments (no truthiness), found " ++ d.describe))

/-- An exact result, if it is in the range of 64 bits. -/
def inRange (what : String) (exact : Int) : Except Error Int :=
  if Number.Fits exact then .ok exact
  else .error (.arithmetic ("integer overflow in " ++ what))

/-- The quotient toward zero. -/
def ratio (i j : Int) : Except Error Int :=
  if j = 0 then .error (.arithmetic "division by zero") else inRange "division" (i.tdiv j)

/-- The result of a step with each argument after the first. -/
def scan (op : Primitive) (step : Int → Int → Except Error Int) :
    List Datum → Except Error Datum
  | [] => .error (.arityMismatch op.name (.atLeast 2) 0)
  | first :: rest => do
    let start ← op.integer first
    let result ← rest.foldlM (fun acc d => do step acc (← op.integer d)) start
    return .integer result

/-- What a primitive procedure means for data in the number that it takes. -/
def apply (op : Primitive) (data : List Datum) : Except Error Datum :=
  match op with
  | .add => op.scan (fun i j => inRange "addition" (i + j)) data
  | .subtract => op.scan (fun i j => inRange "subtraction" (i - j)) data
  | .multiply => op.scan (fun i j => inRange "multiplication" (i * j)) data
  | .divide => op.scan ratio data
  | .equal => .ok (.truth (∀ d ∈ data, ∀ e ∈ data, d = e))
  | .less => do
    let is ← data.mapM op.integer
    return .truth (is.Pairwise (· < ·))
  | .greater => do
    let is ← data.mapM op.integer
    return .truth (is.Pairwise (· > ·))
  | .and => do
    let bs ← data.mapM op.truth
    return .truth (∀ b ∈ bs, b = true)
  | .or => do
    let bs ← data.mapM op.truth
    return .truth (∃ b ∈ bs, b = true)
  | .not => do
    let bs ← data.mapM op.truth
    return .truth (∀ b ∈ bs, b = false)

/-- The datum that a primitive procedure means for some data, or the error that it means.  The
number of the data is checked before their kinds. -/
def meaning (op : Primitive) (data : List Datum) : Except Error Datum := do
  op.arity.validate op.name data.length
  op.apply data

/-! ### Single arguments and single steps -/

/-- A primitive takes the integer that a value represents, or refuses both alike. -/
theorem operand_integer (h : v.Represents d) :
    Outcome (fun n i => n.toInt = i) (op.operand v) (op.integer d) := by
  have hdescribe := h.describe
  cases h with
  | number n => exact rfl
  | boolean b =>
    rw [operand_of_not_number (v := .boolean b) nofun, hdescribe]
    rfl

/-- It takes the truth value that a value represents, or refuses both alike. -/
theorem condition_truth (h : v.Represents d) : Outcome (· = ·) (op.condition v) (op.truth d) := by
  have hdescribe := h.describe
  cases h with
  | boolean b => exact rfl
  | number n =>
    rw [condition_of_not_boolean (v := .number n) nofun, hdescribe]
    rfl

/-- A result fits just when it is in range. -/
theorem fitting_inRange (what : String) (exact : Int) :
    Outcome (fun n i => n.toInt = i) (fitting what exact) (inRange what exact) := by
  unfold inRange
  by_cases hfits : Number.Fits exact
  · obtain ⟨n, hn⟩ : ∃ n, fitting what exact = .ok n := exists_fitting hfits
    rw [if_pos hfits, hn]
    exact fitting_eq_ok.1 hn
  · rw [if_neg hfits, fitting_of_not_fits hfits]
    rfl

/-- The quotient of two numbers is that of their values, or fails alike. -/
theorem quotient_ratio (a b : Number) :
    Outcome (fun n i => n.toInt = i) (quotient a b) (ratio a.toInt b.toInt) := by
  have hzero : b.toInt = 0 ↔ b = 0 := Int64.toInt_inj (y := 0)
  unfold quotient ratio
  by_cases h : b = 0
  · rw [if_pos h, if_pos (hzero.2 h)]
    rfl
  · rw [if_neg h, if_neg (mt hzero.1 h)]
    exact fitting_inRange ..

/-! ### All arguments -/

/-- **A fold stands for a scan over the integers**, if each of its steps does. -/
theorem fold_scan {step : Number → Number → Except Error Number}
    {exact : Int → Int → Except Error Int}
    (hstep : ∀ a b, Outcome (fun n i => n.toInt = i) (step a b) (exact a.toInt b.toInt))
    (h : List.Forall₂ Value.Represents args data) :
    Outcome Value.Represents (op.fold step args) (op.scan exact data) := by
  cases h with
  | nil => exact rfl
  | cons hfirst hrest =>
    refine (operand_integer hfirst).bind fun start i hstart => ?_
    refine Outcome.bind (J := fun n i => n.toInt = i) (Outcome.foldlM hrest ?_ hstart) ?_
    · rintro a _ v d rfl hv
      refine (operand_integer hv).bind ?_
      rintro b _ rfl
      exact hstep a b
    · rintro r _ rfl
      exact .number r

/-- A comparison asks for the order of its two arguments. -/
theorem compare_pairwise {holds : Int → Int → Bool} {R : Int → Int → Prop} [DecidableRel R]
    (hholds : ∀ i j, holds i j = decide (R i j)) (hcount : args.length = 2)
    (h : List.Forall₂ Value.Represents args data) :
    Outcome Value.Represents (op.compare holds args)
      (do let is ← data.mapM op.integer
          return .truth (is.Pairwise R)) := by
  obtain ⟨v, w, rfl⟩ := List.length_eq_two.1 hcount
  obtain ⟨d, e, rfl⟩ := List.length_eq_two.1 (h.length_eq.symm.trans hcount)
  simp only [List.forall₂_cons, List.forall₂_nil_left_iff, and_true] at h
  -- two integers are in order pairwise when the first comes before the second
  have hpair : (do let is ← [d, e].mapM op.integer
                   return Datum.truth (is.Pairwise R)) = (do
      let i ← op.integer d
      let j ← op.integer e
      return Datum.truth (decide (R i j))) := by
    simp
  rw [hpair]
  refine (operand_integer h.1).bind ?_
  rintro a _ rfl
  refine (operand_integer h.2).bind ?_
  rintro b _ rfl
  rw [← hholds]
  exact .boolean _

/-- The operands of a logical primitive are taken alike, one after the other. -/
theorem conditions_truth (op : Primitive) (h : List.Forall₂ Value.Represents args data) :
    Outcome (· = ·) (op.conditions args) (data.mapM op.truth) := by
  refine (Outcome.mapM h fun _ _ => condition_truth).mono fun bs cs hbs => ?_
  rwa [List.forall₂_eq_eq_eq] at hbs

/-- What holds of the arguments when it holds of the data. -/
theorem forall_data {P : Value → Prop} {Q : Datum → Prop}
    (h : List.Forall₂ Value.Represents args data)
    (hPQ : ∀ v d, v.Represents d → (P v ↔ Q d)) : (∀ v ∈ args, P v) ↔ ∀ d ∈ data, Q d := by
  induction h with
  | nil => simp
  | cons hfirst _ ih => rw [List.forall_mem_cons, List.forall_mem_cons, hPQ _ _ hfirst, ih]

/-- Every two neighbours are equal exactly if every two data are. -/
theorem neighboursEqual_data (h : List.Forall₂ Value.Represents args data) :
    neighboursEqual args = decide (∀ d ∈ data, ∀ e ∈ data, d = e) := by
  rw [Bool.eq_iff_iff, neighboursEqual_iff, decide_eq_true_iff]
  exact forall_data h fun v d hv => forall_data h fun w e hw => hv.equal_iff hw

/-- **A primitive does on values what its meaning does on data.** -/
theorem run_apply (op : Primitive) (hcount : op.arity.accepts args.length = true)
    (h : List.Forall₂ Value.Represents args data) :
    Outcome Value.Represents (op.run args) (op.apply data) := by
  cases op with
  | add => exact fold_scan (fun _ _ => fitting_inRange ..) h
  | subtract => exact fold_scan (fun _ _ => fitting_inRange ..) h
  | multiply => exact fold_scan (fun _ _ => fitting_inRange ..) h
  | divide => exact fold_scan quotient_ratio h
  | equal =>
    rw [run, apply, neighboursEqual_data h]
    exact .boolean _
  | less => exact compare_pairwise (fun _ _ => rfl) (beq_iff_eq.1 hcount) h
  | greater => exact compare_pairwise (fun _ _ => rfl) (beq_iff_eq.1 hcount) h
  | and =>
    refine (conditions_truth .and h).bind ?_
    rintro bs _ rfl
    have hall : bs.all id = decide (∀ b ∈ bs, b = true) := by
      rw [Bool.eq_iff_iff]; simp
    rw [hall]
    exact .boolean _
  | or =>
    refine (conditions_truth .or h).bind ?_
    rintro bs _ rfl
    have hany : bs.any id = decide (∃ b ∈ bs, b = true) := by
      rw [Bool.eq_iff_iff]; simp
    rw [hany]
    exact .boolean _
  | not =>
    obtain ⟨v, rfl⟩ := List.length_eq_one_iff.1 (beq_iff_eq.1 hcount)
    have hnot : Primitive.not.run [v] = (do
        let bs ← Primitive.not.conditions [v]
        return Value.boolean (decide (∀ b ∈ bs, b = false))) := by
      simp [run, conditions]
    rw [hnot]
    refine (conditions_truth .not h).bind ?_
    rintro bs _ rfl
    exact .boolean _

/-- **A primitive procedure does what it means.** -/
theorem call_meaning (op : Primitive) (h : List.Forall₂ Value.Represents args data) :
    Outcome Value.Represents (op.builtin.call args) (op.meaning data) := by
  unfold Builtin.call meaning
  rw [Primitive.builtin, h.length_eq]
  by_cases hcount : op.arity.accepts data.length = true
  · rw [Arity.validate, if_pos hcount]
    exact run_apply op (h.length_eq ▸ hcount) h
  · rw [Arity.validate, if_neg hcount]
    rfl

end Primitive
end StrictScheme
