/-
# What a calculation means

A calculation is a tree of number and boolean literals and of lists that are headed by the name
of a primitive procedure (`Calculation.tree`).  It has a meaning that does without scopes,
levels and words of 64 bits: a literal means the datum that it is written for, and a list means
what the procedure means for the data of its operands (`Calculation.meaning`).  The operands
come first, from left to right, each of them to its depth; the first error that comes up is the
meaning of the whole.

Where the names stand for the primitive procedures, evaluation finds this meaning, if it has as
many levels as the tree is high, and it changes nothing (`Calculation.eval_tree`).
-/

import StrictScheme.Proofs.Eval.Height
import StrictScheme.Proofs.Eval.Substitution
import StrictScheme.Proofs.Primitive.Meaning

namespace StrictScheme

/-- A decimal literal, and the integer that it is written for, which fits 64 bits.  These are all
tokens that stand for a number (`Atom.ofToken_eq_number`, `Number.read?_eq_some`). -/
structure Numeral where
  token : String
  value : Int
  literal : Number.literalValue? token.toList = some value
  fits : Number.Fits value

/-- Literals, and primitive procedures applied to any number of operands. -/
inductive Calculation where
  | number (numeral : Numeral)
  | boolean (b : Bool)
  | apply (op : Primitive) (operands : List Calculation)

namespace Calculation

mutual

/-- A calculation as a tree. -/
def tree : Calculation → SExpr
  | .number numeral => .atom numeral.token
  | .boolean b => .atom (printBoolean b)
  | .apply op operands => .list (.atom op.name :: trees operands)

/-- Calculations as trees that stand one after the other. -/
def trees : List Calculation → List SExpr
  | [] => []
  | first :: rest => first.tree :: trees rest

end

mutual

/-- The datum that a calculation means, or the error. -/
def meaning : Calculation → Except Error Datum
  | .number numeral => .ok (.integer numeral.value)
  | .boolean b => .ok (.truth b)
  | .apply op operands => do
    let data ← meanings operands
    op.meaning data

/-- The data that operands mean, from left to right. -/
def meanings : List Calculation → Except Error (List Datum)
  | [] => .ok []
  | first :: rest => do
    let d ← first.meaning
    let ds ← meanings rest
    return d :: ds

end

end Calculation

open StrictScheme.Action

variable {α β : Type} {limit : UInt64} {store : Store} {s : ScopeId}

/-! ### Atoms -/

/-- A numeral reads as the number it stands for. -/
theorem Numeral.ofToken (numeral : Numeral) :
    ∃ n, Atom.ofToken numeral.token = .number n ∧ n.toInt = numeral.value := by
  obtain ⟨token, value, hliteral, hfits⟩ := numeral
  cases hn : Number.ofInt? value with
  | none => exact absurd hfits (Number.ofInt?_eq_none.1 hn)
  | some n =>
    have hvalue : n.toInt = value := Number.ofInt?_eq_some.1 hn
    have hread : Number.read? token = some n := Number.read?_eq_some.2 (hvalue ▸ hliteral)
    exact ⟨n, Atom.ofToken_eq_number.2 hread, hvalue⟩

/-- The name of a primitive procedure is no keyword. -/
theorem Primitive.specialForm?_name (op : Primitive) :
    (SExpr.atom op.name).specialForm? = none := by
  cases op <;> decide

/-- The name of a primitive reads as a name. -/
theorem Primitive.ofToken_name (op : Primitive) : Atom.ofToken op.name = .identifier op.name := by
  cases op <;> decide

/-! ### Evaluation -/

/-- Computations that leave the store alone, one after the other. -/
theorem Action.bind_eq_ofExcept {x : Action α} {f : α → Action β} {u : Except Error α}
    {g : α → Except Error β} (hx : x store = Action.ofExcept u store)
    (hf : ∀ a, f a store = Action.ofExcept (g a) store) :
    (x >>= f) store = Action.ofExcept (u >>= g) store := by
  simp only [Bind.bind, EStateM.bind, hx]
  cases u with
  | error e => rfl
  | ok a => exact hf a

namespace Calculation

mutual

/-- **Evaluation finds the meaning of a calculation**, and leaves the store alone. -/
theorem eval_tree (limit : UInt64)
    (hnames : ∀ op : Primitive, store.lookup s op.name = some (.builtin op.builtin)) :
    (calculation : Calculation) → {fuel : Nat} → calculation.tree.height ≤ fuel →
    ∃ x, eval limit fuel s calculation.tree store = Action.ofExcept x store ∧
      Outcome Value.Represents x calculation.meaning
  | calculation, 0, hfuel => absurd calculation.tree.height_pos (Nat.not_lt_of_le hfuel)
  | .number numeral, fuel + 1, _ => by
    obtain ⟨n, hn, hvalue⟩ := numeral.ofToken
    refine ⟨.ok (.number n), ?_, ?_⟩
    · rw [tree, eval, evalAtom, hn]
      rfl
    · rw [meaning, ← hvalue]
      exact .number n
  | .boolean b, fuel + 1, _ => by
    refine ⟨.ok (.boolean b), ?_, .boolean b⟩
    rw [tree, eval, evalAtom, Atom.ofToken_printBoolean]
    rfl
  | .apply op operands, fuel + 1, hfuel => by
    have hlevels := SExpr.height_list_le.1 hfuel
    obtain ⟨us, hus, hmeanings⟩ := evalOperands_trees limit hnames operands fun tree hmem =>
      hlevels tree (List.mem_cons_of_mem _ hmem)
    -- the name is an element of the list too, so there is a level left to look it up
    have hhead : eval limit fuel s (.atom op.name) store = .ok (.builtin op.builtin) store := by
      cases fuel with
      | zero => exact absurd (hlevels _ List.mem_cons_self) (Nat.not_succ_le_zero 0)
      | succ fuel => rw [eval, evalAtom_identifier op.ofToken_name, hnames]
    refine ⟨us >>= op.builtin.call, ?_, hmeanings.bind fun args data h => op.call_meaning h⟩
    have hcall : eval limit (fuel + 1) s (.list (.atom op.name :: trees operands)) store =
        (do let args ← evalOperands (eval limit fuel s) (trees operands)
            Action.ofExcept (op.builtin.call args) : Action Value) store := by
      rw [eval, op.specialForm?_name]
      simp only [Bind.bind, EStateM.bind, hhead]
    rw [tree, hcall]
    exact bind_eq_ofExcept hus fun args => rfl

/-- Operands are evaluated to their meanings, and leave the store. -/
theorem evalOperands_trees (limit : UInt64)
    (hnames : ∀ op : Primitive, store.lookup s op.name = some (.builtin op.builtin)) {fuel : Nat} :
    (operands : List Calculation) → (∀ tree ∈ trees operands, tree.height ≤ fuel) →
    ∃ x, evalOperands (eval limit fuel s) (trees operands) store = Action.ofExcept x store ∧
      Outcome (List.Forall₂ Value.Represents) x (meanings operands)
  | [], _ => ⟨.ok [], rfl, .nil⟩
  | first :: rest, hfuel => by
    obtain ⟨hfirst, hrest⟩ := List.forall_mem_cons.1 hfuel
    obtain ⟨u, hu, hmeaning⟩ := eval_tree limit hnames first hfirst
    obtain ⟨us, hus, hmeanings⟩ := evalOperands_trees limit hnames rest hrest
    refine ⟨do let v ← u
               let vs ← us
               return v :: vs, ?_, ?_⟩
    · exact bind_eq_ofExcept hu fun v => bind_eq_ofExcept hus fun vs => rfl
    · exact hmeaning.bind fun v d hv => hmeanings.bind fun vs ds hvs => hvs.cons hv

end

/-- **Evaluation returns what a calculation means**, in a scope from which the names of the
primitive procedures stand for these, and with as many levels as the tree is high.  If the
calculation means a datum then the result is the value that represents it, and otherwise the
error is the one that it means.  No scope is changed. -/
theorem evaluate_meaning
    (hnames : ∀ op : Primitive, store.lookup s op.name = some (.builtin op.builtin))
    (calculation : Calculation) (hlimit : calculation.tree.height ≤ limit.toNat) :
    match calculation.meaning with
    | .ok d => ∃ v, v.Represents d ∧ evaluate limit s calculation.tree store = .ok v store
    | .error e => evaluate limit s calculation.tree store = .error e store := by
  obtain ⟨x, hx, houtcome⟩ := eval_tree limit hnames calculation hlimit
  have heval : evaluate limit s calculation.tree store = Action.ofExcept x store := hx
  rw [heval]
  cases hmeaning : calculation.meaning with
  | ok d =>
    rw [hmeaning] at houtcome
    cases x with
    | ok v => exact ⟨v, houtcome, rfl⟩
    | error e => exact houtcome.elim
  | error e =>
    rw [hmeaning] at houtcome
    cases x with
    | ok v => exact houtcome.elim
    | error e' => exact congrArg (EStateM.Result.error · store) houtcome

/-- A difference has a value.  A conjunction of a number, a quotient by zero and a sum of too few
numbers fails at the quotient: all operands are evaluated, in their order, before the first of
them is refused for its kind. -/
theorem difference_evaluate_meaning :
    let store := (({} : Store).newScope none globalBindings).2
    let product : SExpr := .list [.atom "*", .atom "2", .atom "+3"]
    evaluate 3 0 (.list [.atom "-", product, .atom "07"]) store = .ok (.number (-1)) store ∧
    evaluate 3 0 (.list [.atom "and", product, .list [.atom "/", .atom "07", .atom "0"],
      .list [.atom "+", .atom "07"]]) store = .error (.arithmetic "division by zero") store := by
  intro store product
  have hnames (op : Primitive) : store.lookup 0 op.name = some (.builtin op.builtin) := by
    cases op <;> rfl
  let two : Calculation := .number ⟨"2", 2, by decide, by decide⟩
  let three : Calculation := .number ⟨"+3", 3, by decide, by decide⟩
  let seven : Calculation := .number ⟨"07", 7, by decide, by decide⟩
  let zero : Calculation := .number ⟨"0", 0, by decide, by decide⟩
  let difference : Calculation := .apply .subtract [.apply .multiply [two, three], seven]
  let conjunction : Calculation := .apply .and [.apply .multiply [two, three],
    .apply .divide [seven, zero], .apply .add [seven]]
  have hdifference : difference.tree.height ≤ (3 : UInt64).toNat := by decide
  have hconjunction : conjunction.tree.height ≤ (3 : UInt64).toNat := by decide
  constructor
  · obtain ⟨v, hv, heval⟩ := evaluate_meaning hnames difference hdifference
    obtain rfl : v = .number (-1) := hv.unique (.number (-1))
    exact heval
  · exact evaluate_meaning hnames conjunction hconjunction

end Calculation
end StrictScheme
