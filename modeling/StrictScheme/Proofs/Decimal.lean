/-
# Decimal literals

A decimal literal is a list of digits with a sign before it or none (`Decimal`).  It is written
for an integer of any size: each digit counts for a power of ten by its place, counted from
the right, and the sign says on which side of zero the integer is.

Reading goes through the digits from the left and knows nothing of places.  It finds the same
integer (`ofDigitChars_eq`), of every literal and of nothing else
(`Number.literalValue?_eq_some`).  The integer is a number when it fits 64 bits, whichever end
of the range it is at and however many zeros stand in front (`Number.read?_exact`).
-/

import Mathlib.Data.Nat.Digits.Defs
import Mathlib.Data.Set.List
import StrictScheme.Proofs.Atom

namespace StrictScheme

/-- What may stand before the digits. -/
inductive Sign where
  | plus
  | minus
deriving DecidableEq, Repr

/-- A sign as it is written. -/
def Sign.written : Sign → Char
  | .plus => '+'
  | .minus => '-'

/-- **A decimal literal**: a sign or none, and at least one digit. -/
structure Decimal where
  sign : Option Sign
  /-- The digits, the highest place first. -/
  digits : List (Fin 10)
  digits_ne_nil : digits ≠ []

namespace Decimal

/-- The characters that digits are written with. -/
def digitChars (digits : List (Fin 10)) : List Char :=
  digits.map fun d : Fin 10 => Nat.digitChar d

/-- A literal as it is written. -/
def written (d : Decimal) : List Char :=
  (d.sign.map Sign.written).toList ++ digitChars d.digits

/-- What the digits count for together, each by its place. -/
def magnitude (d : Decimal) : Nat :=
  Nat.ofDigits 10 (d.digits.map Fin.val).reverse

/-- The integer that a literal is written for. -/
def value (d : Decimal) : Int :=
  if d.sign = some .minus then -d.magnitude else d.magnitude

/-! ### Digits -/

/-- The digits are ten characters. -/
theorem isDigit_iff {c : Char} :
    c.isDigit = true ↔ c ∈ Set.range fun d : Fin 10 => Nat.digitChar d := by
  constructor
  · intro hc
    obtain ⟨hlow, hhigh⟩ := Char.isDigit_iff_toNat.1 hc
    have hzero : '0'.toNat = 48 := rfl
    have hnine : '9'.toNat = 57 := rfl
    refine ⟨⟨c.toNat - 48, by omega⟩, Char.toNat_inj.1 ?_⟩
    rw [Nat.toNat_digitChar_of_lt_ten (by dsimp only; omega)]
    dsimp only
    omega
  · rintro ⟨d, rfl⟩
    rw [Nat.isDigit_digitChar, decide_eq_true d.isLt]

/-- Characters that are digits write digits. -/
theorem exists_digitChars {chars : List Char} (h : chars.all Char.isDigit = true) :
    ∃ digits, chars = digitChars digits := by
  have hrange : chars ∈ Set.range (List.map fun d : Fin 10 => Nat.digitChar d) := by
    rw [Set.range_list_map]
    exact fun c hc => isDigit_iff.1 (List.all_eq_true.1 h c hc)
  obtain ⟨digits, rfl⟩ := hrange
  exact ⟨digits, rfl⟩

/-- Written digits are digits. -/
theorem all_isDigit_digitChars (digits : List (Fin 10)) :
    (digitChars digits).all Char.isDigit = true := by
  refine List.all_eq_true.2 fun c hc => isDigit_iff.2 ?_
  obtain ⟨d, -, rfl⟩ := List.mem_map.1 hc
  exact ⟨d, rfl⟩

/-- **Read from the left, digits count for the same as by their places.** -/
theorem ofDigitChars_eq (digits : List (Fin 10)) :
    Nat.ofDigitChars 10 (digitChars digits) 0 =
      Nat.ofDigits 10 (digits.map Fin.val).reverse := by
  induction digits with
  | nil => rfl
  | cons d rest ih =>
    calc Nat.ofDigitChars 10 (digitChars (d :: rest)) 0
        = Nat.ofDigitChars 10 (digitChars rest) d := by
          rw [digitChars, List.map_cons, Nat.ofDigitChars_cons_digitChar_of_lt_ten d.isLt,
            Nat.mul_zero, Nat.zero_add]
          rfl
      _ = 10 ^ rest.length * d + Nat.ofDigits 10 (rest.map Fin.val).reverse := by
          rw [Nat.ofDigitChars_eq_ofDigitChars_zero, ih, digitChars, List.length_map]
      _ = Nat.ofDigits 10 ((d :: rest).map Fin.val).reverse := by
          rw [List.map_cons, Nat.ofDigits_reverse_cons, List.length_map, Nat.add_comm]

/-! ### Signs -/

end Decimal

namespace Number

open Decimal

/-- Written digits give the number that they write down in decimal. -/
theorem magnitude?_digitChars {digits : List (Fin 10)} (hne : digits ≠ []) :
    magnitude? (digitChars digits) = some (Nat.ofDigits 10 (digits.map Fin.val).reverse) := by
  have hchars : digitChars digits ≠ [] := fun hnil => hne (List.map_eq_nil_iff.1 hnil)
  rw [magnitude?, if_pos ⟨hchars, all_isDigit_digitChars digits⟩, ofDigitChars_eq]

/-- What has a magnitude is written with digits, one at least. -/
theorem exists_digits_of_magnitude? {chars : List Char} {m : Nat}
    (h : magnitude? chars = some m) :
    ∃ digits, digits ≠ [] ∧ chars = digitChars digits ∧
      m = Nat.ofDigits 10 (digits.map Fin.val).reverse := by
  unfold magnitude? at h
  split at h
  · next hdigits =>
    obtain ⟨digits, rfl⟩ := exists_digitChars hdigits.2
    rw [ofDigitChars_eq] at h
    refine ⟨digits, ?_, rfl, (Option.some.inj h).symm⟩
    rintro rfl
    exact hdigits.1 rfl
  · cases h

/-- The integer that a literal is written for is found. -/
theorem literalValue?_written (d : Decimal) : literalValue? d.written = some d.value := by
  obtain ⟨sign, digits, hne⟩ := d
  have hmagnitude := magnitude?_digitChars hne
  cases sign with
  | none => exact literalValue?_of_magnitude? hmagnitude
  | some sign =>
    cases sign with
    | plus =>
      change (magnitude? (digitChars digits)).map Int.ofNat = _
      rw [hmagnitude]
      rfl
    | minus =>
      change (magnitude? (digitChars digits)).map (fun n => -Int.ofNat n) = _
      rw [hmagnitude]
      rfl

/-- **A text has a value as a literal if it is one**, and then the integer it is written for. -/
theorem literalValue?_eq_some {chars : List Char} {i : Int} :
    literalValue? chars = some i ↔ ∃ d : Decimal, chars = d.written ∧ i = d.value := by
  constructor
  · intro h
    unfold literalValue? at h
    split at h
    · obtain ⟨m, hm, rfl⟩ := Option.map_eq_some_iff.1 h
      obtain ⟨digits, hne, rfl, rfl⟩ := exists_digits_of_magnitude? hm
      exact ⟨⟨some .plus, digits, hne⟩, rfl, rfl⟩
    · obtain ⟨m, hm, rfl⟩ := Option.map_eq_some_iff.1 h
      obtain ⟨digits, hne, rfl, rfl⟩ := exists_digits_of_magnitude? hm
      exact ⟨⟨some .minus, digits, hne⟩, rfl, rfl⟩
    · obtain ⟨m, hm, rfl⟩ := Option.map_eq_some_iff.1 h
      obtain ⟨digits, hne, rfl, rfl⟩ := exists_digits_of_magnitude? hm
      exact ⟨⟨none, digits, hne⟩, rfl, rfl⟩
  · rintro ⟨d, rfl, rfl⟩
    exact literalValue?_written d

/-- **Reading a number is exact.**  A text reads as a number just if all of it is a decimal literal
and the integer that it is written for is the value of the number.  So a text reads as some number
just if it is a literal for an integer from `-2 ^ 63` to `2 ^ 63 - 1`.  And every number is read
back from its printed form. -/
theorem read?_exact :
    (∀ token n, read? token = some n ↔
      ∃ d : Decimal, token.toList = d.written ∧ n.toInt = d.value) ∧
    (∀ token, (∃ n, read? token = some n) ↔
      ∃ d : Decimal, token.toList = d.written ∧ -2 ^ 63 ≤ d.value ∧ d.value ≤ 2 ^ 63 - 1) ∧
    ∀ n, read? n.print = some n := by
  have hexact (token : String) (n : Number) : read? token = some n ↔
      ∃ d : Decimal, token.toList = d.written ∧ n.toInt = d.value := by
    rw [read?_eq_some, literalValue?_eq_some]
  refine ⟨hexact, fun token => ⟨?_, ?_⟩, read?_print⟩
  · rintro ⟨n, hn⟩
    obtain ⟨d, htoken, hvalue⟩ := (hexact token n).1 hn
    obtain ⟨hlow, hhigh⟩ := fits_toInt n
    exact ⟨d, htoken, by omega, by omega⟩
  · rintro ⟨d, htoken, hlow, hhigh⟩
    cases hn : ofInt? d.value with
    | none => exact absurd ⟨hlow, by omega⟩ (ofInt?_eq_none.1 hn)
    | some n => exact ⟨n, (hexact token n).2 ⟨d, htoken, ofInt?_eq_some.1 hn⟩⟩

/-- Zeros in front do not count, and zero may have a sign. -/
example : read? "-0009223372036854775808" = some Int64.minValue ∧
    read? "9223372036854775808" = none ∧ read? "+-1" = none ∧ read? "-0" = some 0 := by
  decide

end Number
end StrictScheme
