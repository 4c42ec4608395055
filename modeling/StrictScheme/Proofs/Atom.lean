/-
# What tokens stand for

A literal that is printed reads back as the number or truth value it was printed from
(`Number.read?_print`, `Atom.ofToken_print`, `Atom.ofToken_printBoolean`).

A name is a token that is no literal.  In a source text a token that starts like a
literal has to be one, so names do not start like literals there: `IsIdentifier` says
so character by character, and `isIdentifier_of_refusal?` that this is what the reader
and the binding forms let through.
-/

import Mathlib.Algebra.Ring.Int.Defs
import StrictScheme.Atom
import StrictScheme.Text.Blank

namespace StrictScheme

namespace Number

/-! ### Integers that are numbers -/

/-- An integer that fits 64 bits. -/
def Fits (i : Int) : Prop :=
  -2 ^ 63 ≤ i ∧ i < 2 ^ 63

instance (i : Int) : Decidable (Fits i) :=
  inferInstanceAs (Decidable (_ ∧ _))

/-- The value of a number is in range. -/
theorem fits_toInt (n : Number) : Fits n.toInt :=
  ⟨Int64.le_toInt n, Int64.toInt_lt n⟩

/-- **An integer that fits is the value of one number**, and no other integer is. -/
theorem ofInt?_eq_some {i : Int} {n : Number} : ofInt? i = some n ↔ n.toInt = i := by
  have hmin : Int64.minValue.toInt = -2 ^ 63 := rfl
  have hmax : Int64.maxValue.toInt = 2 ^ 63 - 1 := rfl
  rw [ofInt?, hmin, hmax]
  constructor
  · intro h
    split at h
    · next hfits =>
      obtain rfl := Option.some.inj h
      exact Int64.toInt_ofInt_of_le hfits.1 (by omega)
    · cases h
  · rintro rfl
    have hfits := n.fits_toInt
    unfold Fits at hfits
    rw [if_pos ⟨hfits.1, by omega⟩, Int64.ofInt_toInt]

/-- No number has a value that is out of range. -/
theorem ofInt?_eq_none {i : Int} : ofInt? i = none ↔ ¬ Fits i := by
  rw [ofInt?, ite_eq_right_iff]
  have hmin : Int64.minValue.toInt = -2 ^ 63 := rfl
  have hmax : Int64.maxValue.toInt = 2 ^ 63 - 1 := rfl
  simp only [hmin, hmax, Fits, reduceCtorEq, imp_false]
  omega

/-! ### Printed numbers -/

/-- The digits of a natural number give that number. -/
theorem magnitude?_toDigits (m : Nat) : magnitude? (Nat.toDigits 10 m) = some m := by
  have hdigits : (Nat.toDigits 10 m).all Char.isDigit = true :=
    List.all_eq_true.2 fun c hc => Nat.isDigit_of_mem_toDigits (by decide) (by decide) hc
  rw [magnitude?, if_pos ⟨Nat.toDigits_ne_nil, hdigits⟩, Nat.ofDigitChars_ten_toDigits]

/-- Digits with no sign before them. -/
theorem literalValue?_of_magnitude? {digits : List Char} {m : Nat}
    (h : magnitude? digits = some m) : literalValue? digits = some (Int.ofNat m) := by
  unfold literalValue?
  split
  · exact absurd h (by simp [magnitude?])
  · exact absurd h (by simp [magnitude?])
  · rw [h, Option.map_some]

/-- The written form of an integer is a literal for it. -/
theorem literalValue?_toString (i : Int) : literalValue? (toString i).toList = some i := by
  rw [Int.toString_eq_repr, Int.repr_eq_if]
  split
  · next hnonneg =>
    rw [Nat.toList_repr, literalValue?_of_magnitude? (magnitude?_toDigits _)]
    exact congrArg some (Int.toNat_of_nonneg hnonneg)
  · next hneg =>
    have hminus : ("-" ++ (-i).toNat.repr).toList = '-' :: Nat.toDigits 10 (-i).toNat := by
      rw [String.toList_append, Nat.toList_repr]
      rfl
    rw [hminus, literalValue?, magnitude?_toDigits, Option.map_some, Int.ofNat_eq_natCast,
      Int.toNat_of_nonneg (by omega), Int.neg_neg]

/-- **The number that a literal denotes has the value of the literal.** -/
theorem read?_eq_some {token : String} {n : Number} :
    read? token = some n ↔ literalValue? token.toList = some n.toInt := by
  rw [read?, Option.bind_eq_some_iff]
  simp only [ofInt?_eq_some, exists_eq_right']

/-- A token denotes no number unless it is a literal whose value fits. -/
theorem read?_eq_none {token : String} :
    read? token = none ↔ ∀ i, literalValue? token.toList = some i → ¬ Fits i := by
  simp only [read?, Option.bind_eq_none_iff, ofInt?_eq_none]

/-- **A printed number reads back as itself.** -/
theorem read?_print (n : Number) : read? n.print = some n :=
  read?_eq_some.2 (literalValue?_toString n.toInt)

/-- Digits that give a number start with one. -/
theorem exists_cons_of_magnitude? {digits : List Char} {m : Nat} (h : magnitude? digits = some m) :
    ∃ c rest, digits = c :: rest ∧ c.isDigit = true := by
  unfold magnitude? at h
  split at h
  · next hdigits =>
    obtain ⟨c, rest, rfl⟩ := List.exists_cons_of_ne_nil hdigits.1
    exact ⟨c, rest, rfl, List.all_eq_true.1 hdigits.2 c List.mem_cons_self⟩
  · cases h

end Number

namespace Atom

variable {token name : String} {chars : List Char}

/-! ### Tokens that look like numbers -/

/-- A token starts like a number: with a digit, or with a sign and a digit. -/
def StartsLikeNumber (chars : List Char) : Prop :=
  (∃ c rest, chars = c :: rest ∧ c.isDigit = true) ∨
    ∃ sign c rest, (sign = '+' ∨ sign = '-') ∧ chars = sign :: c :: rest ∧ c.isDigit = true

/-- What looks like a number starts with a digit, or with a sign and a digit. -/
theorem looksNumeric_iff : looksNumeric chars = true ↔ StartsLikeNumber chars := by
  have hsigned {sign c : Char} {rest : List Char} (hsign : sign = '+' ∨ sign = '-') :
      StartsLikeNumber (sign :: c :: rest) ↔ c.isDigit = true := by
    refine ⟨?_, fun hc => .inr ⟨sign, c, rest, hsign, rfl, hc⟩⟩
    rintro (⟨c', rest', heq, hc⟩ | ⟨sign', c', rest', -, heq, hc⟩)
    · obtain ⟨rfl, -⟩ := List.cons.inj heq
      rcases hsign with rfl | rfl <;> exact absurd hc (by decide)
    · obtain ⟨-, heq⟩ := List.cons.inj heq
      obtain ⟨rfl, -⟩ := List.cons.inj heq
      exact hc
  unfold looksNumeric
  split
  · exact (hsigned (.inl rfl)).symm
  · exact (hsigned (.inr rfl)).symm
  · next c rest hplus hminus =>
    refine ⟨fun hc => .inl ⟨c, rest, rfl, hc⟩, ?_⟩
    rintro (⟨c', rest', heq, hc⟩ | ⟨sign, c', rest', hsign, heq, -⟩)
    · exact (List.cons.inj heq).1 ▸ hc
    · obtain ⟨rfl, rfl⟩ := List.cons.inj heq
      rcases hsign with rfl | rfl
      · exact absurd rfl (hplus c' rest' rfl)
      · exact absurd rfl (hminus c' rest' rfl)
  · exact ⟨nofun, by rintro (⟨_, _, heq, -⟩ | ⟨_, _, _, -, heq, -⟩) <;> cases heq⟩

/-- Literals start like numbers, whatever their size. -/
theorem startsLikeNumber_of_literalValue? {i : Int} (h : Number.literalValue? chars = some i) :
    StartsLikeNumber chars := by
  unfold Number.literalValue? at h
  split at h
  · next digits =>
    obtain ⟨m, hm, -⟩ := Option.map_eq_some_iff.1 h
    obtain ⟨c, rest, rfl, hc⟩ := Number.exists_cons_of_magnitude? hm
    exact .inr ⟨'+', c, rest, .inl rfl, rfl, hc⟩
  · next digits =>
    obtain ⟨m, hm, -⟩ := Option.map_eq_some_iff.1 h
    obtain ⟨c, rest, rfl, hc⟩ := Number.exists_cons_of_magnitude? hm
    exact .inr ⟨'-', c, rest, .inr rfl, rfl, hc⟩
  · obtain ⟨m, hm, -⟩ := Option.map_eq_some_iff.1 h
    exact .inl (Number.exists_cons_of_magnitude? hm)

/-- **What the reader does not refuse is a number just if it starts like one.** -/
theorem exists_number_iff_of_refusal? (h : refusal? token = none) :
    (∃ n, Number.read? token = some n) ↔ StartsLikeNumber token.toList := by
  constructor
  · rintro ⟨n, hn⟩
    exact startsLikeNumber_of_literalValue? (Number.read?_eq_some.1 hn)
  · intro hstarts
    rw [← looksNumeric_iff] at hstarts
    refine Option.ne_none_iff_exists'.1 fun hnone => ?_
    simp only [refusal?, hstarts, hnone, Option.isNone_none, and_self, if_true] at h
    split at h <;> cases h

/-! ### Literals -/

/-- A truth value can be read again. -/
theorem ofToken_printBoolean (b : Bool) : ofToken (printBoolean b) = .boolean b := by
  cases b <;> rfl

/-- It is never taken for a number. -/
theorem read?_printBoolean (b : Bool) : Number.read? (printBoolean b) = none := by
  cases b <;> decide

/-- A token stands for the number that it denotes as a literal. -/
theorem ofToken_eq_number {n : Number} :
    ofToken token = .number n ↔ Number.read? token = some n := by
  unfold ofToken
  split
  · next htrue => simp [htrue, read?_printBoolean]
  · split
    · next hfalse => simp [hfalse, read?_printBoolean]
    · cases Number.read? token <;> simp

/-- A number can be read again. -/
theorem ofToken_print (n : Number) : ofToken n.print = .number n :=
  ofToken_eq_number.2 (Number.read?_print n)

/-! ### Names -/

/-- A token is a name when it is neither a truth value nor a decimal literal. -/
theorem ofToken_eq_identifier :
    ofToken token = .identifier name ↔
      token = name ∧ token ≠ printBoolean true ∧ token ≠ printBoolean false ∧
        Number.read? token = none := by
  unfold ofToken
  by_cases htrue : token = printBoolean true
  · simp [htrue]
  · by_cases hfalse : token = printBoolean false
    · rw [if_neg htrue, if_pos hfalse]
      simp [hfalse]
    · rw [if_neg htrue, if_neg hfalse]
      cases hread : Number.read? token with
      | some n => simp
      | none => simp [htrue, hfalse]

/-- **A token is a name unless it is `#t`, `#f` or the literal of a 64-bit integer.** -/
theorem ofToken_eq_identifier_self :
    ofToken token = .identifier token ↔
      token ≠ printBoolean true ∧ token ≠ printBoolean false ∧
        ∀ i, Number.literalValue? token.toList = some i → ¬ Number.Fits i := by
  rw [ofToken_eq_identifier, Number.read?_eq_none, and_iff_right rfl]

end Atom

/-- **What names look like in a source text.**  A name has at least one character, none of them
blank or a parenthesis, and it starts neither with `#` nor with a digit nor with a sign and a
digit. -/
structure IsIdentifier (name : String) : Prop where
  ne_empty : name ≠ ""
  chars : ∀ c ∈ name.toList, Text.isBlank c = false ∧ c ≠ '(' ∧ c ≠ ')'
  special : ∀ rest, name.toList ≠ '#' :: rest
  digit : ∀ c rest, name.toList = c :: rest → c.isDigit = false
  signed : ∀ sign c rest, sign = '+' ∨ sign = '-' → name.toList = sign :: c :: rest →
    c.isDigit = false

/-- **A name that the reader does not refuse looks like one.** -/
theorem isIdentifier_of_refusal? {name : String} (hne : name ≠ "")
    (hchars : ∀ c ∈ name.toList, Text.isBlank c = false ∧ c ≠ '(' ∧ c ≠ ')')
    (hrefusal : Atom.refusal? name = none) (hname : Atom.ofToken name = .identifier name) :
    IsIdentifier name := by
  obtain ⟨-, htrue, hfalse, hread⟩ := Atom.ofToken_eq_identifier.1 hname
  have hspecial : Atom.looksSpecial name.toList = false := by
    refine Bool.eq_false_iff.2 fun h => ?_
    simp [Atom.refusal?, h, htrue, hfalse] at hrefusal
  have hnumeric : ¬ Atom.StartsLikeNumber name.toList := by
    rw [← Atom.exists_number_iff_of_refusal? hrefusal, hread]
    exact nofun
  constructor
  · exact hne
  · exact hchars
  · intro rest heq
    simp [heq, Atom.looksSpecial] at hspecial
  · intro c rest heq
    exact Bool.eq_false_iff.2 fun hc => hnumeric (.inl ⟨c, rest, heq, hc⟩)
  · intro sign c rest hsign heq
    exact Bool.eq_false_iff.2 fun hc => hnumeric (.inr ⟨sign, c, rest, hsign, heq, hc⟩)

end StrictScheme
