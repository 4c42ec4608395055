/-
# Parentheses that balance

With comments off, every parenthesis of a text is a token of its own, whatever stands beside
it (`Splits.count_parentheses`).  The parentheses of a tree balance, so a text that is read
has as many opening parentheses as closing ones (`count_eq_of_read`).

One parenthesis more or one less cannot keep the balance.  It may join two atoms or cut one
in two, turn a name into a number or end the expression early, but none of this makes a
parenthesis or takes one away, so the text is refused (`read_parenthesis_edit`).
-/

import StrictScheme.Proofs.Reader.Offence

namespace StrictScheme

variable {text : List Char} {tokens : List Token} {c : Char}

/-! ### Parentheses of a text and of its tokens -/

/-- A blank is no parenthesis. -/
theorem ne_parenthesis_of_blank (h : Text.isBlank c = true) : c ≠ '(' ∧ c ≠ ')' := by
  constructor <;> (rintro rfl; exact absurd h (by decide))

/-- Nor is a character of an atom. -/
theorem ne_parenthesis_of_joinsAtom {comments : Bool} (h : joinsAtom comments c = true) :
    c ≠ '(' ∧ c ≠ ')' := by
  have hatom := isAtomChar_of_joinsAtom h
  simp only [Lexeme.isAtomChar, Bool.and_eq_true, bne_iff_ne] at hatom
  exact ⟨hatom.1.2, hatom.2⟩

/-- **The parentheses of a text are those among its tokens**, with comments off. -/
theorem Splits.count_parentheses (h : Splits false text tokens) :
    text.count '(' = tokens.count .opening ∧ text.count ')' = tokens.count .closing := by
  induction h with
  | nil => exact ⟨rfl, rfl⟩
  | blank hc _ ih =>
    obtain ⟨hopening, hclosing⟩ := ne_parenthesis_of_blank hc
    rwa [List.count_cons_of_ne hopening, List.count_cons_of_ne hclosing]
  | comment hon => cases hon
  | opening _ ih =>
    rw [List.count_cons_self, List.count_cons_self, ih.1]
    exact ⟨rfl, ih.2⟩
  | closing _ ih =>
    rw [List.count_cons_self, List.count_cons_self, ih.2]
    exact ⟨ih.1, rfl⟩
  | @atom word rest _ _ hword _ _ ih =>
    have hopening : word.count '(' = 0 :=
      List.count_eq_zero.2 fun hmem => (ne_parenthesis_of_joinsAtom (hword _ hmem)).1 rfl
    have hclosing : word.count ')' = 0 :=
      List.count_eq_zero.2 fun hmem => (ne_parenthesis_of_joinsAtom (hword _ hmem)).2 rfl
    rw [List.count_append, List.count_append, hopening, hclosing, Nat.zero_add, Nat.zero_add]
    exact ih

/-- **The parentheses of a text that is read balance.** -/
theorem count_eq_of_read {source : String} {tree : SExpr} (h : read false source = .ok tree) :
    source.toList.count '(' = source.toList.count ')' := by
  obtain ⟨hopening, hclosing⟩ := (writes_of_read_eq_ok h).splits.count_parentheses
  rw [hopening, hclosing, tree.count_tokens]

/-! ### Texts with a parenthesis too many or too few -/

/-- The second text is the first one with a parenthesis put in, at any place. -/
def GainsParenthesis (source longer : String) : Prop :=
  ∃ before c after, (c = '(' ∨ c = ')') ∧ source.toList = before ++ after ∧
    longer.toList = before ++ c :: after

/-- One of two texts that differ by a parenthesis is out of balance. -/
theorem GainsParenthesis.unbalanced {source longer : String} (h : GainsParenthesis source longer)
    (hsource : source.toList.count '(' = source.toList.count ')') :
    longer.toList.count '(' ≠ longer.toList.count ')' := by
  obtain ⟨before, c, after, hc, hshort, hlong⟩ := h
  rw [hshort, List.count_append, List.count_append] at hsource
  rw [hlong, List.count_append, List.count_append]
  rcases hc with rfl | rfl
  · rw [List.count_cons_self, List.count_cons_of_ne (by decide)]
    omega
  · rw [List.count_cons_self, List.count_cons_of_ne (by decide)]
    omega

/-- **A parenthesis more or less is always noticed.**  Take a text that is read with comments off,
and put one parenthesis in at any place, or take any one of its parentheses out: what results is
refused. -/
theorem read_parenthesis_edit {source edited : String} {tree : SExpr}
    (h : read false source = .ok tree)
    (hedit : GainsParenthesis source edited ∨ GainsParenthesis edited source) :
    ∃ fault, read false edited = .error fault := by
  cases hread : read false edited with
  | error fault => exact ⟨fault, rfl⟩
  | ok other =>
    have hsource := count_eq_of_read h
    have hbalanced := count_eq_of_read hread
    rcases hedit with hgains | hloses
    · exact absurd hbalanced (hgains.unbalanced hsource)
    · exact absurd hsource (hloses.unbalanced hbalanced)

/-- Without its inner closing parenthesis the atoms of this text join; with another one there, the
expression ends early. -/
theorem nested_parenthesis_edit :
    read false "(f(-)1)" = .ok (.list [.atom "f", .list [.atom "-"], .atom "1"]) ∧
      (∃ fault, read false "(f(-1)" = .error fault) ∧
      ∃ fault, read false "(f(-))1)" = .error fault := by
  have hread : read false "(f(-)1)" = .ok (.list [.atom "f", .list [.atom "-"], .atom "1"]) := by
    rfl
  have hloses : GainsParenthesis "(f(-1)" "(f(-)1)" :=
    ⟨['(', 'f', '(', '-'], ')', ['1', ')'], .inr rfl, rfl, rfl⟩
  have hgains : GainsParenthesis "(f(-)1)" "(f(-))1)" :=
    ⟨['(', 'f', '(', '-', ')'], ')', ['1', ')'], .inr rfl, rfl, rfl⟩
  exact ⟨hread, read_parenthesis_edit hread (.inr hloses),
    read_parenthesis_edit hread (.inl hgains)⟩

end StrictScheme
