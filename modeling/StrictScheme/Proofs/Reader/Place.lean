/-
# Where tokens stand

`ScansAt` says where the tokens of a text stand, read from the front; `Scans` gives the
tokens alone.  The scanner finds each of them at its place (`scansAt_iff`), and there the
text goes on with what an error message shows of the token (`ScansAt.standsIn`).
-/

import StrictScheme.Proofs.Reader.Comment

namespace StrictScheme

/-! ### The places of tokens -/

/-- **The tokens of a text and their places**, for a text that starts at some position. -/
inductive ScansAt (comments : Bool) : Nat → List Char → List Lexeme → Prop
  | nil (position : Nat) : ScansAt comments position [] []
  | blank {position : Nat} {c : Char} {rest : List Char} {lexemes : List Lexeme}
      (hc : Text.isBlank c = true) (h : ScansAt comments (position + 1) rest lexemes) :
      ScansAt comments position (c :: rest) lexemes
  | comment {position : Nat} {line rest : List Char} {lexemes : List Lexeme}
      (hon : comments = true) (hline : ∀ c ∈ line, Comment.isWithinLine c = true)
      (hend : LineEnd rest) (h : ScansAt comments (position + (line.length + 1)) rest lexemes) :
      ScansAt comments position (';' :: line ++ rest) lexemes
  | brokenComment {position : Nat} {rest : List Char} (hon : comments = true)
      (h : BreaksFrom (';' :: rest) 0) :
      ScansAt comments position (';' :: rest)
        [⟨position, .brokenComment (String.ofList (';' :: rest))⟩]
  | opening {position : Nat} {rest : List Char} {lexemes : List Lexeme}
      (h : ScansAt comments (position + 1) rest lexemes) :
      ScansAt comments position ('(' :: rest) (⟨position, .opening⟩ :: lexemes)
  | closing {position : Nat} {rest : List Char} {lexemes : List Lexeme}
      (h : ScansAt comments (position + 1) rest lexemes) :
      ScansAt comments position (')' :: rest) (⟨position, .closing⟩ :: lexemes)
  | atom {position : Nat} {word rest : List Char} {lexemes : List Lexeme} (hne : word ≠ [])
      (hword : ∀ c ∈ word, joinsAtom comments c = true) (hend : EndsAtom comments rest)
      (h : ScansAt comments (position + word.length) rest lexemes) :
      ScansAt comments position (word ++ rest)
        (⟨position, .atom (String.ofList word)⟩ :: lexemes)

variable {comments : Bool} {text rest : List Char} {position : Nat} {lexemes : List Lexeme}
  {lexeme : Lexeme}

/-! ### The scanner finds the places -/

/-- A broken comment stands before a broken line. -/
theorem isBroken_of_breaksFrom (h : BreaksFrom (';' :: rest) 0) :
    Comment.isBroken rest = true := by
  cases hbroken : Comment.isBroken rest with
  | true => rfl
  | false =>
    obtain ⟨line, stop, rfl, hline, hstop⟩ := exists_run Comment.isWithinLine rest
    have hend := (Comment.isBroken_append hline hstop).1 hbroken
    exact absurd h (not_breaksFrom_comment hline hend (Nat.succ_pos _))

namespace ScansAt

/-- The scanner finds no other tokens at no other places. -/
theorem scanAt_eq (h : ScansAt comments position text lexemes) :
    Lexeme.scanAt comments position text = lexemes := by
  induction h with
  | nil position => exact Lexeme.scanAt_nil comments position
  | blank hc _ ih => rw [Lexeme.scanAt_blank hc, ih]
  | comment hon hline hend _ ih =>
    subst hon
    rw [Lexeme.scanAt_comment hline hend, ih]
  | brokenComment hon h =>
    subst hon
    exact Lexeme.scanAt_broken (isBroken_of_breaksFrom h) _
  | opening _ ih => rw [Lexeme.scanAt_opening, ih]
  | closing _ ih => rw [Lexeme.scanAt_closing, ih]
  | atom hne hword hend _ ih => rw [Lexeme.scanAt_atom hne hword hend, ih]

/-- What it finds are the tokens of the text at their places. -/
theorem of_scanAt (comments : Bool) (position : Nat) (text : List Char) :
    ScansAt comments position text (Lexeme.scanAt comments position text) := by
  induction text using text_induction comments generalizing position with
  | nil =>
    rw [Lexeme.scanAt_nil]
    exact .nil position
  | blank c rest hc ih =>
    rw [Lexeme.scanAt_blank hc]
    exact .blank hc (ih _)
  | comment line rest hon hline hend ih =>
    subst hon
    rw [Lexeme.scanAt_comment hline hend]
    exact .comment rfl hline hend (ih _)
  | broken rest hon hbroken =>
    subst hon
    rw [Lexeme.scanAt_broken hbroken]
    exact .brokenComment rfl (breaksFrom_zero hbroken)
  | opening rest ih =>
    rw [Lexeme.scanAt_opening]
    exact .opening (ih _)
  | closing rest ih =>
    rw [Lexeme.scanAt_closing]
    exact .closing (ih _)
  | atom word rest hne hword hend ih =>
    rw [Lexeme.scanAt_atom hne hword hend]
    exact .atom hne hword hend (ih _)

end ScansAt

/-- **The scanner finds each token at its place.** -/
theorem scansAt_iff :
    ScansAt comments 0 text lexemes ↔ Lexeme.scan comments text = lexemes := by
  rw [Lexeme.scan_eq]
  constructor
  · exact ScansAt.scanAt_eq
  · rintro rfl
    exact .of_scanAt comments 0 text

/-- A token is in a text that starts at `position`: at its place, the text goes on with what is
shown of it. -/
def Lexeme.StandsIn (position : Nat) (text : List Char) (lexeme : Lexeme) : Prop :=
  ∃ front rest, text = front ++ rest ∧ lexeme.position = position + front.length ∧ rest ≠ [] ∧
    lexeme.token.print.toList <+: rest

namespace Lexeme.StandsIn

/-- A token that a text starts with stands in it. -/
theorem start (hne : text ≠ []) (hshown : lexeme.token.print.toList <+: text) :
    StandsIn lexeme.position text lexeme :=
  ⟨[], text, rfl, rfl, hne, hshown⟩

/-- A token stands in a longer text where it stood, as far behind its start. -/
theorem append (line : List Char) (h : StandsIn (position + line.length) rest lexeme) :
    StandsIn position (line ++ rest) lexeme := by
  obtain ⟨front, more, rfl, hposition, hne, hshown⟩ := h
  refine ⟨line ++ front, more, (List.append_assoc ..).symm, ?_, hne, hshown⟩
  rw [hposition, List.length_append, Nat.add_assoc]

end Lexeme.StandsIn

/-- **Each token stands at its place.** -/
theorem ScansAt.standsIn (h : ScansAt comments position text lexemes) (hmem : lexeme ∈ lexemes) :
    lexeme.StandsIn position text := by
  induction h with
  | nil => exact absurd hmem List.not_mem_nil
  | @blank _ c _ _ _ _ ih => exact .append [c] (ih hmem)
  | comment _ _ _ _ ih => exact .append _ (ih hmem)
  | brokenComment _ _ =>
    obtain rfl := List.mem_singleton.1 hmem
    refine .start (List.cons_ne_nil _ _) ?_
    rw [Token.print, String.toList_ofList, String.toList_ofList]
    exact List.take_prefix ..
  | opening _ ih =>
    rcases List.mem_cons.1 hmem with rfl | hmem
    · exact .start (List.cons_ne_nil _ _) (by simp [Token.print])
    · exact .append ['('] (ih hmem)
  | closing _ ih =>
    rcases List.mem_cons.1 hmem with rfl | hmem
    · exact .start (List.cons_ne_nil _ _) (by simp [Token.print])
    · exact .append [')'] (ih hmem)
  | atom hne _ _ _ ih =>
    rcases List.mem_cons.1 hmem with rfl | hmem
    · refine .start (List.append_ne_nil_of_left_ne_nil hne _) ?_
      rw [Token.print, String.toList_ofList]
      exact List.prefix_append ..
    · exact .append _ (ih hmem)

end StrictScheme
