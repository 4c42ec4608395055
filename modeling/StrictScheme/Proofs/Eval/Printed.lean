/-
# Reading printed values

The written form of a number or a truth value is a literal.  A literal is one word, which
the reader does not refuse, so that it is read as that one atom (`read_literal`) and
evaluates to the value again.

The written form of a procedure starts with `#<`.  Whatever follows, the first token of such
a text is an atom that starts with `#` and is no truth value: the reader refuses it, and
never gets to see the name, the parameters or the body (`read_of_hash`).
-/

import StrictScheme.Proofs.Eval.Names
import StrictScheme.Proofs.Reader.Layout
import StrictScheme.Proofs.Reader.Offence

namespace StrictScheme

variable {comments : Bool} {token name text : String} {chars rest : List Char} {c : Char} {i : Int}
  {v : Value}

/-! ### Literals in a source text -/

/-- Digits and signs can be part of an atom. -/
theorem joinsAtom_of_numeral (h : c = '+' ∨ c = '-' ∨ c.isDigit = true) :
    joinsAtom comments c = true := by
  have hchar : Text.isBlank c = false ∧ c ≠ '(' ∧ c ≠ ')' ∧ c ≠ ';' := by
    rcases h with rfl | rfl | hdigit
    · decide
    · decide
    · simp only [Char.isDigit, Bool.and_eq_true, decide_eq_true_eq] at hdigit
      have hlow : 48 ≤ c.toNat := hdigit.1
      have hhigh : c.toNat ≤ 57 := hdigit.2
      refine ⟨?_, ?_, ?_, ?_⟩
      · simp [Text.isBlank, Text.blankRanges, Text.Ranges.contains]
        omega
      all_goals
        rintro rfl
        exact absurd hdigit (by decide)
  obtain ⟨hblank, hopening, hclosing, hsemicolon⟩ := hchar
  simp [joinsAtom, Lexeme.isAtomChar, hblank, hopening, hclosing, hsemicolon]

/-- A decimal literal is made of digits, behind a sign or none. -/
theorem Number.numeral_of_literalValue? (h : literalValue? chars = some i) :
    ∀ c ∈ chars, c = '+' ∨ c = '-' ∨ c.isDigit = true := by
  have hdigits {digits : List Char} {m : Nat} (hm : magnitude? digits = some m) :
      ∀ c ∈ digits, c = '+' ∨ c = '-' ∨ c.isDigit = true := by
    unfold magnitude? at hm
    split at hm
    · next hall => exact fun c hc => .inr (.inr (List.all_eq_true.1 hall.2 c hc))
    · cases hm
  unfold literalValue? at h
  split at h
  · obtain ⟨m, hm, -⟩ := Option.map_eq_some_iff.1 h
    exact List.forall_mem_cons.2 ⟨.inl rfl, hdigits hm⟩
  · obtain ⟨m, hm, -⟩ := Option.map_eq_some_iff.1 h
    exact List.forall_mem_cons.2 ⟨.inr (.inl rfl), hdigits hm⟩
  · obtain ⟨m, hm, -⟩ := Option.map_eq_some_iff.1 h
    exact hdigits hm

/-- A literal is one word, and the reader does not refuse it. -/
theorem isWord_literal (h : Atom.ofToken token ≠ .identifier token) (comments : Bool) :
    IsWord comments token ∧ Atom.refusal? token = none := by
  have hboolean (b : Bool) : IsWord comments (printBoolean b) := by
    cases comments <;> cases b <;> simp [IsWord, printBoolean] <;> decide
  by_cases htrue : token = printBoolean true
  · exact htrue ▸ ⟨hboolean true, rfl⟩
  by_cases hfalse : token = printBoolean false
  · exact hfalse ▸ ⟨hboolean false, rfl⟩
  obtain ⟨n, hn⟩ : ∃ n, Number.read? token = some n := by
    refine Option.ne_none_iff_exists'.1 fun hnone => h ?_
    exact Atom.ofToken_eq_identifier.2 ⟨rfl, htrue, hfalse, hnone⟩
  have hvalue := Number.read?_eq_some.1 hn
  have hnumeral := Number.numeral_of_literalValue? hvalue
  have hnotSpecial : Atom.looksSpecial token.toList = false := by
    refine Bool.eq_false_iff.2 fun hspecial => ?_
    have hhash : '#' ∈ token.toList :=
      List.mem_of_mem_head? (eq_of_beq hspecial)
    exact absurd (hnumeral '#' hhash) (by decide)
  refine ⟨⟨fun hnil => ?_, fun c hc => joinsAtom_of_numeral (hnumeral c hc)⟩, ?_⟩
  · rw [hnil] at hvalue
    cases hvalue
  · simp [Atom.refusal?, hnotSpecial, hn]

/-- **A literal is read as itself.** -/
theorem read_literal (h : Atom.ofToken token ≠ .identifier token) (comments : Bool) :
    read comments token = .ok (.atom token) := by
  obtain ⟨hword, hrefusal⟩ := isWord_literal h comments
  have hatoms : ∀ a ∈ (SExpr.atom token).atoms, a = token := by simp [SExpr.atoms]
  have hflat : (SExpr.atom token).nesting ≤ maxNesting := by
    rw [SExpr.nesting]
    exact Nat.zero_le _
  have hwrites : Writes comments token (.atom token) := by
    refine writes_of_laidOut (SExpr.laidOut_print _) (fun a ha => ?_) (fun a ha => ?_) hflat
    · rwa [hatoms a ha]
    · rwa [hatoms a ha]
  exact hwrites.read_eq

/-! ### Texts that start as procedures do -/

/-- **A text that starts with `#<` is refused**, whatever comes behind. -/
theorem read_of_hash (h : text.toList = '#' :: '<' :: rest) (comments : Bool) :
    ∃ e, read comments text = .error e ∧ e.kind = .malformedAtom := by
  obtain ⟨run, after, rfl, hrun, hend⟩ := exists_run (joinsAtom comments) rest
  have hword : ∀ c ∈ '#' :: '<' :: run, joinsAtom comments c = true :=
    List.forall_mem_cons.2 ⟨by cases comments <;> decide,
      List.forall_mem_cons.2 ⟨by cases comments <;> decide, hrun⟩⟩
  have hscan : Scans comments text.toList
      ([] ++ .atom (String.ofList ('#' :: '<' :: run)) ::
        (Lexeme.scanAt comments (0 + ('#' :: '<' :: run).length) after).map Lexeme.token) := by
    rw [scans_iff, Lexeme.scan_eq, h, ← List.cons_append, ← List.cons_append,
      Lexeme.scanAt_atom (List.cons_ne_nil _ _) hword hend]
    rfl
  have hrefused : Atom.refusal? (String.ofList ('#' :: '<' :: run)) = some .unknownLiteral := by
    have hboolean (b : Bool) : String.ofList ('#' :: '<' :: run) ≠ printBoolean b := by
      intro heq
      have hchars := congrArg String.toList heq
      rw [String.toList_ofList] at hchars
      cases b <;> simp [printBoolean] at hchars
    have hspecial : Atom.looksSpecial (String.ofList ('#' :: '<' :: run)).toList = true := by
      rw [String.toList_ofList]
      rfl
    exact if_pos ⟨hspecial, hboolean true, hboolean false⟩
  obtain ⟨position, hread⟩ := read_of_offends hscan flawless_nil
    (.malformed (fun hcomplete => hcomplete.ne_nil rfl) (hrefused ▸ nofun))
  exact ⟨_, hread, rfl⟩

/-- How a procedure is printed: its name, its parameters and its body in brackets. -/
theorem Procedure.print_eq (p : Procedure) :
    p.print = "#<procedure " ++
      (p.name ++ " (" ++ " ".intercalate p.params ++ ") " ++ p.body.print ++ ">") := by
  have hprint : p.print = "#<procedure " ++ p.name ++ " (" ++ " ".intercalate p.params ++ ") " ++
      p.body.print ++ ">" := rfl
  rw [hprint]
  simp only [String.append_assoc]

/-- The written form of a procedure starts with `#<`. -/
theorem Value.toList_print (h : ¬ v.IsLiteral) : ∃ rest, v.print.toList = '#' :: '<' :: rest := by
  cases v with
  | number n => exact absurd trivial h
  | boolean b => exact absurd trivial h
  | builtin b => exact ⟨_, by simp [Value.print]; rfl⟩
  | procedure p => exact ⟨_, by rw [Value.print, p.print_eq, String.toList_append]; rfl⟩

/-! ### Printed values -/

/-- **A printed value reads back or is refused, and is never misread.**  The printed form of a
number or a truth value is read, with comments on or off, as a tree that evaluates to the value in
every scope and changes nothing.  The printed form of a procedure, whatever its name, its
parameters and its body are, is refused as a malformed atom. -/
theorem Value.printed_never_misread (v : Value) (comments : Bool) :
    (v.IsLiteral → read comments v.print = .ok (.atom v.print) ∧
      ∀ (limit : UInt64) s store, 0 < limit.toNat →
        evaluate limit s (.atom v.print) store = .ok v store) ∧
    (¬ v.IsLiteral → ∃ e, read comments v.print = .error e ∧ e.kind = .malformedAtom) := by
  constructor
  · intro h
    refine ⟨read_literal (h.ofToken_print_ne _) comments, fun limit s store hlimit => ?_⟩
    rw [evaluate_atom hlimit, evalAtom_print h]
    rfl
  · intro h
    obtain ⟨rest, hrest⟩ := v.toList_print h
    exact read_of_hash hrest comments

/-- The smallest number reads back; a procedure is refused even if its name closes what the printed
form opens. -/
theorem Value.printed_never_misread_awkward :
    let smallest := Value.number (-9223372036854775808)
    let p : Procedure := ⟨0, "f) 1 ;\r", ["a b", ""], .list [.atom "#t"], 0⟩
    evaluate 1 0 (.atom smallest.print) {} = .ok smallest {} ∧
      ∃ e, read true (Value.procedure p).print = .error e ∧ e.kind = .malformedAtom :=
  ⟨((Value.printed_never_misread (.number _) true).1 trivial).2 1 0 {} (by decide),
    (Value.printed_never_misread (.procedure _) true).2 id⟩

end StrictScheme
