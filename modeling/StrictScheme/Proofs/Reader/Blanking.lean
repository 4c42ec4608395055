/-
# Comments are blanks

With comments on, a text is read like the text with a space in the place of each
character of a comment.  The tokens are the same, at the same places
(`exists_scansAt_blankComments`).  All that the reader looks at apart from the tokens is the text
itself, and that only to show an excerpt of it.  So a token is taken alike in both texts
(`Progress.alike_take`), hence all of them are (`Progress.alike_foldlM`), and the two
answers differ in the excerpt at most (`Alike`).

A broken comment has no such text.  What stands before it is read as it would be alone,
and if no token there is at fault then the error is about the comment
(`read_comments_as_blanks`).
-/

import StrictScheme.Proofs.Reader.Offence
import StrictScheme.Proofs.Reader.Place

namespace StrictScheme

/-- **The same answer up to the context of an error.** -/
inductive Alike {α : Type} : Except SyntaxError α → Except SyntaxError α → Prop
  | ok (a : α) : Alike (.ok a) (.ok a)
  | error {e f : SyntaxError} (kind : e.kind = f.kind) (message : e.message = f.message)
      (found : e.found = f.found) : Alike (.error e) (.error f)

/-- Computations that go on alike from the same results come out alike. -/
theorem Alike.bind {α β : Type} {x y : Except SyntaxError α} {f g : α → Except SyntaxError β}
    (h : Alike x y) (hnext : ∀ a, Alike (f a) (g a)) : Alike (x >>= f) (y >>= g) := by
  cases h with
  | ok a => exact hnext a
  | error kind message found => exact .error kind message found

variable {text : String} {lexemes : List Lexeme} {lexeme : Lexeme} {j : Nat}

/-! ### Reading the same tokens in two texts -/

namespace Progress

/-- **A token is taken alike in every text**, unless it is a broken comment. -/
theorem alike_take (hwhole : ∀ s, lexeme.token ≠ .brokenComment s) (text other : String)
    (progress : Progress) : Alike (progress.take text lexeme) (progress.take other lexeme) := by
  obtain ⟨position, token⟩ := lexeme
  obtain ⟨opened, result⟩ := progress
  unfold take
  cases token with
  | brokenComment s => exact absurd rfl (hwhole s)
  | opening =>
    cases result with
    | some tree => exact .error rfl rfl rfl
    | none =>
      by_cases hdeep : maxNesting ≤ opened.length
      · simp only [if_pos hdeep]
        exact .error rfl rfl rfl
      · simp only [if_neg hdeep]
        exact .ok _
  | closing =>
    cases result with
    | some tree => exact .error rfl rfl rfl
    | none =>
      cases opened with
      | nil => exact .error rfl rfl rfl
      | cons list outer => exact .ok _
  | atom a =>
    cases result with
    | some tree => exact .error rfl rfl rfl
    | none =>
      cases hrefusal : Atom.refusal? a with
      | some refusal =>
        simp only [hrefusal]
        exact .error rfl rfl rfl
      | none =>
        simp only [hrefusal]
        exact .ok _

/-- **All tokens are taken alike.** -/
theorem alike_foldlM (hwhole : ∀ s, .brokenComment s ∉ lexemes.map Lexeme.token)
    (text other : String) (progress : Progress) :
    Alike (lexemes.foldlM (take text) progress) (lexemes.foldlM (take other) progress) := by
  induction lexemes generalizing progress with
  | nil => exact .ok progress
  | cons lexeme rest ih =>
    have hfirst : ∀ s, lexeme.token ≠ .brokenComment s := by
      intro s heq
      exact hwhole s (heq ▸ List.mem_cons_self ..)
    have hrest : ∀ s, .brokenComment s ∉ rest.map Lexeme.token :=
      fun s hs => hwhole s (List.mem_cons_of_mem _ hs)
    rw [List.foldlM_cons, List.foldlM_cons]
    exact (alike_take hfirst text other progress).bind fun next => ih hrest next

/-- At the end of two texts reading comes out alike. -/
theorem alike_finish (text other : String) (progress : Progress) :
    Alike (progress.finish text) (progress.finish other) := by
  obtain ⟨opened, result⟩ := progress
  unfold finish
  cases opened.getLast? with
  | some outermost => exact .error rfl rfl rfl
  | none =>
    cases result with
    | none => exact .error rfl rfl rfl
    | some tree => exact .ok tree

end Progress

/-- **Texts with the same tokens at the same places** read alike. -/
theorem alike_read {comments settings : Bool} {other : String}
    (hscan : Lexeme.scan comments text.toList = Lexeme.scan settings other.toList)
    (hwhole : ∀ s, .brokenComment s ∉ (Lexeme.scan comments text.toList).map Lexeme.token) :
    Alike (read comments text) (read settings other) := by
  unfold read
  rw [← hscan]
  exact (Progress.alike_foldlM hwhole text other {}).bind (Progress.alike_finish text other)

/-! ### Comments as blanks -/

/-- With no broken comment, a text splits into the same tokens at the same places when each character
of a comment is a space. -/
theorem exists_scansAt_blankComments {text : List Char} (h : ∀ j, ¬ BreaksFrom text j) :
    ∃ lexemes, ∀ others, (ScansAt true 0 text others ↔ others = lexemes) ∧
      (ScansAt false 0 (blankComments text) others ↔ others = lexemes) := by
  refine ⟨Lexeme.scan true text, fun others => ⟨?_, ?_⟩⟩
  · rw [scansAt_iff, eq_comm]
  · rw [scansAt_iff, ← Lexeme.scan_of_whole h, eq_comm]

/-- With no broken comment, a space does for each character of a comment. -/
theorem alike_read_blankComments (h : ∀ j, ¬ BreaksFrom text.toList j) :
    Alike (read true text) (read false (String.ofList (blankComments text.toList))) := by
  have hscan := Lexeme.scan_of_whole h
  refine alike_read (by rw [hscan, String.toList_ofList]) fun s => ?_
  rw [hscan]
  exact Lexeme.whole_scan_false _ s

/-- Without a semicolon there is no comment. -/
theorem read_eq_of_not_mem (h : ';' ∉ text.toList) : read true text = read false text := by
  have hblank : Comment.blank text.toList = ⟨text.toList, none⟩ := by
    have happend := Comment.blank_append (fun c hc => ne_of_mem_of_not_mem hc h) []
    rw [show Comment.blank [] = ⟨[], none⟩ from rfl, List.append_nil] at happend
    exact happend
  have hscan : Lexeme.scan true text.toList = Lexeme.scan false text.toList := by
    simp [Lexeme.scan, hblank]
  rw [read, read, hscan]

/-- Reading stops where the first tokens cannot be taken. -/
theorem read_of_foldlM {comments : Bool} {later : List Lexeme} {e : SyntaxError}
    (hscan : Lexeme.scan comments text.toList = lexemes ++ later)
    (hfold : lexemes.foldlM (Progress.take text) {} = .error e) :
    read comments text = .error e := by
  rw [read, hscan, List.foldlM_append, hfold]
  rfl

/-- **The first broken comment is the error**, if no token before it is at fault. -/
theorem read_of_firstBroken (h : FirstBroken text.toList j)
    (hflawless : Flawless ((Lexeme.scan true (text.toList.take j)).map Lexeme.token)) :
    ∃ e, read true text = .error e ∧ e.kind = .malformedAtom ∧
      e.message = "Invalid syntax at position " ++
        toString (Text.byteLength (text.toList.take j)) := by
  obtain ⟨progress, hfold⟩ := (Progress.flawless_iff text).1 hflawless
  have hscan := Lexeme.scan_of_firstBroken h
  exact ⟨_, read_of_take hscan hfold rfl, rfl, rfl⟩

/-- **Otherwise the comment plays no role.** -/
theorem alike_read_take (h : FirstBroken text.toList j)
    (hflawed : ¬ Flawless ((Lexeme.scan true (text.toList.take j)).map Lexeme.token)) :
    ∃ e, read true text = .error e ∧
      Alike (read true (String.ofList (text.toList.take j))) (.error e) := by
  cases hfold : (Lexeme.scan true (text.toList.take j)).foldlM (Progress.take text) {} with
  | ok progress => exact absurd ((Progress.flawless_iff text).2 ⟨progress, hfold⟩) hflawed
  | error e =>
    refine ⟨e, read_of_foldlM (Lexeme.scan_of_firstBroken h) hfold, ?_⟩
    have hsame := Progress.alike_foldlM h.splits_take.whole (String.ofList (text.toList.take j))
      text {}
    rw [hfold] at hsame
    rw [read, String.toList_ofList]
    exact hsame.bind (Progress.alike_finish _ text)

/-- **Comments are blanks.**  A text without a broken comment has the tokens of the text with a space
for each character of a comment, at the same places, and is read like it; without a semicolon,
comments may be on or off.  A text with a broken comment is never read.  The error names the byte at which the first of them starts, unless a token
before it is at fault, and then the error is the one of the text before it. -/
theorem read_comments_as_blanks (text : String) :
    ((∀ j, ¬ BreaksFrom text.toList j) →
      (∃ lexemes, ∀ others, (ScansAt true 0 text.toList others ↔ others = lexemes) ∧
        (ScansAt false 0 (blankComments text.toList) others ↔ others = lexemes)) ∧
      Alike (read true text) (read false (String.ofList (blankComments text.toList)))) ∧
    (';' ∉ text.toList → read true text = read false text) ∧
    ∀ i, BreaksFrom text.toList i → ∃ j tokens e, FirstBroken text.toList j ∧
      Splits true (text.toList.take j) tokens ∧ read true text = .error e ∧
      (Flawless tokens → e.kind = .malformedAtom ∧
        e.message = "Invalid syntax at position " ++
          toString (Text.byteLength (text.toList.take j))) ∧
      (¬ Flawless tokens → Alike (read true (String.ofList (text.toList.take j))) (.error e)) := by
  refine ⟨fun hwhole => ⟨exists_scansAt_blankComments hwhole, alike_read_blankComments hwhole⟩,
    read_eq_of_not_mem, fun i hbreaks => ?_⟩
  obtain ⟨j, hj⟩ := hbreaks.exists_first
  by_cases hflawless : Flawless ((Lexeme.scan true (text.toList.take j)).map Lexeme.token)
  · obtain ⟨e, hread, hkind, hmessage⟩ := read_of_firstBroken hj hflawless
    exact ⟨j, _, e, hj, hj.splits_take, hread, fun _ => ⟨hkind, hmessage⟩,
      fun hflawed => absurd hflawless hflawed⟩
  · obtain ⟨e, hread, halike⟩ := alike_read_take hj hflawless
    exact ⟨j, _, e, hj, hj.splits_take, hread, fun hnone => absurd hnone hflawless,
      fun _ => halike⟩

/-- A comment that touches an atom, no comment at all, and a broken one. -/
theorem read_comments_as_blanks_cases :
    Alike (read true "(f;(\n)") (read false "(f  \n)") ∧ read true "(f)" = read false "(f)" ∧
      ∃ e, read true "f ;a\rb" = .error e := by
  have hwhole : ∀ j, ¬ BreaksFrom "(f;(\n)".toList j := by
    rintro j ⟨i, -, hreturn⟩
    exact absurd (List.mem_of_getElem? hreturn) (by decide)
  have hbroken : BreaksFrom "f ;a\rb".toList 2 := ⟨4, by decide, rfl⟩
  obtain ⟨-, -, e, -, -, hread, -⟩ := (read_comments_as_blanks "f ;a\rb").2.2 2 hbroken
  exact ⟨((read_comments_as_blanks "(f;(\n)").1 hwhole).2,
    (read_comments_as_blanks "(f)").2.1 (by decide), e, hread⟩

end StrictScheme
