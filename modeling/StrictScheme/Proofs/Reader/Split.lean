/-
# How a text splits into tokens

`Splits` says, with no reference to the scanner, when a text is a given sequence of
tokens: parentheses and longest runs of atom characters, with blanks and, where they
are on, comments in between.

The scanner works from the end of the text, and replaces comments by spaces first.
Read from the front it obeys one equation for each thing that a text can start with,
positions included (`Lexeme.scanAt_blank` to `Lexeme.scanAt_broken`).  From these it
follows that the scanner finds the tokens of every text that splits, and that a text
splits unless it has a broken comment (`splits_iff`).
-/

import Mathlib.Data.List.TakeWhile
import StrictScheme.Token

namespace StrictScheme

/-! ### The tokens of a text -/

/-- Whether a character can be part of an atom; with comments on, a semicolon cannot. -/
def joinsAtom (comments : Bool) (c : Char) : Bool :=
  Lexeme.isAtomChar c && !(comments && c == ';')

/-- A place at which a comment may end. -/
inductive LineEnd : List Char → Prop
  | endOfText : LineEnd []
  | lineFeed (rest : List Char) : LineEnd ('\n' :: rest)
  | carriageReturn (rest : List Char) : LineEnd ('\r' :: '\n' :: rest)

/-- A comment does not go on where it may end. -/
theorem LineEnd.head? {rest : List Char} (h : LineEnd rest) :
    ∀ c ∈ rest.head?, Comment.isWithinLine c = false := by
  cases h <;> simp [Comment.isWithinLine]

/-- What follows an atom: nothing, or a character that cannot be part of it. -/
def EndsAtom (comments : Bool) (rest : List Char) : Prop :=
  ∀ c ∈ rest.head?, joinsAtom comments c = false

/-- **A text splits into tokens**, with blanks and comments between them. -/
inductive Splits (comments : Bool) : List Char → List Token → Prop
  | nil : Splits comments [] []
  | blank {c : Char} {rest : List Char} {tokens : List Token} (hc : Text.isBlank c = true)
      (h : Splits comments rest tokens) : Splits comments (c :: rest) tokens
  | comment {line rest : List Char} {tokens : List Token} (hon : comments = true)
      (hline : ∀ c ∈ line, Comment.isWithinLine c = true) (hend : LineEnd rest)
      (h : Splits comments rest tokens) : Splits comments (';' :: line ++ rest) tokens
  | opening {rest : List Char} {tokens : List Token} (h : Splits comments rest tokens) :
      Splits comments ('(' :: rest) (.opening :: tokens)
  | closing {rest : List Char} {tokens : List Token} (h : Splits comments rest tokens) :
      Splits comments (')' :: rest) (.closing :: tokens)
  | atom {word rest : List Char} {tokens : List Token} (hne : word ≠ [])
      (hword : ∀ c ∈ word, joinsAtom comments c = true) (hend : EndsAtom comments rest)
      (h : Splits comments rest tokens) :
      Splits comments (word ++ rest) (.atom (String.ofList word) :: tokens)

variable {comments : Bool} {c : Char} {text rest line word : List Char} {tokens : List Token}
  {position : Nat}

/-! ### Characters -/

/-- With comments off, a semicolon is a character like any other. -/
theorem joinsAtom_false : joinsAtom false c = Lexeme.isAtomChar c := by
  simp [joinsAtom]

/-- A blank is no part of an atom. -/
theorem isAtomChar_of_blank (h : Text.isBlank c = true) : Lexeme.isAtomChar c = false := by
  simp [Lexeme.isAtomChar, h]

/-- With comments on, a semicolon is no part of an atom. -/
theorem ne_semicolon_of_joinsAtom (h : joinsAtom true c = true) : c ≠ ';' := by
  rintro rfl
  simp [joinsAtom] at h

/-- What can be part of an atom with comments on can be so with comments off. -/
theorem isAtomChar_of_joinsAtom (h : joinsAtom comments c = true) :
    Lexeme.isAtomChar c = true := by
  simp only [joinsAtom, Bool.and_eq_true] at h
  exact h.1

/-- A character is blank, a parenthesis, a semicolon that starts a comment, or part of an atom. -/
theorem char_cases (comments : Bool) (c : Char) :
    Text.isBlank c = true ∨ c = '(' ∨ c = ')' ∨ (comments = true ∧ c = ';') ∨
      joinsAtom comments c = true := by
  by_cases hatom : joinsAtom comments c = true
  · exact .inr (.inr (.inr (.inr hatom)))
  · simp only [joinsAtom, Lexeme.isAtomChar] at hatom
    grind

/-- The longest run of characters of some kind that a text starts with. -/
theorem exists_run (p : Char → Bool) (text : List Char) :
    ∃ run rest, text = run ++ rest ∧ (∀ c ∈ run, p c = true) ∧
      ∀ c ∈ rest.head?, p c = false := by
  refine ⟨text.takeWhile p, text.dropWhile p, List.takeWhile_append_dropWhile.symm,
    fun c hc => List.mem_takeWhile_imp hc, fun c hc => ?_⟩
  have hhead := List.head?_dropWhile_not p text
  rw [Option.mem_def.1 hc] at hhead
  exact hhead

/-! ### Comments replaced by spaces -/

namespace Comment

/-- A character outside comments stays. -/
theorem blank_cons (hc : c ≠ ';') (rest : List Char) : blank (c :: rest) = (blank rest).cons c := by
  rw [blank, blankFrom, if_neg hc, blank]

/-- So does a run of such characters. -/
theorem blank_append (hword : ∀ c ∈ word, c ≠ ';') (rest : List Char) :
    blank (word ++ rest) = ⟨word ++ (blank rest).text, (blank rest).broken⟩ := by
  induction word with
  | nil => rfl
  | cons c word ih =>
    have hc : c ≠ ';' := hword c (List.mem_cons_self ..)
    rw [List.cons_append, blank_cons hc, ih fun d hd => hword d (List.mem_cons_of_mem c hd)]
    rfl

/-- After the end of a line no comment goes on. -/
theorem blankFrom_lineEnd (h : LineEnd rest) : blankFrom true rest = blank rest := by
  cases h <;> rfl

/-- Each character of a comment becomes a space. -/
theorem blankFrom_append (hline : ∀ c ∈ line, isWithinLine c = true) (hend : LineEnd rest) :
    blankFrom true (line ++ rest) =
      ⟨List.replicate line.length ' ' ++ (blank rest).text, (blank rest).broken⟩ := by
  induction line with
  | nil => exact blankFrom_lineEnd hend
  | cons c line ih =>
    have hc : isWithinLine c = true := hline c (List.mem_cons_self ..)
    rw [List.cons_append, blankFrom, if_pos hc, ih fun d hd => hline d (List.mem_cons_of_mem c hd)]
    rfl

/-- A line is looked at up to where it stops. -/
theorem dropWhile_line (hline : ∀ c ∈ line, isWithinLine c = true)
    (hrest : ∀ c ∈ rest.head?, isWithinLine c = false) :
    (line ++ rest).dropWhile isWithinLine = rest := by
  rw [List.dropWhile_append_of_pos hline]
  cases rest with
  | nil => rfl
  | cons c rest => rw [List.dropWhile_cons_of_neg (by simp [hrest c rfl])]

/-- **A line is broken unless it ends where it stops.** -/
theorem isBroken_append (hline : ∀ c ∈ line, isWithinLine c = true)
    (hrest : ∀ c ∈ rest.head?, isWithinLine c = false) :
    isBroken (line ++ rest) = false ↔ LineEnd rest := by
  rw [isBroken, dropWhile_line hline hrest]
  constructor
  · intro h
    cases rest with
    | nil => exact .endOfText
    | cons c rest =>
      have hc : c = '\n' ∨ c = '\r' := by
        have hnot : isWithinLine c = false := hrest c rfl
        grind [isWithinLine]
      rcases hc with rfl | rfl
      · exact .lineFeed rest
      · split at h
        · next heq =>
          obtain ⟨-, rfl⟩ := List.cons.inj heq
          exact .carriageReturn _
        · exact absurd h (by decide)
        · next hno => exact (hno rest rfl).elim
  · rintro (_ | _ | _) <;> rfl

/-- Nothing is left of a comment that ends with its line but spaces. -/
theorem blank_comment (hline : ∀ c ∈ line, isWithinLine c = true) (hend : LineEnd rest) :
    blank (';' :: line ++ rest) =
      ⟨List.replicate (line.length + 1) ' ' ++ (blank rest).text, (blank rest).broken⟩ := by
  rw [List.cons_append, blank, blankFrom, if_pos rfl,
    (isBroken_append hline hend.head?).2 hend, blankFrom_append hline hend]
  rfl

end Comment

/-- **Texts by what they start with**: a blank, a parenthesis, an atom, or a comment.  Behind a
broken comment there is nothing more to look at. -/
theorem text_induction {motive : List Char → Prop} (comments : Bool) (nil : motive [])
    (blank : ∀ c rest, Text.isBlank c = true → motive rest → motive (c :: rest))
    (comment : ∀ line rest, comments = true → (∀ c ∈ line, Comment.isWithinLine c = true) →
      LineEnd rest → motive rest → motive (';' :: line ++ rest))
    (broken : ∀ rest, comments = true → Comment.isBroken rest = true → motive (';' :: rest))
    (opening : ∀ rest, motive rest → motive ('(' :: rest))
    (closing : ∀ rest, motive rest → motive (')' :: rest))
    (atom : ∀ word rest, word ≠ [] → (∀ c ∈ word, joinsAtom comments c = true) →
      EndsAtom comments rest → motive rest → motive (word ++ rest))
    (text : List Char) : motive text := by
  -- by induction on the length: whatever a text starts with, less of it is left
  induction hlength : text.length using Nat.strongRecOn generalizing text with
  | ind n ih =>
  cases text with
  | nil => exact nil
  | cons c rest =>
    rw [List.length_cons] at hlength
    rcases char_cases comments c with hblank | rfl | rfl | ⟨hon, rfl⟩ | hatom
    · exact blank c rest hblank (ih rest.length (by omega) rest rfl)
    · exact opening rest (ih rest.length (by omega) rest rfl)
    · exact closing rest (ih rest.length (by omega) rest rfl)
    · cases hbroken : Comment.isBroken rest with
      | true => exact broken rest hon hbroken
      | false =>
        obtain ⟨line, after, rfl, hline, hstop⟩ := exists_run Comment.isWithinLine rest
        have hend := (Comment.isBroken_append hline hstop).1 hbroken
        rw [List.length_append] at hlength
        exact comment line after hon hline hend (ih after.length (by omega) after rfl)
    · obtain ⟨word, after, rfl, hword, hend⟩ := exists_run (joinsAtom comments) rest
      have hrun : ∀ d ∈ c :: word, joinsAtom comments d = true :=
        List.forall_mem_cons.2 ⟨hatom, hword⟩
      rw [List.length_append] at hlength
      exact atom (c :: word) after (List.cons_ne_nil c word) hrun hend
        (ih after.length (by omega) after rfl)

/-! ### The scanner, read from the front -/

namespace Lexeme

/-- The tokens of a text that starts at `position`, in which a semicolon is a character like any
other. -/
def plainAt (position : Nat) (text : List Char) : List Lexeme :=
  (Suffix.scan position text).close position

/-- A blank is skipped. -/
theorem plainAt_blank (hc : Text.isBlank c = true) (position : Nat) (rest : List Char) :
    plainAt position (c :: rest) = plainAt (position + 1) rest := by
  have hatom := isAtomChar_of_blank hc
  have hopening : c ≠ '(' := by rintro rfl; exact absurd hc (by decide)
  have hclosing : c ≠ ')' := by rintro rfl; exact absurd hc (by decide)
  simp [plainAt, Suffix.scan, Suffix.cons, Suffix.close, hatom, hopening, hclosing]

/-- An opening parenthesis is a token. -/
theorem plainAt_opening (position : Nat) (rest : List Char) :
    plainAt position ('(' :: rest) = ⟨position, .opening⟩ :: plainAt (position + 1) rest := rfl

/-- So is a closing one. -/
theorem plainAt_closing (position : Nat) (rest : List Char) :
    plainAt position (')' :: rest) = ⟨position, .closing⟩ :: plainAt (position + 1) rest := rfl

/-- A run of spaces is skipped. -/
theorem plainAt_spaces (n position : Nat) (rest : List Char) :
    plainAt position (List.replicate n ' ' ++ rest) = plainAt (position + n) rest := by
  induction n generalizing position with
  | zero => rfl
  | succ n ih =>
    rw [List.replicate_succ, List.cons_append, plainAt_blank (by decide), ih]
    congr 1
    omega

/-- The scan of a run of atom characters and what follows it. -/
theorem Suffix.scan_append (hword : ∀ c ∈ word, isAtomChar c = true) (position : Nat)
    (rest : List Char) :
    Suffix.scan position (word ++ rest) =
      ⟨word ++ (Suffix.scan (position + word.length) rest).word,
        (Suffix.scan (position + word.length) rest).lexemes⟩ := by
  induction word generalizing position with
  | nil => rfl
  | cons c word ih =>
    have hc : isAtomChar c = true := hword c (List.mem_cons_self ..)
    have hlength : position + 1 + word.length = position + (c :: word).length := by
      rw [List.length_cons]
      omega
    rw [List.cons_append, Suffix.scan, ih fun d hd => hword d (List.mem_cons_of_mem c hd), hlength]
    simp [Suffix.cons, hc]

/-- No run of atom characters starts at any other character. -/
theorem Suffix.word_scan_eq_nil (hend : ∀ c ∈ rest.head?, isAtomChar c = false) (position : Nat) :
    (Suffix.scan position rest).word = [] := by
  cases rest with
  | nil => rfl
  | cons c rest =>
    have hc : isAtomChar c = false := hend c rfl
    simp only [Suffix.scan, Suffix.cons, hc, Bool.false_eq_true, if_false]
    split
    · rfl
    · split <;> rfl

/-- A longest run of atom characters is a token. -/
theorem plainAt_atom (hne : word ≠ []) (hword : ∀ c ∈ word, isAtomChar c = true)
    (hend : ∀ c ∈ rest.head?, isAtomChar c = false) (position : Nat) :
    plainAt position (word ++ rest) =
      ⟨position, .atom (String.ofList word)⟩ :: plainAt (position + word.length) rest := by
  have hnone := Suffix.word_scan_eq_nil hend (position + word.length)
  simp only [plainAt, Suffix.scan_append hword, Suffix.close, hnone, List.append_nil]

/-- The tokens of a text that starts at `position`, with or without comments. -/
def scanAt (comments : Bool) (position : Nat) (text : List Char) : List Lexeme :=
  if comments then
    plainAt position (Comment.blank text).text ++
      match (Comment.blank text).broken with
      | some rest =>
        [⟨position + (Comment.blank text).text.length, .brokenComment (String.ofList rest)⟩]
      | none => []
  else plainAt position text

/-- A text is scanned from its start. -/
theorem scan_eq (comments : Bool) (text : List Char) :
    scan comments text = scanAt comments 0 text := by
  cases comments with
  | false => rfl
  | true =>
    cases hbroken : (Comment.blank text).broken <;>
      simp [scan, scanAt, scanPlain, plainAt, hbroken]

/-- There is nothing to find in an empty text. -/
theorem scanAt_nil (comments : Bool) (position : Nat) : scanAt comments position [] = [] := by
  cases comments <;> rfl

/-- A character outside comments is scanned as it would be without them. -/
theorem scanAt_true_append (word : List Char) (before : List Lexeme)
    (hword : ∀ c ∈ word, c ≠ ';')
    (hplain : plainAt position (word ++ (Comment.blank rest).text) =
      before ++ plainAt (position + word.length) (Comment.blank rest).text) :
    scanAt true position (word ++ rest) =
      before ++ scanAt true (position + word.length) rest := by
  simp only [scanAt, if_true, Comment.blank_append hword, hplain, List.length_append,
    List.append_assoc, Nat.add_assoc]

/-- A blank is skipped, with and without comments. -/
theorem scanAt_blank (hc : Text.isBlank c = true) (comments : Bool) (position : Nat)
    (rest : List Char) :
    scanAt comments position (c :: rest) = scanAt comments (position + 1) rest := by
  cases comments with
  | false => exact plainAt_blank hc position rest
  | true =>
    have hne : ∀ d ∈ [c], d ≠ ';' := by
      simp only [List.mem_singleton]
      rintro _ rfl rfl
      exact absurd hc (by decide)
    exact scanAt_true_append [c] [] hne (plainAt_blank hc ..)

/-- An opening parenthesis is a token, with and without comments. -/
theorem scanAt_opening (comments : Bool) (position : Nat) (rest : List Char) :
    scanAt comments position ('(' :: rest) =
      ⟨position, .opening⟩ :: scanAt comments (position + 1) rest := by
  cases comments with
  | false => rfl
  | true =>
    exact scanAt_true_append ['('] [⟨position, .opening⟩] (by simp)
      (plainAt_opening ..)

/-- So is a closing one. -/
theorem scanAt_closing (comments : Bool) (position : Nat) (rest : List Char) :
    scanAt comments position (')' :: rest) =
      ⟨position, .closing⟩ :: scanAt comments (position + 1) rest := by
  cases comments with
  | false => rfl
  | true =>
    exact scanAt_true_append [')'] [⟨position, .closing⟩] (by simp)
      (plainAt_closing ..)

/-- What ends an atom still does when comments are replaced by spaces. -/
theorem head?_blank (hend : EndsAtom true rest) :
    ∀ c ∈ (Comment.blank rest).text.head?, isAtomChar c = false := by
  cases rest with
  | nil => exact nofun
  | cons d rest =>
    have hd : joinsAtom true d = false := hend d rfl
    by_cases hcomment : d = ';'
    · subst hcomment
      simp only [Comment.blank, Comment.blankFrom, if_true]
      split
      · exact nofun
      · rintro _ ⟨⟩
        decide
    · rw [Comment.blank_cons hcomment]
      rintro _ ⟨⟩
      simpa [joinsAtom, hcomment] using hd

/-- A longest run of characters that join an atom is a token. -/
theorem scanAt_atom (hne : word ≠ []) (hword : ∀ c ∈ word, joinsAtom comments c = true)
    (hend : EndsAtom comments rest) (position : Nat) :
    scanAt comments position (word ++ rest) =
      ⟨position, .atom (String.ofList word)⟩ ::
        scanAt comments (position + word.length) rest := by
  have hchars : ∀ c ∈ word, isAtomChar c = true :=
    fun c hc => isAtomChar_of_joinsAtom (hword c hc)
  cases comments with
  | false =>
    have hstop : ∀ c ∈ rest.head?, isAtomChar c = false :=
      fun c hc => joinsAtom_false ▸ hend c hc
    exact plainAt_atom hne hchars hstop position
  | true =>
    exact scanAt_true_append word [⟨position, .atom (String.ofList word)⟩]
      (fun c hc => ne_semicolon_of_joinsAtom (hword c hc))
      (plainAt_atom hne hchars (head?_blank hend) position)

/-- A comment that ends with its line. -/
theorem scanAt_comment (hline : ∀ c ∈ line, Comment.isWithinLine c = true) (hend : LineEnd rest)
    (position : Nat) :
    scanAt true position (';' :: line ++ rest) =
      scanAt true (position + (line.length + 1)) rest := by
  simp only [scanAt, if_true, Comment.blank_comment hline hend, plainAt_spaces, List.length_append,
    List.length_replicate, Nat.add_assoc]

/-- A broken comment is the last thing that is found. -/
theorem scanAt_broken (h : Comment.isBroken rest = true) (position : Nat) :
    scanAt true position (';' :: rest) =
      [⟨position, .brokenComment (String.ofList (';' :: rest))⟩] := by
  have hblank : Comment.blank (';' :: rest) = ⟨[], some (';' :: rest)⟩ := by
    rw [Comment.blank, Comment.blankFrom, if_pos rfl, if_pos h]
  simp only [scanAt, if_true, hblank]
  rfl

end Lexeme

/-! ### Texts that split -/

namespace Splits

/-- **The scanner finds the tokens of a text that splits.** -/
theorem scanAt_eq (h : Splits comments text tokens) (position : Nat) :
    (Lexeme.scanAt comments position text).map Lexeme.token = tokens := by
  induction h generalizing position with
  | nil => rw [Lexeme.scanAt_nil, List.map_nil]
  | blank hc _ ih => rw [Lexeme.scanAt_blank hc, ih]
  | comment hon hline hend _ ih =>
    subst hon
    rw [Lexeme.scanAt_comment hline hend, ih]
  | opening _ ih => rw [Lexeme.scanAt_opening, List.map_cons, ih]
  | closing _ ih => rw [Lexeme.scanAt_closing, List.map_cons, ih]
  | atom hne hword hend _ ih => rw [Lexeme.scanAt_atom hne hword hend, List.map_cons, ih]

/-- No broken comment is among the tokens. -/
theorem whole (h : Splits comments text tokens) (s : String) : .brokenComment s ∉ tokens := by
  induction h with
  | nil => exact List.not_mem_nil
  | blank _ _ ih | comment _ _ _ _ ih => exact ih
  | opening _ ih | closing _ ih | atom _ _ _ _ ih => simpa using ih

/-- **A text with no broken comment splits** into what the scanner finds. -/
theorem of_scanAt (text : List Char) (position : Nat)
    (h : ∀ s, .brokenComment s ∉ (Lexeme.scanAt comments position text).map Lexeme.token) :
    Splits comments text ((Lexeme.scanAt comments position text).map Lexeme.token) := by
  induction text using text_induction comments generalizing position with
  | nil =>
    rw [Lexeme.scanAt_nil]
    exact .nil
  | blank c rest hc ih =>
    rw [Lexeme.scanAt_blank hc] at h ⊢
    exact .blank hc (ih (position + 1) h)
  | comment line rest hon hline hend ih =>
    subst hon
    rw [Lexeme.scanAt_comment hline hend] at h ⊢
    exact .comment rfl hline hend (ih _ h)
  | broken rest hon hbroken =>
    subst hon
    rw [Lexeme.scanAt_broken hbroken] at h
    exact (h _ (List.mem_cons_self ..)).elim
  | opening rest ih =>
    rw [Lexeme.scanAt_opening, List.map_cons] at h ⊢
    exact .opening (ih (position + 1) fun s hs => h s (List.mem_cons_of_mem _ hs))
  | closing rest ih =>
    rw [Lexeme.scanAt_closing, List.map_cons] at h ⊢
    exact .closing (ih (position + 1) fun s hs => h s (List.mem_cons_of_mem _ hs))
  | atom word rest hne hword hend ih =>
    rw [Lexeme.scanAt_atom hne hword hend, List.map_cons] at h ⊢
    exact .atom hne hword hend (ih _ fun s hs => h s (List.mem_cons_of_mem _ hs))

end Splits

/-- **A text splits into what the scanner finds**, provided that it has no broken comment. -/
theorem splits_iff :
    Splits comments text tokens ↔
      (Lexeme.scan comments text).map Lexeme.token = tokens ∧
        ∀ s, .brokenComment s ∉ tokens := by
  rw [Lexeme.scan_eq]
  constructor
  · exact fun h => ⟨h.scanAt_eq 0, h.whole⟩
  · rintro ⟨rfl, hwhole⟩
    exact .of_scanAt text 0 hwhole

end StrictScheme
