/-
# Where comments stand

A comment goes from a semicolon to a place behind it if no line ends on the way
(`CommentSpans`).  A line ends at a line feed, and at a carriage return that a line feed
follows.  A semicolon inside a comment changes nothing: whatever it spans, the comment
spans too.  Hence a character is part of a comment if some semicolon spans up to it
(`InComment`), and a comment is broken if its semicolon spans up to a carriage return
(`BreaksFrom`).

The scanner replaces comments by spaces before it looks for tokens.  What it makes of a
text is what the positions say (`Comment.blank_eq`): with no broken comment it is the
text with a space for each character inside a comment (`blankComments`), and otherwise
it is that, for the text before the first one.
-/

import Mathlib.Data.Nat.Find
import StrictScheme.Proofs.Reader.Split

namespace StrictScheme

/-! ### Positions -/

/-- A line ends at a position: a line feed stands there, or a carriage return before one. -/
def LineEndsAt (text : List Char) (k : Nat) : Prop :=
  text[k]? = some '\n' ∨ text[k]? = some '\r' ∧ text[k + 1]? = some '\n'

instance (text : List Char) (k : Nat) : Decidable (LineEndsAt text k) :=
  inferInstanceAs (Decidable (_ ∨ _))

/-- The comment that the semicolon at `j` starts or is inside of goes up to `i`. -/
def CommentSpans (text : List Char) (j i : Nat) : Prop :=
  text[j]? = some ';' ∧ j ≤ i ∧ i < text.length ∧ ∀ k ≤ i, j ≤ k → ¬ LineEndsAt text k

instance (text : List Char) (j i : Nat) : Decidable (CommentSpans text j i) :=
  inferInstanceAs (Decidable (_ ∧ _))

/-- The character at a position is part of a comment. -/
def InComment (text : List Char) (i : Nat) : Prop :=
  ∃ j ≤ i, CommentSpans text j i

instance (text : List Char) (i : Nat) : Decidable (InComment text i) :=
  inferInstanceAs (Decidable (∃ j ≤ i, _))

/-- The text with a space for each character of a comment. -/
def blankComments (text : List Char) : List Char :=
  text.mapIdx fun i c => if InComment text i then ' ' else c

/-- The comment that the semicolon at `j` starts or is inside of has a carriage return in it, which
no line feed follows. -/
def BreaksFrom (text : List Char) (j : Nat) : Prop :=
  ∃ i, CommentSpans text j i ∧ text[i]? = some '\r'

/-- The first broken comment starts at `j`. -/
def FirstBroken (text : List Char) (j : Nat) : Prop :=
  BreaksFrom text j ∧ ∀ i < j, ¬ BreaksFrom text i

variable {c : Char} {text front rest line : List Char} {tokens : List Token} {i j k : Nat}

/-- Only a semicolon starts a broken comment. -/
theorem BreaksFrom.semicolon (h : BreaksFrom text j) : text[j]? = some ';' := by
  obtain ⟨i, hspans, -⟩ := h
  exact hspans.1

/-! ### Positions in two parts of a text -/

/-- A line of the second part ends where it did. -/
theorem lineEndsAt_append (front rest : List Char) (k : Nat) :
    LineEndsAt (front ++ rest) (front.length + k) ↔ LineEndsAt rest k := by
  simp only [LineEndsAt, Nat.add_assoc, List.getElem?_append_right (Nat.le_add_right ..),
    Nat.add_sub_cancel_left]

/-- A comment that ends before the text does ends with its line. -/
theorem LineEnd.lineEndsAt (h : LineEnd rest) (hne : rest ≠ []) : LineEndsAt rest 0 := by
  cases h with
  | endOfText => exact absurd rfl hne
  | lineFeed rest => exact .inl rfl
  | carriageReturn rest => exact .inr ⟨rfl, rfl⟩

/-- A comment of the second part is one of the text. -/
theorem commentSpans_append (front rest : List Char) (j i : Nat) :
    CommentSpans (front ++ rest) (front.length + j) (front.length + i) ↔
      CommentSpans rest j i := by
  have hline : (∀ k ≤ front.length + i, front.length + j ≤ k → ¬ LineEndsAt (front ++ rest) k) ↔
      ∀ k ≤ i, j ≤ k → ¬ LineEndsAt rest k := by
    constructor
    · intro h k hki hjk
      rw [← lineEndsAt_append front]
      exact h _ (by omega) (by omega)
    · intro h k hki hjk
      obtain ⟨m, rfl⟩ := Nat.exists_eq_add_of_le (show front.length ≤ k by omega)
      rw [lineEndsAt_append]
      exact h m (by omega) (by omega)
  rw [CommentSpans, CommentSpans, hline, List.getElem?_append_right (Nat.le_add_right ..),
    Nat.add_sub_cancel_left, List.length_append, Nat.add_le_add_iff_left, Nat.add_lt_add_iff_left]

/-- No comment goes from the first part of a text into the second. -/
def NoSpill (front rest : List Char) : Prop :=
  ∀ j < front.length, ∀ i, front.length ≤ i → ¬ CommentSpans (front ++ rest) j i

/-- Nothing that is no semicolon starts a comment. -/
theorem noSpill_cons (hc : c ≠ ';') (rest : List Char) : NoSpill [c] rest := by
  intro j hj i _ h
  obtain rfl : j = 0 := by simpa using hj
  exact hc (Option.some.inj h.1)

/-- A comment stops where its line ends. -/
theorem noSpill_comment (line : List Char) (hend : LineEnd rest) :
    NoSpill (';' :: line) rest := by
  intro j hj i hi h
  have hne : rest ≠ [] := by
    rintro rfl
    have hlt := h.2.2.1
    rw [List.append_nil] at hlt
    omega
  have hends : LineEndsAt (';' :: line ++ rest) ((';' :: line).length + 0) :=
    (lineEndsAt_append ..).2 (hend.lineEndsAt hne)
  exact h.2.2.2 _ (by omega) (by omega) hends

namespace NoSpill

/-- A character of the second part is in a comment if it was in one there. -/
theorem inComment_append (h : NoSpill front rest) (i : Nat) :
    InComment (front ++ rest) (front.length + i) ↔ InComment rest i := by
  constructor
  · rintro ⟨j, hji, hspans⟩
    have hj : front.length ≤ j := by
      by_contra hj
      exact h j (by omega) _ (Nat.le_add_right ..) hspans
    obtain ⟨m, rfl⟩ := Nat.exists_eq_add_of_le hj
    exact ⟨m, by omega, (commentSpans_append ..).1 hspans⟩
  · rintro ⟨j, hji, hspans⟩
    exact ⟨front.length + j, by omega, (commentSpans_append ..).2 hspans⟩

/-- The comments of the second part are replaced as they were. -/
theorem blankComments_append (h : NoSpill front rest) :
    blankComments (front ++ rest) =
      front.mapIdx (fun i c => if InComment (front ++ rest) i then ' ' else c) ++
        blankComments rest := by
  rw [blankComments, blankComments, List.mapIdx_append]
  simp only [Nat.add_comm _ front.length, h.inComment_append]

end NoSpill

/-- The broken comments of the second part are those that it had. -/
theorem breaksFrom_append (front rest : List Char) (j : Nat) :
    BreaksFrom (front ++ rest) (front.length + j) ↔ BreaksFrom rest j := by
  constructor
  · rintro ⟨i, hspans, hreturn⟩
    obtain ⟨m, rfl⟩ := Nat.exists_eq_add_of_le (show front.length ≤ i from by
      have hji := hspans.2.1
      omega)
    rw [List.getElem?_append_right (Nat.le_add_right ..), Nat.add_sub_cancel_left] at hreturn
    exact ⟨m, (commentSpans_append ..).1 hspans, hreturn⟩
  · rintro ⟨i, hspans, hreturn⟩
    refine ⟨front.length + i, (commentSpans_append ..).2 hspans, ?_⟩
    rw [List.getElem?_append_right (Nat.le_add_right ..), Nat.add_sub_cancel_left, hreturn]

/-- The first broken comment of a text, if there is none in the first part. -/
theorem firstBroken_append (hfront : ∀ j < front.length, ¬ BreaksFrom (front ++ rest) j)
    (h : FirstBroken (front ++ rest) j) : ∃ m, j = front.length + m ∧ FirstBroken rest m := by
  obtain ⟨hbreaks, hfirst⟩ := h
  have hj : front.length ≤ j := by
    by_contra hj
    exact hfront j (by omega) hbreaks
  obtain ⟨m, rfl⟩ := Nat.exists_eq_add_of_le hj
  refine ⟨m, rfl, (breaksFrom_append ..).1 hbreaks, fun i hi hbroken => ?_⟩
  exact hfirst (front.length + i) (by omega) ((breaksFrom_append ..).2 hbroken)

/-! ### What a text can start with -/

/-- No character of a comment that ends with its line breaks it. -/
theorem not_breaksFrom_comment (hline : ∀ c ∈ line, Comment.isWithinLine c = true)
    (hend : LineEnd rest) (hj : j < (';' :: line).length) :
    ¬ BreaksFrom (';' :: line ++ rest) j := by
  rintro ⟨i, hspans, hreturn⟩
  by_cases hi : i < (';' :: line).length
  · rw [List.getElem?_append_left hi] at hreturn
    rcases List.mem_cons.1 (List.mem_of_getElem? hreturn) with heq | hmem
    · exact absurd heq (by decide)
    · exact absurd (hline _ hmem) (by decide)
  · exact noSpill_comment line hend j hj i (by omega) hspans

/-- A line does not end inside itself. -/
theorem not_lineEndsAt_of_lt (hfront : ∀ c ∈ front, Comment.isWithinLine c = true)
    (hk : k < front.length) (rest : List Char) : ¬ LineEndsAt (front ++ rest) k := by
  have hwithin : Comment.isWithinLine (front.get ⟨k, hk⟩) = true := hfront _ (List.get_mem ..)
  have hget : (front ++ rest)[k]? = some (front.get ⟨k, hk⟩) := by
    rw [List.getElem?_append_left hk, List.getElem?_eq_getElem hk]
    rfl
  rw [LineEndsAt, hget]
  rintro (heq | ⟨heq, -⟩)
  · rw [Option.some.inj heq] at hwithin
    exact absurd hwithin (by decide)
  · rw [Option.some.inj heq] at hwithin
    exact absurd hwithin (by decide)

/-- A comment that meets a carriage return with no line feed after it is broken. -/
theorem breaksFrom_of_return (hline : ∀ c ∈ line, Comment.isWithinLine c = true)
    (hrest : rest.head? ≠ some '\n') : BreaksFrom (';' :: line ++ '\r' :: rest) 0 := by
  have hfront : ∀ c ∈ ';' :: line, Comment.isWithinLine c = true :=
    List.forall_mem_cons.2 ⟨by decide, hline⟩
  refine ⟨(';' :: line).length + 0, ⟨rfl, Nat.zero_le _, by simp, fun k hk _ hends => ?_⟩, ?_⟩
  · rcases Nat.lt_or_eq_of_le hk with hlt | rfl
    · exact not_lineEndsAt_of_lt hfront hlt _ hends
    · rw [lineEndsAt_append] at hends
      rcases hends with hfeed | ⟨-, hfeed⟩
      · exact absurd hfeed (by simp)
      · exact hrest (by simpa [List.head?_eq_getElem?] using hfeed)
  · rw [List.getElem?_append_right (Nat.le_add_right ..), Nat.add_sub_cancel_left]
    rfl

/-- A semicolon before a broken line starts a broken comment. -/
theorem breaksFrom_zero (h : Comment.isBroken rest = true) : BreaksFrom (';' :: rest) 0 := by
  obtain ⟨line, stop, rfl, hline, hstop⟩ := exists_run Comment.isWithinLine rest
  have hnoEnd : ¬ LineEnd stop := by
    rw [← Comment.isBroken_append hline hstop, h]
    decide
  -- the line stops at a character that is not part of it, and does not end there
  cases stop with
  | nil => exact absurd .endOfText hnoEnd
  | cons c more =>
    have hc : c = '\n' ∨ c = '\r' := by
      have hnot : Comment.isWithinLine c = false := hstop c rfl
      grind [Comment.isWithinLine]
    rcases hc with rfl | rfl
    · exact absurd (.lineFeed more) hnoEnd
    · refine breaksFrom_of_return hline fun hhead => hnoEnd ?_
      obtain ⟨after, rfl⟩ := List.head?_eq_some_iff.1 hhead
      exact .carriageReturn after

/-- **A text is made of comments and other characters**, up to its first broken comment. -/
theorem comment_induction {motive : List Char → Prop} (nil : motive [])
    (plain : ∀ c rest, c ≠ ';' → motive rest → motive (c :: rest))
    (comment : ∀ line rest, (∀ c ∈ line, Comment.isWithinLine c = true) → LineEnd rest →
      motive rest → motive (';' :: line ++ rest))
    (broken : ∀ rest, Comment.isBroken rest = true → motive (';' :: rest)) (text : List Char) :
    motive text := by
  induction text using text_induction true with
  | nil => exact nil
  | blank c rest hc ih =>
    refine plain c rest ?_ ih
    rintro rfl
    exact absurd hc (by decide)
  | comment line rest _ hline hend ih => exact comment line rest hline hend ih
  | broken rest _ hbroken => exact broken rest hbroken
  | opening rest ih => exact plain '(' rest (by decide) ih
  | closing rest ih => exact plain ')' rest (by decide) ih
  | atom word rest hne hword hend ih =>
    clear hne
    induction word with
    | nil => exact ih
    | cons c word ihword =>
      have hc : c ≠ ';' := ne_semicolon_of_joinsAtom (hword c (List.mem_cons_self ..))
      exact plain c _ hc (ihword fun d hd => hword d (List.mem_cons_of_mem c hd))

/-- A character outside comments stays. -/
theorem blankComments_cons (hc : c ≠ ';') (rest : List Char) :
    blankComments (c :: rest) = c :: blankComments rest := by
  have hnone : ¬ InComment ([c] ++ rest) 0 := by
    rintro ⟨j, hj, hspans⟩
    obtain rfl : j = 0 := Nat.le_zero.1 hj
    exact hc (Option.some.inj hspans.1)
  have happend := (noSpill_cons hc rest).blankComments_append
  rw [List.mapIdx_singleton, if_neg hnone] at happend
  exact happend

/-- Each character of a comment becomes a space. -/
theorem blankComments_comment (hline : ∀ c ∈ line, Comment.isWithinLine c = true)
    (hend : LineEnd rest) :
    blankComments (';' :: line ++ rest) =
      List.replicate (line.length + 1) ' ' ++ blankComments rest := by
  have hfront : ∀ c ∈ ';' :: line, Comment.isWithinLine c = true :=
    List.forall_mem_cons.2 ⟨by decide, hline⟩
  have hinside : ∀ i < (';' :: line).length, InComment (';' :: line ++ rest) i := by
    intro i hi
    refine ⟨0, Nat.zero_le i, rfl, Nat.zero_le i, ?_, fun k hk _ => ?_⟩
    · rw [List.length_append]
      omega
    · exact not_lineEndsAt_of_lt hfront (by omega) rest
  rw [(noSpill_comment line hend).blankComments_append]
  congr 1
  refine List.ext_getElem (by simp) fun i hi _ => ?_
  rw [List.length_mapIdx] at hi
  rw [List.getElem_mapIdx, if_pos (hinside i hi), List.getElem_replicate]

/-- A line still ends in what stands before a semicolon. -/
theorem LineEnd.take (h : LineEnd rest) (hi : rest[i]? = some ';') : LineEnd (rest.take i) := by
  cases h with
  | endOfText => exact absurd hi (by simp)
  | lineFeed rest =>
    cases i with
    | zero => exact .endOfText
    | succ i => exact .lineFeed _
  | carriageReturn rest =>
    match i, hi with
    | 0, _ => exact .endOfText
    | 1, hi => exact absurd hi (by simp)
    | i + 2, _ => exact .carriageReturn _

namespace Comment

/-- **What is made of a text before it is scanned**: a space for each character of a comment, up to
the first broken one. -/
theorem blank_eq (text : List Char) :
    ((∀ j, ¬ BreaksFrom text j) → blank text = ⟨blankComments text, none⟩) ∧
      ∀ j, FirstBroken text j →
        blank text = ⟨blankComments (text.take j), some (text.drop j)⟩ := by
  induction text using comment_induction with
  | nil =>
    refine ⟨fun _ => rfl, fun j hj => ?_⟩
    obtain ⟨i, hspans, -⟩ := hj.1
    exact absurd hspans.2.2.1 (Nat.not_lt_zero i)
  | plain c rest hc ih =>
    have hnone : ∀ j < [c].length, ¬ BreaksFrom ([c] ++ rest) j := by
      intro j hj hbreaks
      obtain rfl : j = 0 := by simpa using hj
      exact hc (Option.some.inj hbreaks.semicolon)
    constructor
    · intro hwhole
      have hrest := ih.1 fun j hj => hwhole ([c].length + j) ((breaksFrom_append [c] rest j).2 hj)
      rw [blank_cons hc, hrest, blankComments_cons hc]
      rfl
    · intro j hj
      obtain ⟨m, rfl, hm⟩ := firstBroken_append hnone hj
      rw [blank_cons hc, ih.2 m hm, Nat.add_comm, List.length_singleton, List.take_succ_cons,
        List.drop_succ_cons, blankComments_cons hc]
      rfl
  | comment line rest hline hend ih =>
    have hnone : ∀ j < (';' :: line).length, ¬ BreaksFrom (';' :: line ++ rest) j :=
      fun j hj => not_breaksFrom_comment hline hend hj
    constructor
    · intro hwhole
      have hrest := ih.1 fun j hj => hwhole _ ((breaksFrom_append (';' :: line) rest j).2 hj)
      rw [blank_comment hline hend, hrest, blankComments_comment hline hend]
    · intro j hj
      obtain ⟨m, rfl, hm⟩ := firstBroken_append hnone hj
      have hbefore : LineEnd (rest.take m) := hend.take hm.1.semicolon
      rw [blank_comment hline hend, ih.2 m hm, List.take_length_add_append,
        List.drop_length_add_append, blankComments_comment hline hbefore]
  | broken rest hbroken =>
    have hstart := breaksFrom_zero hbroken
    refine ⟨fun hwhole => absurd hstart (hwhole 0), fun j hj => ?_⟩
    obtain rfl : j = 0 := by
      by_contra hne
      exact hj.2 0 (Nat.pos_of_ne_zero hne) hstart
    rw [blank, blankFrom, if_pos rfl, if_pos hbroken]
    rfl

end Comment

/-! ### The tokens of a text -/

/-- **The tokens of a text.**  A broken comment is the last one, with all the text from it on. -/
inductive Scans (comments : Bool) (text : List Char) : List Token → Prop
  | whole {tokens : List Token} (h : Splits comments text tokens) : Scans comments text tokens
  | broken {tokens : List Token} {j : Nat} (hon : comments = true) (hj : FirstBroken text j)
      (h : Splits comments (text.take j) tokens) :
      Scans comments text (tokens ++ [.brokenComment (String.ofList (text.drop j))])

/-- There is no broken comment before the first one. -/
theorem FirstBroken.not_breaksFrom_take (h : FirstBroken text j) (i : Nat) :
    ¬ BreaksFrom (text.take j) i := by
  rintro ⟨m, ⟨hstart, him, hm, hline⟩, hreturn⟩
  have hmj : m < j := by
    rw [List.length_take] at hm
    omega
  rw [List.getElem?_take_of_lt (by omega)] at hstart hreturn
  refine h.2 i (by omega) ⟨m, ⟨hstart, him, ?_, fun k hkm hik hends => ?_⟩, hreturn⟩
  · rw [List.length_take] at hm
    omega
  · -- a line that ends before a semicolon does so without it
    refine hline k hkm hik ?_
    rcases hends with hfeed | ⟨hcr, hfeed⟩
    · exact .inl (by rwa [List.getElem?_take_of_lt (by omega)])
    · have hne : k + 1 ≠ j := by
        rintro rfl
        rw [h.1.semicolon] at hfeed
        exact absurd hfeed (by decide)
      refine .inr ⟨?_, ?_⟩
      · rwa [List.getElem?_take_of_lt (by omega)]
      · rwa [List.getElem?_take_of_lt (by omega)]

namespace Lexeme

/-- **Without a broken comment** the tokens are those of the text with spaces for comments. -/
theorem scan_of_whole (h : ∀ j, ¬ BreaksFrom text j) :
    scan true text = scan false (blankComments text) := by
  have hblank := (Comment.blank_eq text).1 h
  simp [scan, hblank]

/-- **Otherwise** the first broken comment comes after the tokens before it. -/
theorem scan_of_firstBroken (h : FirstBroken text j) :
    scan true text =
      scan true (text.take j) ++ [⟨j, .brokenComment (String.ofList (text.drop j))⟩] := by
  have hblank := (Comment.blank_eq text).2 j h
  have hlength : (blankComments (text.take j)).length = j := by
    have hj := (List.getElem?_eq_some_iff.1 h.1.semicolon).1
    rw [blankComments, List.length_mapIdx, List.length_take]
    omega
  rw [scan_of_whole h.not_breaksFrom_take]
  simp [scan, hblank, hlength]

/-- The word that a scan has begun is no broken comment. -/
theorem Suffix.whole_close {suffix : Suffix} {s : String}
    (h : .brokenComment s ∉ suffix.lexemes.map Lexeme.token) (position : Nat) :
    .brokenComment s ∉ (suffix.close position).map Lexeme.token := by
  unfold Suffix.close
  split
  · exact h
  · simpa using h

/-- Nor is anything found where comments are off. -/
theorem Suffix.whole_scan (position : Nat) (text : List Char) (s : String) :
    .brokenComment s ∉ (Suffix.scan position text).lexemes.map Lexeme.token := by
  induction text generalizing position with
  | nil => exact List.not_mem_nil
  | cons c rest ih =>
    have hrest := ih (position + 1)
    have hclose := Suffix.whole_close hrest (position + 1)
    rw [Suffix.scan, Suffix.cons]
    split_ifs
    · exact hrest
    · simpa using hclose
    · simpa using hclose
    · exact hclose

/-- No broken comment is found where a semicolon is a character like any other. -/
theorem whole_scan_false (text : List Char) (s : String) :
    .brokenComment s ∉ (scan false text).map Lexeme.token :=
  Suffix.whole_close (Suffix.whole_scan 0 text s) 0

end Lexeme

/-- A text with a broken comment has a first one. -/
theorem BreaksFrom.exists_first (h : BreaksFrom text j) : ∃ i, FirstBroken text i := by
  classical
  have hex : ∃ i, BreaksFrom text i := ⟨j, h⟩
  exact ⟨Nat.find hex, Nat.find_spec hex, fun i hi => Nat.find_min hex hi⟩

/-- What stands before the first broken comment splits. -/
theorem FirstBroken.splits_take (h : FirstBroken text j) :
    Splits true (text.take j) ((Lexeme.scan true (text.take j)).map Lexeme.token) := by
  refine splits_iff.2 ⟨rfl, fun s => ?_⟩
  rw [Lexeme.scan_of_whole h.not_breaksFrom_take]
  exact Lexeme.whole_scan_false _ s

/-- **The scanner finds the tokens of every text.** -/
theorem scans_iff {comments : Bool} :
    Scans comments text tokens ↔ (Lexeme.scan comments text).map Lexeme.token = tokens := by
  constructor
  · rintro (h | @⟨tokens, j, rfl, hj, h⟩)
    · exact (splits_iff.1 h).1
    · rw [Lexeme.scan_of_firstBroken hj, List.map_append, (splits_iff.1 h).1]
      rfl
  · rintro rfl
    cases comments with
    | false => exact .whole (splits_iff.2 ⟨rfl, Lexeme.whole_scan_false text⟩)
    | true =>
      by_cases hwhole : ∀ j, ¬ BreaksFrom text j
      · refine .whole (splits_iff.2 ⟨rfl, fun s => ?_⟩)
        rw [Lexeme.scan_of_whole hwhole]
        exact Lexeme.whole_scan_false _ s
      · obtain ⟨i, hbreaks⟩ := not_forall_not.1 hwhole
        obtain ⟨j, hj⟩ := hbreaks.exists_first
        rw [Lexeme.scan_of_firstBroken hj, List.map_append]
        exact .broken rfl hj hj.splits_take

/-- The scanner finds the tokens of a text. -/
theorem scans_scan (comments : Bool) (text : List Char) :
    Scans comments text ((Lexeme.scan comments text).map Lexeme.token) :=
  scans_iff.2 rfl

end StrictScheme
