/-
# Text added on a new line

A line feed ends an atom, and a comment too.  So text that is added on a new line leaves
the tokens before it as they are, and adds its own (`Splits.append_line`); only a broken
comment may turn into another token (`prefix_scanAt`).

Lists that are open at the end can be closed there, one parenthesis for each of them
(`Flawless.append_closings`).  Hence a text with open lists is the beginning of an
expression, and the number in its error says how far it is from the end of one.  Any
other error is about a token that is there whatever is added, unless it is a broken
comment (`read_error_extended`).
-/

import StrictScheme.Proofs.Reader.Offence

namespace StrictScheme

variable {comments : Bool} {rest text more : List Char} {tokens others before after : List Token}
  {token : Token} {k : Nat}

/-! ### The tokens of a longer text -/

/-- The end of a line stays one when a line is added. -/
theorem LineEnd.append_line (h : LineEnd rest) (more : List Char) :
    LineEnd (rest ++ '\n' :: more) := by
  cases h with
  | endOfText => exact .lineFeed more
  | lineFeed rest => exact .lineFeed _
  | carriageReturn rest => exact .carriageReturn _

/-- The end of an atom stays one when a line is added. -/
theorem EndsAtom.append_line (h : EndsAtom comments rest) (more : List Char) :
    EndsAtom comments (rest ++ '\n' :: more) := by
  cases rest with
  | nil =>
    rintro _ ⟨⟩
    cases comments <;> decide
  | cons c rest => exact h

/-- **The tokens of an added line come after those of the text.** -/
theorem Splits.append_line (h : Splits comments text tokens)
    (hmore : Splits comments more others) :
    Splits comments (text ++ '\n' :: more) (tokens ++ others) := by
  induction h with
  | nil => exact .blank (by decide) hmore
  | blank hc _ ih => exact .blank hc ih
  | @comment line rest _ hon hline hend _ ih =>
    rw [List.append_assoc]
    exact .comment hon hline (hend.append_line more) ih
  | opening _ ih => exact .opening ih
  | closing _ ih => exact .closing ih
  | @atom word rest _ hne hword hend _ ih =>
    rw [List.append_assoc]
    exact .atom hne hword (hend.append_line more) ih

/-- Closing parentheses are tokens one by one. -/
theorem splits_closings (k : Nat) :
    Splits comments (List.replicate k ')') (List.replicate k .closing) := by
  induction k with
  | zero => exact .nil
  | succ k ih => exact .closing ih

/-- A token that both have in front, and the tokens after it. -/
theorem prefix_cons {first : Token} {found longer : List Token}
    (hwhole : ∀ s, .brokenComment s ∉ before) (h : before <+: first :: found)
    (hrest : ∀ inner : List Token, (∀ s, .brokenComment s ∉ inner) → inner <+: found →
      inner <+: longer) : before <+: first :: longer := by
  rcases List.prefix_cons_iff.1 h with rfl | ⟨inner, rfl, hinner⟩
  · exact List.nil_prefix
  · have hinside : ∀ s, .brokenComment s ∉ inner :=
      fun s hs => hwhole s (List.mem_cons_of_mem first hs)
    exact List.cons_prefix_cons.2 ⟨rfl, hrest inner hinside hinner⟩

/-- **An added line changes none of the tokens before it**, unless there is a broken comment. -/
theorem prefix_scanAt (position : Nat) (hwhole : ∀ s, .brokenComment s ∉ before)
    (h : before <+: (Lexeme.scanAt comments position text).map Lexeme.token) (more : List Char) :
    before <+: (Lexeme.scanAt comments position (text ++ '\n' :: more)).map Lexeme.token := by
  induction text using text_induction comments generalizing position before with
  | nil =>
    rw [Lexeme.scanAt_nil, List.map_nil, List.prefix_nil] at h
    subst h
    exact List.nil_prefix
  | blank c rest hc ih =>
    rw [Lexeme.scanAt_blank hc] at h
    rw [List.cons_append, Lexeme.scanAt_blank hc]
    exact ih _ hwhole h
  | comment line rest hon hline hend ih =>
    subst hon
    rw [Lexeme.scanAt_comment hline hend] at h
    rw [List.append_assoc, Lexeme.scanAt_comment hline (hend.append_line more)]
    exact ih _ hwhole h
  | broken rest hon hbroken =>
    subst hon
    rw [Lexeme.scanAt_broken hbroken] at h
    rcases List.prefix_cons_iff.1 h with rfl | ⟨inner, rfl, -⟩
    · exact List.nil_prefix
    · exact absurd (List.mem_cons_self ..) (hwhole _)
  | opening rest ih =>
    rw [Lexeme.scanAt_opening, List.map_cons] at h
    rw [List.cons_append, Lexeme.scanAt_opening, List.map_cons]
    exact prefix_cons hwhole h fun _ => ih _
  | closing rest ih =>
    rw [Lexeme.scanAt_closing, List.map_cons] at h
    rw [List.cons_append, Lexeme.scanAt_closing, List.map_cons]
    exact prefix_cons hwhole h fun _ => ih _
  | atom word rest hne hword hend ih =>
    rw [Lexeme.scanAt_atom hne hword hend, List.map_cons] at h
    rw [List.append_assoc, Lexeme.scanAt_atom hne hword (hend.append_line more), List.map_cons]
    exact prefix_cons hwhole h fun _ => ih _

/-- The tokens of a text up to one that is no broken comment are found in every longer text. -/
theorem Scans.append_line (h : Scans comments text (before ++ token :: after))
    (hbefore : Flawless before) (htoken : ∀ s, token ≠ .brokenComment s) (more : List Char) :
    ∃ later, Scans comments (text ++ '\n' :: more) (before ++ token :: later) := by
  have hwhole : ∀ s, .brokenComment s ∉ before ++ [token] := by
    intro s hs
    rcases List.mem_append.1 hs with hmem | hmem
    · exact hbefore.whole s hmem
    · exact htoken s (List.mem_singleton.1 hmem).symm
  have hprefix : before ++ [token] <+: (Lexeme.scanAt comments 0 text).map Lexeme.token := by
    rw [← Lexeme.scan_eq, scans_iff.1 h]
    exact ⟨after, by simp⟩
  obtain ⟨later, hlater⟩ := prefix_scanAt 0 hwhole hprefix more
  rw [← Lexeme.scan_eq, List.append_assoc] at hlater
  exact ⟨later, scans_iff.2 hlater.symm⟩

/-! ### Open lists can be closed -/

/-- Each closing parenthesis closes a list. -/
theorem openLists_append_closings (tokens : List Token) (k : Nat) :
    openLists (tokens ++ List.replicate k .closing) = openLists tokens - k := by
  have hnone : (List.replicate k Token.closing).count .opening = 0 :=
    List.count_eq_zero.2 fun hmem => nomatch List.eq_of_mem_replicate hmem
  rw [openLists, List.count_append, List.count_append, List.count_replicate_self, hnone, openLists]
  omega

/-- A closing parenthesis is not at fault while a list is open. -/
theorem Flawless.append_closing (h : Flawless tokens) (hopen : 0 < openLists tokens) :
    Flawless (tokens ++ [.closing]) := by
  refine flawless_concat.2 ⟨h, fun kind hoffends => ?_⟩
  cases hoffends with
  | trailing hcomplete => exact absurd hcomplete.openLists_eq (by omega)
  | unmatched _ hzero => omega

/-- **Open lists can be closed one by one.** -/
theorem Flawless.append_closings (h : Flawless tokens) (hk : k ≤ openLists tokens) :
    Flawless (tokens ++ List.replicate k .closing) := by
  induction k with
  | zero => simpa using h
  | succ k ih =>
    have hopen := openLists_append_closings tokens k
    have hclosed := (ih (by omega)).append_closing (by omega)
    rwa [List.append_assoc, ← List.replicate_succ'] at hclosed

/-- **With all lists closed the expression is complete.** -/
theorem Flawless.isComplete_append_closings (h : Flawless tokens) (hopen : 0 < openLists tokens) :
    IsComplete (tokens ++ List.replicate (openLists tokens) .closing) := by
  by_contra hcomplete
  have hzero := openLists_append_closings tokens (openLists tokens)
  have hnil := (h.append_closings le_rfl).eq_nil (by omega) hcomplete
  rw [List.append_eq_nil_iff, List.replicate_eq_nil_iff] at hnil
  omega

/-! ### Reading a longer text -/

/-- So many closing parentheses. -/
def closings (k : Nat) : String :=
  String.ofList (List.replicate k ')')

/-- The first token at fault is a broken comment. -/
def StopsInComment (comments : Bool) (source : String) : Prop :=
  ∃ before s after, Scans comments source.toList (before ++ .brokenComment s :: after) ∧
    Flawless before

/-- With comments off no text stops in a comment. -/
theorem not_stopsInComment_false (source : String) : ¬ StopsInComment false source := by
  rintro ⟨before, s, after, h, -⟩
  refine Lexeme.whole_scan_false source.toList s ?_
  rw [scans_iff.1 h]
  exact List.mem_append_right before (List.mem_cons_self ..)

/-- The message about open lists tells how many there are. -/
theorem unclosedMessage_inj {m n : Nat} : unclosedMessage m = unclosedMessage n ↔ m = n := by
  unfold unclosedMessage
  rw [String.append_left_inj, String.append_right_inj, Nat.toString_eq_repr, Nat.toString_eq_repr]
  refine ⟨fun h => ?_, congrArg Nat.repr⟩
  calc m = Nat.ofDigitChars 10 m.repr.toList 0 := by
        rw [Nat.toList_repr, Nat.ofDigitChars_ten_toDigits]
    _ = n := by rw [h, Nat.toList_repr, Nat.ofDigitChars_ten_toDigits]

/-- The characters of a text with a line added. -/
theorem toList_append_line (source added : String) :
    (source ++ "\n" ++ added).toList = source.toList ++ '\n' :: added.toList := by
  simp

section

variable {source : String} (htokens : Scans comments source.toList tokens)
  (hflawless : Flawless tokens)

include htokens hflawless

/-- The tokens of a text with a line of closing parentheses added. -/
theorem scans_append_closings (k : Nat) :
    Scans comments (source ++ "\n" ++ closings k).toList
      (tokens ++ List.replicate k .closing) := by
  have hsplits : Splits comments source.toList tokens :=
    splits_iff.2 ⟨scans_iff.1 htokens, hflawless.whole⟩
  rw [toList_append_line, closings, String.toList_ofList]
  exact .whole (hsplits.append_line (splits_closings k))

/-- With as many parentheses as lists are open, there is an expression. -/
theorem read_append_closings (hopen : 0 < openLists tokens) :
    ∃ tree, read comments (source ++ "\n" ++ closings (openLists tokens)) = .ok tree := by
  have hcomplete := hflawless.isComplete_append_closings hopen
  have hscans := scans_append_closings htokens hflawless (openLists tokens)
  rcases read_of_flawless hscans hcomplete.flawless with ⟨hnil, -⟩ | ⟨hstill, -⟩ | ⟨-, hread⟩
  · exact absurd hnil hcomplete.ne_nil
  · exact absurd hcomplete.openLists_eq (by omega)
  · exact hread

/-- With fewer, the rest of the lists stays open. -/
theorem read_append_closings_of_lt (hk : k < openLists tokens) :
    ∃ fault, read comments (source ++ "\n" ++ closings k) = .error fault ∧
      fault.kind = .unclosed ∧ fault.message = unclosedMessage (openLists tokens - k) := by
  have hleft := openLists_append_closings tokens k
  have hscans := scans_append_closings htokens hflawless k
  rcases read_of_flawless hscans (hflawless.append_closings hk.le) with
    ⟨hnil, -⟩ | ⟨-, position, hread⟩ | ⟨hcomplete, -⟩
  · have hzero : openLists [] = 0 := rfl
    rw [hnil] at hleft
    omega
  · rw [hleft] at hread
    exact ⟨_, hread, rfl, rfl⟩
  · exact absurd hcomplete.openLists_eq (by omega)

/-- With more, the first of those left over follows an expression. -/
theorem read_append_closings_of_gt (hopen : 0 < openLists tokens) (hk : openLists tokens < k) :
    ∃ fault, read comments (source ++ "\n" ++ closings k) = .error fault ∧
      fault.kind = .trailingContent := by
  have hcomplete := hflawless.isComplete_append_closings hopen
  have hscans := scans_append_closings htokens hflawless k
  obtain ⟨left, rfl⟩ := Nat.exists_eq_add_of_lt hk
  rw [Nat.add_assoc, ← List.replicate_append_replicate, ← List.append_assoc,
    List.replicate_succ] at hscans
  have hoffends : Offends (tokens ++ List.replicate (openLists tokens) .closing) .closing
      .trailingContent := .trailing hcomplete nofun
  obtain ⟨position, hread⟩ := read_of_offends hscans hcomplete.flawless hoffends
  exact ⟨_, hread, rfl⟩

end

/-- **Any other error stays**, whatever is added, unless it is about a broken comment. -/
theorem read_append_line {source : String} {e : SyntaxError}
    (h : read comments source = .error e) (hempty : e.kind ≠ .empty)
    (hunclosed : e.kind ≠ .unclosed) (hcomment : ¬ StopsInComment comments source)
    (added : String) :
    ∃ fault, read comments (source ++ "\n" ++ added) = .error fault ∧ fault.kind = e.kind ∧
      fault.found = e.found := by
  have htokens := scans_scan comments source.toList
  obtain ⟨before, token, after, hsplit, hbefore, hoffends⟩ :=
    exists_offends h htokens rfl hempty hunclosed
  rw [hsplit] at htokens
  have hwhole : ∀ s, token ≠ .brokenComment s := by
    rintro s rfl
    exact hcomment ⟨before, s, after, htokens, hbefore⟩
  have hfound := (kind_of_offends h htokens rfl hbefore hoffends).2
  obtain ⟨later, hlater⟩ := htokens.append_line hbefore hwhole added.toList
  rw [← toList_append_line] at hlater
  obtain ⟨position, hread⟩ := read_of_offends hlater hbefore hoffends
  exact ⟨_, hread, rfl, hfound.symm⟩

/-- **Open lists are those that can be closed, and other errors cannot be mended.**  The error
about open lists counts them.  So many closing parentheses on a new line make the text an
expression, fewer leave the rest of the lists open, and more are too many.  Any other error, unless
the text is empty or a broken comment is to blame, stays whatever is added on a new line. -/
theorem read_error_extended (comments : Bool) (text : String) (e : SyntaxError)
    (h : read comments text = .error e) :
    (e.kind = .unclosed → ∃ n, 0 < n ∧ (∀ m, e.message = unclosedMessage m ↔ m = n) ∧
      (∃ tree, read comments (text ++ "\n" ++ closings n) = .ok tree) ∧
      (∀ k < n, ∃ fault, read comments (text ++ "\n" ++ closings k) = .error fault ∧
        fault.kind = .unclosed ∧ fault.message = unclosedMessage (n - k)) ∧
      ∀ k > n, ∃ fault, read comments (text ++ "\n" ++ closings k) = .error fault ∧
        fault.kind = .trailingContent) ∧
    (e.kind ≠ .empty → e.kind ≠ .unclosed →
      comments = false ∨ ¬ StopsInComment comments text →
      ∀ added, ∃ fault, read comments (text ++ "\n" ++ added) = .error fault ∧
        fault.kind = e.kind ∧ fault.found = e.found) := by
  have htokens := scans_scan comments text.toList
  constructor
  · intro hkind
    obtain ⟨hflawless, hopen, hmessage, -⟩ := unclosed_cases h htokens hkind
    refine ⟨_, hopen, fun m => ?_, read_append_closings htokens hflawless hopen,
      fun k hk => read_append_closings_of_lt htokens hflawless hk,
      fun k hk => read_append_closings_of_gt htokens hflawless hopen hk⟩
    rw [hmessage, unclosedMessage_inj, eq_comm]
  · intro hempty hunclosed hcomment added
    have hstops : ¬ StopsInComment comments text := by
      rcases hcomment with rfl | hstops
      · exact not_stopsInComment_false text
      · exact hstops
    exact read_append_line h hempty hunclosed hstops added

/-- A text that ends inside a comment is closed on the next line; a false literal stays one. -/
theorem read_error_extended_lines :
    (∃ tree, read true ("((f ;x" ++ "\n" ++ closings 2) = .ok tree) ∧
      ∃ fault, read false ("(f 1a" ++ "\n" ++ "b)") = .error fault ∧
        fault.kind = .malformedAtom ∧ fault.found = some "1a" := by
  obtain ⟨e, hread, hkind, hmessage⟩ : ∃ e, read true "((f ;x" = .error e ∧ e.kind = .unclosed ∧
      e.message = unclosedMessage 2 := ⟨_, by rfl, rfl, rfl⟩
  obtain ⟨n, -, hcount, hclosed, -⟩ := (read_error_extended true "((f ;x" e hread).1 hkind
  obtain rfl := (hcount 2).1 hmessage
  obtain ⟨e', hread', hkind', hfound⟩ : ∃ e, read false "(f 1a" = .error e ∧
      e.kind = .malformedAtom ∧ e.found = some "1a" := ⟨_, by rfl, rfl, rfl⟩
  obtain ⟨fault, hfault, hsame, hagain⟩ := (read_error_extended false "(f 1a" e' hread').2
    (by simp [hkind']) (by simp [hkind']) (.inl rfl) "b)"
  exact ⟨hclosed, fault, hfault, hsame.trans hkind', hagain.trans hfound⟩

end StrictScheme
