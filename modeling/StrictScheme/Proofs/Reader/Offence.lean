/-
# The first token at fault

Whether a token is at fault depends on the tokens before it alone: on whether they are
a complete expression, and on how many of their lists are open (`Offends`).  Tokens
without a fault among them are what the reader takes (`flawless_iff`), so reading stops
at the first token at fault, and the error is about that one (`read_eq_fault`).  Tokens
without a fault are none at all, or leave lists open, or are a complete expression
(`read_of_flawless`).

`read_error_classified` puts this together: what kind of error there is can be seen from
the tokens, one kind at a time, and nothing after the token at fault plays a role.
-/

import Mathlib.Data.List.Induction
import StrictScheme.Proofs.Reader.Comment
import StrictScheme.Proofs.Reader.Parse

namespace StrictScheme

/-! ### Tokens at fault -/

/-- How many lists are open after some tokens. -/
def openLists (tokens : List Token) : Nat :=
  tokens.count .opening - tokens.count .closing

/-- The tokens are those of a tree that the reader takes. -/
def IsComplete (tokens : List Token) : Prop :=
  ∃ tree : SExpr, tree.Fits 0 ∧ tokens = tree.tokens

/-- **A token is at fault after some others.** -/
inductive Offends : List Token → Token → SyntaxError.Kind → Prop
  | brokenComment (before : List Token) (text : String) :
      Offends before (.brokenComment text) .malformedAtom
  | trailing {before : List Token} {token : Token} (hbefore : IsComplete before)
      (htoken : ∀ text, token ≠ .brokenComment text) : Offends before token .trailingContent
  | tooDeep {before : List Token} (hbefore : ¬ IsComplete before)
      (hopen : maxNesting ≤ openLists before) : Offends before .opening .tooDeeplyNested
  | unmatched {before : List Token} (hbefore : ¬ IsComplete before)
      (hopen : openLists before = 0) : Offends before .closing .unmatchedClose
  | malformed {before : List Token} {a : String} (hbefore : ¬ IsComplete before)
      (ha : Atom.refusal? a ≠ none) : Offends before (.atom a) .malformedAtom

/-- None of the tokens is at fault after those before it. -/
def Flawless (tokens : List Token) : Prop :=
  ∀ before token after kind, tokens = before ++ token :: after → ¬ Offends before token kind

/-- What is said of a token at fault. -/
def Lexeme.complaint (text : String) (lexeme : Lexeme) : SyntaxError.Kind → String
  | .trailingContent => "Unexpected input after complete expression"
  | .tooDeeplyNested =>
    "Expression too deeply nested (max depth: " ++ toString maxNesting ++ ")"
  | .unmatchedClose => "Unmatched ')' with no open list"
  | .malformedAtom | .unclosed | .empty =>
    match lexeme.token with
    | .atom a => ((Atom.refusal? a).map Atom.Refusal.message).getD ""
    | _ => "Invalid syntax at position " ++
        toString (Text.byteLength (text.toList.take lexeme.position))

/-- The error about a token at fault. -/
def Lexeme.fault (text : String) (lexeme : Lexeme) (kind : SyntaxError.Kind) : SyntaxError :=
  .locate kind (lexeme.complaint text kind) text lexeme.position (some lexeme.token.print)

/-- What is said of lists that are open at the end of a text. -/
def unclosedMessage (count : Nat) : String :=
  "Unexpected end of input: " ++ toString count ++ " unclosed '('"

variable {comments : Bool} {text : String} {tokens before after : List Token} {token : Token}
  {kind : SyntaxError.Kind} {lexemes : List Lexeme} {lexeme : Lexeme} {progress : Progress}

/-- Where there is no token, none is at fault. -/
theorem flawless_nil : Flawless [] := by
  intro before token after kind h
  simp at h

/-- Tokens without a fault may go on with one that is not at fault after them. -/
theorem flawless_concat :
    Flawless (tokens ++ [token]) ↔ Flawless tokens ∧ ∀ kind, ¬ Offends tokens token kind := by
  constructor
  · intro h
    refine ⟨fun before t after kind heq => ?_, fun kind => h tokens token [] kind rfl⟩
    exact h before t (after ++ [token]) kind (by simp [heq])
  · rintro ⟨htokens, htoken⟩ before t after kind heq
    rcases List.eq_nil_or_concat after with rfl | ⟨after, last, rfl⟩
    · obtain ⟨rfl, hlast⟩ := List.append_inj' heq rfl
      obtain rfl := (List.cons.inj hlast).1
      exact htoken kind
    · rw [List.concat_eq_append, ← List.cons_append, ← List.append_assoc] at heq
      exact htokens before t after kind (List.append_inj' heq rfl).1

/-- **Where there is a fault, there is a first one.** -/
theorem exists_first_offence (h : ¬ Flawless tokens) :
    ∃ before token after kind, tokens = before ++ token :: after ∧ Flawless before ∧
      Offends before token kind := by
  induction tokens using List.reverseRecOn with
  | nil => exact absurd flawless_nil h
  | append_singleton tokens token ih =>
    by_cases hbefore : Flawless tokens
    · obtain ⟨kind, hoffends⟩ : ∃ kind, Offends tokens token kind := by
        by_contra hnone
        exact h (flawless_concat.2 ⟨hbefore, fun kind hkind => hnone ⟨kind, hkind⟩⟩)
      exact ⟨tokens, token, [], kind, rfl, hbefore, hoffends⟩
    · obtain ⟨before, t, after, kind, rfl, hflawless, hoffends⟩ := ih hbefore
      exact ⟨before, t, after ++ [token], kind, by simp, hflawless, hoffends⟩

/-! ### Open lists -/

namespace SExpr

mutual

/-- The parentheses of a tree are balanced. -/
theorem count_tokens : (tree : SExpr) → tree.tokens.count .opening = tree.tokens.count .closing
  | .atom token => rfl
  | .list elements => by simp [tokens, count_tokensAll elements]

/-- So are those of trees that stand one after the other. -/
theorem count_tokensAll : (trees : List SExpr) →
    (tokensAll trees).count .opening = (tokensAll trees).count .closing
  | [] => rfl
  | first :: rest => by simp [tokensAll, count_tokens first, count_tokensAll rest]

end

/-- Every tree has a token. -/
theorem tokens_ne_nil (tree : SExpr) : tree.tokens ≠ [] := by
  cases tree <;> simp [tokens]

end SExpr

/-- After a complete expression no list is open. -/
theorem IsComplete.openLists_eq (h : IsComplete tokens) : openLists tokens = 0 := by
  obtain ⟨tree, -, rfl⟩ := h
  rw [openLists, tree.count_tokens, Nat.sub_self]

/-- A complete expression has a token. -/
theorem IsComplete.ne_nil (h : IsComplete tokens) : tokens ≠ [] := by
  obtain ⟨tree, -, rfl⟩ := h
  exact tree.tokens_ne_nil

namespace Progress

/-- In the tokens of open lists there are as many more opening parentheses. -/
theorem count_openTokens (opened : List OpenList) :
    (openTokens opened).count .opening = (openTokens opened).count .closing + opened.length := by
  induction opened with
  | nil => rfl
  | cons list outer ih =>
    rw [openTokens, List.count_append, List.count_append, List.count_cons_self,
      List.count_cons_of_ne (by decide), SExpr.count_tokensAll, ih, List.length_cons]
    omega

/-- The lists that are open after the tokens taken so far. -/
theorem openLists_tokens (progress : Progress) :
    openLists progress.tokens = progress.opened.length := by
  have hresult : ((progress.result.map SExpr.tokens).getD []).count .opening =
      ((progress.result.map SExpr.tokens).getD []).count .closing := by
    cases progress.result with
    | none => rfl
    | some tree => exact tree.count_tokens
  have hopened := count_openTokens progress.opened
  rw [openLists, tokens, List.count_append, List.count_append]
  omega

/-! ### Taking tokens -/

/-- The tokens taken so far are a complete expression once there is a result. -/
theorem isComplete_iff (hfold : lexemes.foldlM (take text) {} = .ok progress) :
    IsComplete (lexemes.map Lexeme.token) ↔ ∃ tree, progress.result = some tree := by
  constructor
  · rintro ⟨tree, hfits, htokens⟩
    have hread : lexemes.foldlM (take text) {} = .ok (add {} tree) :=
      foldlM_tokens tree htokens hfits
    obtain rfl := Except.ok.inj (hfold.symm.trans hread)
    exact ⟨tree, rfl⟩
  · rintro ⟨tree, hresult⟩
    obtain ⟨hsound, htokens⟩ := Progress.sound_of_foldlM hfold
    obtain ⟨hopened, hfits⟩ := hsound.result tree hresult
    refine ⟨tree, hfits, ?_⟩
    rw [tokens, hopened, hresult] at htokens
    exact htokens.symm

/-- Tokens that are not complete leave no complete expression. -/
theorem result_eq_none (hfold : lexemes.foldlM (take text) {} = .ok progress)
    (h : ¬ IsComplete (lexemes.map Lexeme.token)) : progress.result = none := by
  cases hresult : progress.result with
  | none => rfl
  | some tree => exact absurd ((isComplete_iff hfold).2 ⟨tree, hresult⟩) h

/-- The lists that are open after the tokens taken so far, which are not too many. -/
theorem openLists_eq (hfold : lexemes.foldlM (take text) {} = .ok progress) :
    openLists (lexemes.map Lexeme.token) = progress.opened.length ∧
      progress.opened.length ≤ maxNesting := by
  obtain ⟨hsound, htokens⟩ := Progress.sound_of_foldlM hfold
  refine ⟨?_, hsound.opened.length_le⟩
  rw [← openLists_tokens, htokens]

/-- **A token at fault is refused.** -/
theorem take_of_offends (hfold : lexemes.foldlM (take text) {} = .ok progress)
    (h : Offends (lexemes.map Lexeme.token) lexeme.token kind) :
    progress.take text lexeme = .error (lexeme.fault text kind) := by
  obtain ⟨hopen, -⟩ := openLists_eq hfold
  have hnone := result_eq_none hfold
  have hsome := (isComplete_iff hfold).1
  obtain ⟨position, token⟩ := lexeme
  obtain ⟨opened, result⟩ := progress
  unfold take Lexeme.fault Lexeme.complaint
  cases h with
  | brokenComment => rfl
  | trailing hbefore htoken =>
    obtain ⟨tree, rfl⟩ := hsome hbefore
    cases token with
    | brokenComment s => exact absurd rfl (htoken s)
    | opening | closing | atom => rfl
  | tooDeep hbefore hdeep =>
    obtain rfl := hnone hbefore
    rw [hopen] at hdeep
    exact if_pos hdeep
  | unmatched hbefore hzero =>
    obtain rfl := hnone hbefore
    obtain rfl := List.eq_nil_of_length_eq_zero (hopen.symm.trans hzero)
    rfl
  | malformed hbefore ha =>
    obtain rfl := hnone hbefore
    obtain ⟨refusal, hrefusal⟩ := Option.ne_none_iff_exists'.1 ha
    simp only [hrefusal, Option.map_some, Option.getD_some]

/-- **Any other token is taken.** -/
theorem take_of_not_offends (hfold : lexemes.foldlM (take text) {} = .ok progress)
    (h : ∀ kind, ¬ Offends (lexemes.map Lexeme.token) lexeme.token kind) :
    ∃ next, progress.take text lexeme = .ok next := by
  obtain ⟨hopen, -⟩ := openLists_eq hfold
  obtain ⟨position, token⟩ := lexeme
  have hwhole : ∀ s, token ≠ .brokenComment s := by
    rintro s rfl
    exact h _ (.brokenComment _ s)
  have hbefore : ¬ IsComplete (lexemes.map Lexeme.token) :=
    fun hcomplete => h _ (.trailing hcomplete hwhole)
  have hnone := result_eq_none hfold hbefore
  obtain ⟨opened, result⟩ := progress
  obtain rfl : result = none := hnone
  cases token with
  | brokenComment s => exact absurd rfl (hwhole s)
  | opening =>
    have hdepth : opened.length < maxNesting := by
      by_contra hdeep
      exact h _ (.tooDeep hbefore (hopen ▸ Nat.le_of_not_lt hdeep))
    exact ⟨_, take_opening hdepth rfl⟩
  | closing =>
    cases opened with
    | nil => exact absurd (.unmatched hbefore hopen) (h _)
    | cons list outer => exact ⟨_, take_closing rfl⟩
  | atom a =>
    have hrefusal : Atom.refusal? a = none := by
      by_contra ha
      exact h _ (.malformed hbefore ha)
    exact ⟨_, take_atom hrefusal rfl⟩

/-- Tokens are taken up to the first one that cannot be. -/
theorem foldlM_append_of_take {more : List Lexeme} {e : SyntaxError}
    (hfold : lexemes.foldlM (take text) {} = .ok progress)
    (htake : progress.take text lexeme = .error e) :
    (lexemes ++ lexeme :: more).foldlM (take text) {} = .error e := by
  rw [foldlM_append_of_foldlM hfold, List.foldlM_cons, htake]
  rfl

/-- **Tokens are taken as long as none is at fault.** -/
theorem flawless_iff (text : String) :
    Flawless (lexemes.map Lexeme.token) ↔
      ∃ progress, lexemes.foldlM (take text) {} = .ok progress := by
  induction lexemes using List.reverseRecOn with
  | nil => exact ⟨fun _ => ⟨{}, rfl⟩, fun _ => flawless_nil⟩
  | append_singleton lexemes lexeme ih =>
    rw [List.map_append, List.map_singleton, flawless_concat, ih]
    constructor
    · rintro ⟨⟨progress, hfold⟩, hlexeme⟩
      obtain ⟨next, hnext⟩ := take_of_not_offends hfold hlexeme
      exact ⟨next, (foldlM_append_of_foldlM hfold).trans (foldlM_cons_of_take hnext)⟩
    · rintro ⟨next, hnext⟩
      cases hfold : lexemes.foldlM (take text) {} with
      | error e =>
        rw [List.foldlM_append, hfold] at hnext
        exact absurd hnext nofun
      | ok progress =>
        refine ⟨⟨progress, rfl⟩, fun kind hoffends => ?_⟩
        have htake := take_of_offends hfold hoffends
        rw [foldlM_append_of_take hfold htake] at hnext
        exact absurd hnext nofun

end Progress

/-! ### Tokens without a fault -/

/-- Tokens, each with a position. -/
theorem exists_lexemes (tokens : List Token) :
    ∃ lexemes : List Lexeme, lexemes.map Lexeme.token = tokens :=
  ⟨tokens.map (Lexeme.mk 0), by rw [List.map_map]; exact List.map_id tokens⟩

/-- No token of a complete expression is at fault. -/
theorem IsComplete.flawless (h : IsComplete tokens) : Flawless tokens := by
  obtain ⟨tree, hfits, htree⟩ := h
  obtain ⟨lexemes, rfl⟩ := exists_lexemes tokens
  exact (Progress.flawless_iff "").2 ⟨_, Progress.foldlM_tokens tree htree hfits⟩

/-- Tokens without a fault are no broken comments. -/
theorem Flawless.whole (h : Flawless tokens) (s : String) : .brokenComment s ∉ tokens := by
  intro hmem
  obtain ⟨before, after, rfl⟩ := List.append_of_mem hmem
  exact h before _ after _ rfl (.brokenComment before s)

/-- They open no more lists than there may be. -/
theorem Flawless.openLists_le (h : Flawless tokens) : openLists tokens ≤ maxNesting := by
  obtain ⟨lexemes, rfl⟩ := exists_lexemes tokens
  obtain ⟨progress, hfold⟩ := (Progress.flawless_iff "").1 h
  obtain ⟨hopen, hle⟩ := Progress.openLists_eq hfold
  omega

/-- With no list open there is a complete expression, or nothing yet. -/
theorem Flawless.eq_nil (h : Flawless tokens) (hopen : openLists tokens = 0)
    (hcomplete : ¬ IsComplete tokens) : tokens = [] := by
  obtain ⟨lexemes, rfl⟩ := exists_lexemes tokens
  obtain ⟨progress, hfold⟩ := (Progress.flawless_iff "").1 h
  obtain ⟨-, htaken⟩ := Progress.sound_of_foldlM hfold
  have hnone := Progress.result_eq_none hfold hcomplete
  have hopened := List.eq_nil_of_length_eq_zero ((Progress.openLists_eq hfold).1.symm.trans hopen)
  rw [Progress.tokens, hopened, hnone] at htaken
  exact htaken.symm

/-! ### Reading -/

/-- Reading stops at a token that is refused. -/
theorem read_of_take {earlier later : List Lexeme} {e : SyntaxError}
    (hscan : Lexeme.scan comments text.toList = earlier ++ lexeme :: later)
    (hfold : earlier.foldlM (Progress.take text) {} = .ok progress)
    (htake : progress.take text lexeme = .error e) : read comments text = .error e := by
  rw [read, hscan, Progress.foldlM_append_of_take hfold htake]
  rfl

/-- **The error is about the first token at fault**, at its place. -/
theorem read_eq_fault {earlier later : List Lexeme}
    (hscan : Lexeme.scan comments text.toList = earlier ++ lexeme :: later)
    (hearlier : Flawless (earlier.map Lexeme.token))
    (h : Offends (earlier.map Lexeme.token) lexeme.token kind) :
    read comments text = .error (lexeme.fault text kind) := by
  obtain ⟨progress, hfold⟩ := (Progress.flawless_iff text).1 hearlier
  exact read_of_take hscan hfold (Progress.take_of_offends hfold h)

/-- The error of a text is about the first token at fault. -/
theorem read_of_offends (htokens : Scans comments text.toList (before ++ token :: after))
    (hbefore : Flawless before) (h : Offends before token kind) :
    ∃ position, read comments text = .error (Lexeme.fault text ⟨position, token⟩ kind) := by
  obtain ⟨earlier, rest, hscan, rfl, hrest⟩ := List.map_eq_append_iff.1 (scans_iff.1 htokens)
  obtain ⟨lexeme, later, rfl, rfl, -⟩ := List.map_eq_cons_iff.1 hrest
  exact ⟨lexeme.position, read_eq_fault hscan hbefore h⟩

/-- **Tokens without a fault** are none at all, or leave lists open, or are an expression. -/
theorem read_of_flawless (htokens : Scans comments text.toList tokens) (h : Flawless tokens) :
    (tokens = [] ∧ read comments text =
      .error { kind := .empty, message := "Empty input: expected an expression" }) ∨
    (0 < openLists tokens ∧ ∃ position, read comments text =
      .error (.locate .unclosed (unclosedMessage (openLists tokens)) text position none)) ∨
    (IsComplete tokens ∧ ∃ tree, read comments text = .ok tree) := by
  obtain rfl := scans_iff.1 htokens
  obtain ⟨progress, hfold⟩ := (Progress.flawless_iff text).1 h
  have hread : read comments text = progress.finish text := by
    rw [read, hfold]
    rfl
  obtain ⟨-, htaken⟩ := Progress.sound_of_foldlM hfold
  obtain ⟨hopen, -⟩ := Progress.openLists_eq hfold
  have hcomplete := Progress.isComplete_iff hfold
  rw [hread, hopen]
  obtain ⟨opened, result⟩ := progress
  cases opened with
  | nil =>
    cases result with
    | none => exact .inl ⟨htaken.symm, rfl⟩
    | some tree => exact .inr (.inr ⟨hcomplete.2 ⟨tree, rfl⟩, tree, rfl⟩)
  | cons list outer =>
    have hne := List.cons_ne_nil list outer
    refine .inr (.inl ⟨Nat.succ_pos _, ((list :: outer).getLast hne).position, ?_⟩)
    rw [Progress.finish, List.getLast?_eq_some_getLast hne]
    rfl

/-! ### Kinds of errors -/

/-- A token follows a complete expression, and is no broken comment. -/
def Trails (tokens : List Token) (token : Token) : Prop :=
  ∃ (tree : SExpr) (rest : List Token), tree.Fits 0 ∧ tokens = tree.tokens ++ token :: rest ∧
    ∀ text, token ≠ .brokenComment text

/-- A list is opened inside as many as there may be, after tokens without a fault. -/
def Overflows (tokens : List Token) : Prop :=
  ∃ before after, tokens = before ++ .opening :: after ∧ Flawless before ∧
    openLists before = maxNesting

/-- A token stands after tokens without a fault, and it is a broken comment, or an atom that only
looks like a literal and comes before the expression is complete. -/
def Malforms (tokens : List Token) (token : Token) : Prop :=
  ∃ before after, tokens = before ++ token :: after ∧ Flawless before ∧
    ((∃ text, token = .brokenComment text) ∨
      ∃ a, token = .atom a ∧ Atom.refusal? a ≠ none ∧ ¬ IsComplete before)

section

variable {e : SyntaxError} (h : read comments text = .error e)
  (htokens : Scans comments text.toList tokens)

include h htokens

/-- The error is that of the first token at fault. -/
theorem eq_fault_of_offends (hsplit : tokens = before ++ token :: after)
    (hbefore : Flawless before) (hoffends : Offends before token kind) :
    ∃ position, e = Lexeme.fault text ⟨position, token⟩ kind := by
  subst hsplit
  obtain ⟨position, hread⟩ := read_of_offends htokens hbefore hoffends
  exact ⟨position, Except.error.inj (h.symm.trans hread)⟩

/-- So it has the kind of that fault, and shows that token. -/
theorem kind_of_offends (hsplit : tokens = before ++ token :: after) (hbefore : Flawless before)
    (hoffends : Offends before token kind) : e.kind = kind ∧ e.found = some token.print := by
  obtain ⟨position, rfl⟩ := eq_fault_of_offends h htokens hsplit hbefore hoffends
  exact ⟨rfl, rfl⟩

/-- An error has a first token at fault, or the text ends too early. -/
theorem error_cases :
    (∃ before token after, tokens = before ++ token :: after ∧ Flawless before ∧
      Offends before token e.kind) ∨
    (tokens = [] ∧ e.kind = .empty) ∨
    (Flawless tokens ∧ 0 < openLists tokens ∧ ∃ position, e =
      .locate .unclosed (unclosedMessage (openLists tokens)) text position none) := by
  by_cases hflawless : Flawless tokens
  · rcases read_of_flawless htokens hflawless with
      ⟨hnil, hread⟩ | ⟨hopen, position, hread⟩ | ⟨-, tree, hread⟩
    · obtain rfl := Except.error.inj (h.symm.trans hread)
      exact .inr (.inl ⟨hnil, rfl⟩)
    · obtain rfl := Except.error.inj (h.symm.trans hread)
      exact .inr (.inr ⟨hflawless, hopen, position, rfl⟩)
    · exact absurd (h.symm.trans hread) nofun
  · obtain ⟨before, token, after, kind, hsplit, hbefore, hoffends⟩ :=
      exists_first_offence hflawless
    obtain ⟨rfl, -⟩ := kind_of_offends h htokens hsplit hbefore hoffends
    exact .inl ⟨before, token, after, hsplit, hbefore, hoffends⟩

/-- An error of any other kind is about a token at fault. -/
theorem exists_offends (hkind : e.kind = kind) (hempty : kind ≠ .empty)
    (hunclosed : kind ≠ .unclosed) :
    ∃ before token after, tokens = before ++ token :: after ∧ Flawless before ∧
      Offends before token kind := by
  subst hkind
  rcases error_cases h htokens with hoffends | ⟨-, hkind⟩ | ⟨-, -, position, rfl⟩
  · exact hoffends
  · exact absurd hkind hempty
  · exact absurd rfl hunclosed

/-- **Nothing to read**: there is no token. -/
theorem kind_eq_empty_iff : e.kind = .empty ↔ tokens = [] := by
  constructor
  · intro hkind
    rcases error_cases h htokens with ⟨_, _, _, -, -, hoffends⟩ | ⟨hnil, -⟩ | ⟨-, -, position, rfl⟩
    · rw [hkind] at hoffends
      cases hoffends
    · exact hnil
    · cases hkind
  · rintro rfl
    rcases error_cases h htokens with ⟨_, _, _, hsplit, -⟩ | ⟨-, hkind⟩ | ⟨-, hopen, -⟩
    · exact absurd hsplit (by simp)
    · exact hkind
    · exact absurd hopen (by decide)

/-- The lists that are open at the end are counted. -/
theorem unclosed_cases (hkind : e.kind = .unclosed) :
    Flawless tokens ∧ 0 < openLists tokens ∧
      e.message = unclosedMessage (openLists tokens) ∧ e.found = none := by
  rcases error_cases h htokens with
    ⟨_, _, _, -, -, hoffends⟩ | ⟨-, hempty⟩ | ⟨hflawless, hopen, position, rfl⟩
  · rw [hkind] at hoffends
    cases hoffends
  · rw [hkind] at hempty
    cases hempty
  · exact ⟨hflawless, hopen, rfl, rfl⟩

/-- **Open lists**: no token is at fault, and there is a list left open. -/
theorem kind_eq_unclosed_iff :
    e.kind = .unclosed ↔ Flawless tokens ∧ 0 < openLists tokens := by
  constructor
  · intro hkind
    obtain ⟨hflawless, hopen, -⟩ := unclosed_cases h htokens hkind
    exact ⟨hflawless, hopen⟩
  · rintro ⟨hflawless, hopen⟩
    rcases error_cases h htokens with ⟨_, _, _, hsplit, -, hoffends⟩ | ⟨rfl, -⟩ | ⟨-, -, _, rfl⟩
    · exact absurd hoffends (hflawless _ _ _ _ hsplit)
    · exact absurd hopen (by decide)
    · rfl

/-- **A closing parenthesis without an opening one** is the first token. -/
theorem kind_eq_unmatchedClose_iff :
    e.kind = .unmatchedClose ↔ tokens.head? = some .closing := by
  constructor
  · intro hkind
    obtain ⟨before, token, after, rfl, hbefore, hoffends⟩ :=
      exists_offends h htokens hkind (by decide) (by decide)
    cases hoffends with
    | unmatched hcomplete hopen =>
      rw [hbefore.eq_nil hopen hcomplete, List.nil_append, List.head?_cons]
  · intro hhead
    obtain ⟨rest, rfl⟩ := List.head?_eq_some_iff.1 hhead
    have hnone : ¬ IsComplete [] := fun hcomplete => hcomplete.ne_nil rfl
    have hoffends : Offends [] .closing .unmatchedClose := .unmatched hnone rfl
    exact (kind_of_offends h htokens rfl flawless_nil hoffends).1

/-- A token after a complete expression is the one that is shown. -/
theorem found_of_trails (htoken : Trails tokens token) :
    e.kind = .trailingContent ∧ e.found = some token.print := by
  obtain ⟨tree, rest, hfits, rfl, hwhole⟩ := htoken
  have hcomplete : IsComplete tree.tokens := ⟨tree, hfits, rfl⟩
  exact kind_of_offends h htokens rfl hcomplete.flawless (.trailing hcomplete hwhole)

/-- **More than one expression**: a token follows a complete one. -/
theorem kind_eq_trailingContent_iff :
    e.kind = .trailingContent ↔ ∃ token, Trails tokens token := by
  constructor
  · intro hkind
    obtain ⟨before, token, after, rfl, hbefore, hoffends⟩ :=
      exists_offends h htokens hkind (by decide) (by decide)
    cases hoffends with
    | trailing hcomplete hwhole =>
      obtain ⟨tree, hfits, rfl⟩ := hcomplete
      exact ⟨token, tree, after, hfits, rfl, hwhole⟩
  · rintro ⟨token, htoken⟩
    exact (found_of_trails h htokens htoken).1

/-- **Too many lists inside each other**: one more is opened. -/
theorem kind_eq_tooDeeplyNested_iff : e.kind = .tooDeeplyNested ↔ Overflows tokens := by
  constructor
  · intro hkind
    obtain ⟨before, token, after, rfl, hbefore, hoffends⟩ :=
      exists_offends h htokens hkind (by decide) (by decide)
    cases hoffends with
    | tooDeep hcomplete hopen =>
      exact ⟨before, after, rfl, hbefore, Nat.le_antisymm hbefore.openLists_le hopen⟩
  · rintro ⟨before, after, rfl, hbefore, hopen⟩
    have hcomplete : ¬ IsComplete before := by
      intro hcomplete
      rw [hcomplete.openLists_eq] at hopen
      exact absurd hopen (by decide)
    exact (kind_of_offends h htokens rfl hbefore (.tooDeep hcomplete hopen.ge)).1

/-- A malformed token is the one that is shown. -/
theorem found_of_malforms (htoken : Malforms tokens token) :
    e.kind = .malformedAtom ∧ e.found = some token.print := by
  obtain ⟨before, after, rfl, hbefore, ⟨text, rfl⟩ | ⟨a, rfl, ha, hcomplete⟩⟩ := htoken
  · exact kind_of_offends h htokens rfl hbefore (.brokenComment before text)
  · exact kind_of_offends h htokens rfl hbefore (.malformed hcomplete ha)

/-- **A malformed token**: a broken comment or a false literal. -/
theorem kind_eq_malformedAtom_iff : e.kind = .malformedAtom ↔ ∃ token, Malforms tokens token := by
  constructor
  · intro hkind
    obtain ⟨before, token, after, rfl, hbefore, hoffends⟩ :=
      exists_offends h htokens hkind (by decide) (by decide)
    cases hoffends with
    | brokenComment s => exact ⟨_, before, after, rfl, hbefore, .inl ⟨s, rfl⟩⟩
    | malformed hcomplete ha => exact ⟨_, before, after, rfl, hbefore, .inr ⟨_, rfl, ha, hcomplete⟩⟩
  · rintro ⟨token, htoken⟩
    exact (found_of_malforms h htokens htoken).1

end

/-- What is said of a token that is no broken comment depends on the token alone. -/
theorem Lexeme.complaint_eq (htoken : ∀ s, token ≠ .brokenComment s) (kind : SyntaxError.Kind)
    (hoffends : Offends before token kind) (text other : String) (p q : Nat) :
    Lexeme.complaint text ⟨p, token⟩ kind = Lexeme.complaint other ⟨q, token⟩ kind := by
  cases hoffends with
  | brokenComment s => exact absurd rfl (htoken s)
  | trailing | tooDeep | unmatched | malformed => rfl

/-- **Errors are classified by the first token at fault.**  Each text has its tokens.  The error is
about the first of them at fault, and nothing after that one plays a role.  There is one condition
on the tokens for each kind of error; open lists at the end are counted. -/
theorem read_error_classified (comments : Bool) (text : String) (e : SyntaxError)
    (h : read comments text = .error e) :
    ∃ tokens, (∀ others, Scans comments text.toList others ↔ others = tokens) ∧
      (∀ before token after kind, tokens = before ++ token :: after → Flawless before →
        Offends before token kind → e.kind = kind ∧ e.found = some token.print ∧
          ∀ other more, Scans comments other.toList (before ++ token :: more) →
            ∃ fault, read comments other = .error fault ∧ fault.kind = e.kind ∧
              fault.found = e.found ∧
              ((∀ s, token ≠ .brokenComment s) → fault.message = e.message)) ∧
      (e.kind = .empty ↔ tokens = []) ∧
      (e.kind = .unmatchedClose ↔ tokens.head? = some .closing) ∧
      (e.kind = .trailingContent ↔ ∃ token, Trails tokens token) ∧
      (∀ token, Trails tokens token → e.found = some token.print) ∧
      (e.kind = .tooDeeplyNested ↔ Overflows tokens) ∧
      (e.kind = .malformedAtom ↔ ∃ token, Malforms tokens token) ∧
      (∀ token, Malforms tokens token → e.found = some token.print) ∧
      (e.kind = .unclosed ↔ Flawless tokens ∧ 0 < openLists tokens) ∧
      (e.kind = .unclosed → e.message = unclosedMessage (openLists tokens)) := by
  have htokens := scans_scan comments text.toList
  refine ⟨_, fun others => ?_, fun before token after kind hsplit hbefore hoffends => ?_,
    kind_eq_empty_iff h htokens, kind_eq_unmatchedClose_iff h htokens,
    kind_eq_trailingContent_iff h htokens,
    fun token htoken => (found_of_trails h htokens htoken).2,
    kind_eq_tooDeeplyNested_iff h htokens, kind_eq_malformedAtom_iff h htokens,
    fun token htoken => (found_of_malforms h htokens htoken).2,
    kind_eq_unclosed_iff h htokens, fun hkind => (unclosed_cases h htokens hkind).2.2.1⟩
  · rw [scans_iff, eq_comm]
  · obtain ⟨p, rfl⟩ := eq_fault_of_offends h htokens hsplit hbefore hoffends
    refine ⟨rfl, rfl, fun other more hother => ?_⟩
    obtain ⟨q, hread⟩ := read_of_offends hother hbefore hoffends
    exact ⟨_, hread, rfl, rfl, fun hwhole => Lexeme.complaint_eq hwhole kind hoffends ..⟩

/-- A false literal inside a list that nothing closes, and a broken comment behind it: the error is
about the literal. -/
theorem read_error_classified_literal :
    ∃ e, read true "(f 12abc ;\r" = .error e ∧ e.found = some "12abc" ∧
      ∃ tokens token, Scans true "(f 12abc ;\r".toList tokens ∧ Malforms tokens token ∧
        e.found = some token.print := by
  obtain ⟨e, hread, hkind, hliteral⟩ : ∃ e, read true "(f 12abc ;\r" = .error e ∧
      e.kind = .malformedAtom ∧ e.found = some "12abc" := ⟨_, by rfl, rfl, rfl⟩
  obtain ⟨tokens, hscans, -, -, -, -, -, -, hmalforms, hfound, -⟩ :=
    read_error_classified true "(f 12abc ;\r" e hread
  obtain ⟨token, htoken⟩ := hmalforms.1 hkind
  exact ⟨e, hread, hliteral, tokens, token, (hscans tokens).2 rfl, htoken, hfound token htoken⟩

end StrictScheme
