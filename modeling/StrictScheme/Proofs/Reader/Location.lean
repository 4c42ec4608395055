/-
# Where an error is

An error is about one token: the first one at fault, or, where the text ends too early, the
first opening parenthesis (`FaultAt`).  That the latter opened the outermost list left over
is an invariant of the reader: from the first token on there is a complete expression, or
the outermost list is the one that the first token opened (`BegunWith`).

So an error knows the place of its token (`exists_faultAt`), and shows the text around it
(`read_error_located`).
-/

import StrictScheme.Proofs.Reader.Offence
import StrictScheme.Proofs.Reader.Place
import StrictScheme.Proofs.Text.Excerpt

namespace StrictScheme

/-- **An error of some kind is about the token at a position**: the first one at fault, or the first
opening parenthesis if the text ends too early. -/
inductive FaultAt (lexemes : List Lexeme) : SyntaxError.Kind → Nat → Prop
  | offence {before after : List Lexeme} {lexeme : Lexeme} {kind : SyntaxError.Kind}
      (hsplit : lexemes = before ++ lexeme :: after)
      (hbefore : Flawless (before.map Lexeme.token))
      (h : Offends (before.map Lexeme.token) lexeme.token kind) :
      FaultAt lexemes kind lexeme.position
  | unclosed {lexeme : Lexeme} (h : lexemes.find? (·.token = .opening) = some lexeme) :
      FaultAt lexemes .unclosed lexeme.position

variable {comments : Bool} {p q : Nat} {lexemes before after : List Lexeme}
  {lexeme first : Lexeme} {kind : SyntaxError.Kind} {progress next : Progress} {source : String}
  {e : SyntaxError}

/-! ### The outermost open list -/

namespace Progress

/-- Reading began with the token `first`: there is a complete expression, or the outermost open list
is the one that `first` opened. -/
def BegunWith (first : Lexeme) (progress : Progress) : Prop :=
  (progress.opened = [] ∧ progress.result ≠ none) ∨
    first.token = .opening ∧
      (progress.opened.map OpenList.position).getLast? = some first.position

/-- A tree is added to a list that is open, and stays in it. -/
theorem map_position_add (progress : Progress) (tree : SExpr) :
    (progress.add tree).opened.map OpenList.position =
      progress.opened.map OpenList.position := by
  obtain ⟨_ | ⟨list, outer⟩, result⟩ := progress <;> rfl

/-- Reading begins with the first token. -/
theorem begunWith_of_take (htake : take source {} first = .ok next) : next.BegunWith first := by
  obtain ⟨-, ⟨htoken, -, rfl⟩ | ⟨list, outer, -, hopened, -⟩ | ⟨a, -, -, rfl⟩⟩ := take_eq_ok htake
  · exact .inr ⟨htoken, rfl⟩
  · exact absurd hopened (List.cons_ne_nil list outer).symm
  · exact .inl ⟨rfl, Option.some_ne_none _⟩

/-- **The outermost list stays open**, or the expression is complete. -/
theorem BegunWith.take (h : progress.BegunWith first)
    (htake : progress.take source lexeme = .ok next) : next.BegunWith first := by
  obtain ⟨hresult, hcases⟩ := take_eq_ok htake
  rcases h with ⟨-, hsome⟩ | ⟨hfirst, hlast⟩
  · exact absurd hresult hsome
  · rcases hcases with ⟨-, -, rfl⟩ | ⟨list, outer, -, hopened, rfl⟩ | ⟨a, -, -, rfl⟩
    · refine .inr ⟨hfirst, ?_⟩
      rw [List.map_cons, List.getLast?_cons, hlast]
      rfl
    · rw [hopened] at hlast
      cases outer with
      | nil => exact .inl ⟨rfl, Option.some_ne_none _⟩
      | cons next outer =>
        refine .inr ⟨hfirst, ?_⟩
        rw [map_position_add]
        exact hlast
    · refine .inr ⟨hfirst, ?_⟩
      rw [map_position_add]
      exact hlast

/-- However many tokens come, reading began with the first one. -/
theorem BegunWith.foldlM (h : progress.BegunWith first)
    (hfold : lexemes.foldlM (Progress.take source) progress = .ok next) :
    next.BegunWith first := by
  induction lexemes generalizing progress with
  | nil =>
    obtain rfl := Except.ok.inj hfold
    exact h
  | cons lexeme rest ih =>
    obtain ⟨middle, htake, hrest⟩ := exists_take_of_foldlM_cons hfold
    exact ih (h.take htake) hrest

/-- **A list that is open at the end** was opened by the first token, if it is the outermost. -/
theorem find?_of_outermost {outermost : OpenList}
    (hfold : lexemes.foldlM (take source) {} = .ok progress)
    (houtermost : progress.opened.getLast? = some outermost) :
    ∃ lexeme, lexemes.find? (·.token = .opening) = some lexeme ∧
      lexeme.position = outermost.position := by
  cases lexemes with
  | nil =>
    obtain rfl := Except.ok.inj hfold
    exact absurd houtermost nofun
  | cons first rest =>
    obtain ⟨next, htake, hrest⟩ := exists_take_of_foldlM_cons hfold
    rcases (begunWith_of_take htake).foldlM hrest with ⟨hnone, -⟩ | ⟨hfirst, hlast⟩
    · rw [hnone] at houtermost
      exact absurd houtermost nofun
    · rw [List.getLast?_map, houtermost] at hlast
      refine ⟨first, List.find?_cons_of_pos (decide_eq_true hfirst), ?_⟩
      exact (Option.some.inj hlast).symm

/-- At the end of a text an error is about the outermost open list, or the text is empty. -/
theorem finish_eq_error (h : progress.finish source = .error e) (hkind : e.kind ≠ .empty) :
    ∃ outermost, progress.opened.getLast? = some outermost ∧
      e = .locate .unclosed (unclosedMessage progress.opened.length) source outermost.position
        none := by
  obtain ⟨opened, result⟩ := progress
  cases hlast : opened.getLast? with
  | some outermost =>
    rw [finish, hlast] at h
    exact ⟨outermost, rfl, (Except.error.inj h).symm⟩
  | none =>
    rw [finish, hlast] at h
    cases result with
    | some tree => cases h
    | none =>
      obtain rfl := Except.error.inj h
      exact absurd rfl hkind

end Progress

/-! ### The token that an error is about -/

/-- A token with no fault before it does not come after one at fault. -/
theorem eq_of_offends {more others : List Lexeme} {other : Lexeme}
    (hsplit : lexeme :: after = more ++ other :: others)
    (hbefore : Flawless ((before ++ more).map Lexeme.token))
    (h : Offends (before.map Lexeme.token) lexeme.token kind) : lexeme = other := by
  cases more with
  | nil => exact (List.cons.inj hsplit).1
  | cons first more =>
    obtain ⟨rfl, -⟩ := List.cons.inj hsplit
    exact absurd h (hbefore _ _ (more.map Lexeme.token) kind (by simp))

/-- No single token is at fault for open lists. -/
theorem Offends.ne_unclosed {tokens : List Token} {token : Token}
    (h : Offends tokens token kind) : kind ≠ .unclosed := by
  cases h <;> decide

/-- **An error is about one token.** -/
theorem FaultAt.unique (hp : FaultAt lexemes kind p) (hq : FaultAt lexemes kind q) : p = q := by
  cases hp with
  | @offence before after lexeme kind hsplit hbefore h =>
    cases hq with
    | @offence before' after' lexeme' kind hsplit' hbefore' h' =>
      rcases List.append_eq_append_iff.1 (hsplit.symm.trans hsplit') with
        ⟨more, rfl, hrest⟩ | ⟨more, rfl, hrest⟩
      · rw [eq_of_offends hrest hbefore' h]
      · rw [eq_of_offends hrest hbefore h']
    | unclosed => exact absurd rfl h.ne_unclosed
  | unclosed hfind =>
    cases hq with
    | offence _ _ h => exact absurd rfl h.ne_unclosed
    | unclosed hfind' => rw [Option.some.inj (hfind.symm.trans hfind')]

/-- **An error shows the text around its token**, and nothing is found there but that token. -/
theorem exists_faultAt (h : read comments source = .error e) (hkind : e.kind ≠ .empty) :
    ∃ lexeme ∈ Lexeme.scan comments source.toList,
      FaultAt (Lexeme.scan comments source.toList) e.kind lexeme.position ∧
        e.context = some (Text.excerpt source lexeme.position) ∧
        ∀ found, e.found = some found → found = lexeme.token.print := by
  by_cases hflawless : Flawless ((Lexeme.scan comments source.toList).map Lexeme.token)
  · obtain ⟨progress, hfold⟩ := (Progress.flawless_iff source).1 hflawless
    have hfinish : progress.finish source = .error e := by
      rw [read, hfold] at h
      exact h
    obtain ⟨outermost, hlast, rfl⟩ := Progress.finish_eq_error hfinish hkind
    obtain ⟨lexeme, hfind, hposition⟩ := Progress.find?_of_outermost hfold hlast
    refine ⟨lexeme, List.mem_of_find?_eq_some hfind, .unclosed hfind, ?_, ?_⟩
    · rw [hposition]
      rfl
    · rintro found ⟨⟩
  · obtain ⟨tokens, token, others, kind, hsplit, htokens, hoffends⟩ :=
      exists_first_offence hflawless
    obtain ⟨before, rest, hscan, rfl, hrest⟩ := List.map_eq_append_iff.1 hsplit
    obtain ⟨lexeme, after, rfl, rfl, -⟩ := List.map_eq_cons_iff.1 hrest
    obtain rfl := Except.error.inj (h.symm.trans (read_eq_fault hscan htokens hoffends))
    refine ⟨lexeme, ?_, .offence hscan htokens hoffends, rfl, ?_⟩
    · rw [hscan]
      exact List.mem_append_right before (List.mem_cons_self ..)
    · rintro found ⟨⟩
      rfl

/-- **An error shows its token where it stands.**  Each text has its tokens, at their places, and
the error is about one of them.  The text around that one is shown, with a mark on each side where
text is left out, and what is found there is what the text goes on with.  The bytes from there on
give the place, too.  An excerpt is one line of bounded length. -/
theorem read_error_located (comments : Bool) (text : String) (e : SyntaxError)
    (h : read comments text = .error e) (hkind : e.kind ≠ .empty) :
    ∃ lexemes p, (∀ others, ScansAt comments 0 text.toList others ↔ others = lexemes) ∧
      (∀ q, FaultAt lexemes e.kind q ↔ q = p) ∧
      Text.positionOfByte text
        (text.utf8ByteSize - (String.ofList (text.toList.drop p)).utf8ByteSize) = p ∧
      (∀ found, e.found = some found → found.toList <+: text.toList.drop p) ∧
      ∃ (cut : Text.Cut 20 100 text.toList p) (context : String), e.context = some context ∧
        context.toList = cut.print.flatMap Text.onOneLine ∧
        (∃ c, text.toList[p]? = some c ∧ cut.right.head? = some c) ∧
        '\n' ∉ context.toList ∧ '\r' ∉ context.toList ∧ context.length ≤ 210 := by
  obtain ⟨lexeme, hmem, hfault, hcontext, hfound⟩ := exists_faultAt h hkind
  obtain ⟨front, rest, htext, hposition, hne, hshown⟩ := (scansAt_iff.2 rfl).standsIn hmem
  rw [Nat.zero_add] at hposition
  have hdrop : text.toList.drop lexeme.position = rest := by
    rw [htext, hposition, List.drop_left]
  have hplace : lexeme.position < text.toList.length := by
    have hrest := List.length_pos_iff.2 hne
    rw [htext, hposition, List.length_append]
    omega
  obtain ⟨cut⟩ := Text.Cut.nonempty (by decide : 20 ≤ 100) hplace.le
  have hone : (Text.excerpt text lexeme.position).toList = cut.print.flatMap Text.onOneLine :=
    cut.toList_excerpt
  refine ⟨_, lexeme.position, fun others => ?_, fun q => ⟨fun hq => hq.unique hfault, ?_⟩, ?_,
    fun found hsome => ?_, cut, _, hcontext, hone, ?_, ?_, ?_, ?_⟩
  · rw [scansAt_iff, eq_comm]
  · rintro rfl
    exact hfault
  · rw [hdrop, Text.positionOfByte_eq htext, hposition]
  · rw [hfound found hsome, hdrop]
    exact hshown
  · have hchar := List.getElem?_eq_getElem hplace
    exact ⟨_, hchar, (cut.head?_right (by decide)).trans hchar⟩
  · rw [hone]
    exact fun hfeed => (Text.ne_of_mem_flatMap_onOneLine hfeed).1 rfl
  · rw [hone]
    exact fun hreturn => (Text.ne_of_mem_flatMap_onOneLine hreturn).2 rfl
  · rw [← String.length_toList, hone]
    exact cut.length_onOneLine_le

/-- A text in which many characters take two bytes, with a false literal on the second line. -/
def wideText : String :=
  "(λ λ λ λ λ λ λ λ λ λ λ\n12é"

/-- The excerpt around the false literal, by characters and not by bytes. -/
theorem wideText_error_located :
    ∃ e lexemes p, read true wideText = .error e ∧ e.kind ≠ .empty ∧
      e.context = some "[...]λ λ λ λ λ λ λ λ λ λ\\n12é" ∧
      ScansAt true 0 wideText.toList lexemes ∧ FaultAt lexemes e.kind p ∧
      "12é".toList <+: wideText.toList.drop p := by
  obtain ⟨e, hread, hkind, hcontext, hliteral⟩ : ∃ e, read true wideText = .error e ∧
      e.kind ≠ .empty ∧ e.context = some "[...]λ λ λ λ λ λ λ λ λ λ\\n12é" ∧
      e.found = some "12é" := ⟨_, by rfl, by decide, by rfl, by rfl⟩
  obtain ⟨lexemes, p, hscans, hfault, -, hfound, -⟩ :=
    read_error_located true wideText e hread hkind
  exact ⟨e, lexemes, p, hread, hkind, hcontext, (hscans lexemes).2 rfl, (hfault p).2 rfl,
    hfound "12é" hliteral⟩

end StrictScheme
