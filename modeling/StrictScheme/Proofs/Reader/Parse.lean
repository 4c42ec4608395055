/-
# What the reader accepts

A tree flattens to its tokens: an atom is one token, and a list is its elements
between two parentheses.  The reader accepts a text exactly when the text splits into
the tokens of a tree whose atoms are no false literals and whose lists are not nested
too deeply, and it returns that tree (`read_eq_ok_iff`).

In one direction, what has been read so far always flattens to the tokens taken so far
(`Progress.Sound.take`, and `Progress.Sound.foldlM` for a whole text).  In the other
direction, the tokens of a tree, taken from any place inside open lists, add just that
tree (`Progress.foldlM_tokens`).
-/

import StrictScheme.Proofs.Reader.Split
import StrictScheme.Reader

namespace StrictScheme
namespace SExpr

/-! ### The tokens of a tree -/

mutual

/-- The tokens of a tree. -/
def tokens : SExpr → List Token
  | .atom token => [.atom token]
  | .list elements => .opening :: tokensAll elements ++ [.closing]

/-- The tokens of trees that stand one after the other. -/
def tokensAll : List SExpr → List Token
  | [] => []
  | first :: rest => tokens first ++ tokensAll rest

end

mutual

/-- The atoms of a tree. -/
def atoms : SExpr → List String
  | .atom token => [token]
  | .list elements => atomsAll elements

/-- The atoms of trees that stand one after the other. -/
def atomsAll : List SExpr → List String
  | [] => []
  | first :: rest => atoms first ++ atomsAll rest

end

mutual

/-- How deep the lists of a tree are nested. -/
def nesting : SExpr → Nat
  | .atom _ => 0
  | .list elements => nestingAll elements + 1

/-- How deep the lists of the deepest of some trees are nested. -/
def nestingAll : List SExpr → Nat
  | [] => 0
  | first :: rest => max (nesting first) (nestingAll rest)

end

/-- The tokens of trees stand one after the other. -/
theorem tokensAll_append (trees more : List SExpr) :
    tokensAll (trees ++ more) = tokensAll trees ++ tokensAll more := by
  induction trees with
  | nil => rfl
  | cons first rest ih => simp only [List.cons_append, tokensAll, ih, List.append_assoc]

/-- The atoms of some trees are those of each of them. -/
theorem mem_atomsAll {a : String} {trees : List SExpr} :
    a ∈ atomsAll trees ↔ ∃ tree ∈ trees, a ∈ tree.atoms := by
  induction trees with
  | nil => simp [atomsAll]
  | cons first rest ih => simp [atomsAll, ih]

/-- A bound for the nesting of some trees is one for each of them. -/
theorem nestingAll_le {n : Nat} {trees : List SExpr} :
    nestingAll trees ≤ n ↔ ∀ tree ∈ trees, tree.nesting ≤ n := by
  induction trees with
  | nil => simp [nestingAll]
  | cons first rest ih => rw [nestingAll, Nat.max_le, ih, List.forall_mem_cons]

mutual

/-- The atoms of a tree are those among its tokens. -/
theorem mem_atoms {a : String} : (tree : SExpr) → (a ∈ tree.atoms ↔ .atom a ∈ tree.tokens)
  | .atom token => by simp [atoms, tokens]
  | .list elements => by simp [atoms, tokens, mem_atomsAll_iff elements]

/-- So are those of some trees. -/
theorem mem_atomsAll_iff {a : String} :
    (trees : List SExpr) → (a ∈ atomsAll trees ↔ .atom a ∈ tokensAll trees)
  | [] => by simp [atomsAll, tokensAll]
  | first :: rest => by simp [atomsAll, tokensAll, mem_atoms first, mem_atomsAll_iff rest]

end

mutual

/-- No token of a tree is a broken comment. -/
theorem brokenComment_not_mem_tokens (s : String) :
    (tree : SExpr) → .brokenComment s ∉ tree.tokens
  | .atom token => by simp [tokens]
  | .list elements => by simp [tokens, brokenComment_not_mem_tokensAll s elements]

/-- Nor is one of some trees. -/
theorem brokenComment_not_mem_tokensAll (s : String) :
    (trees : List SExpr) → .brokenComment s ∉ tokensAll trees
  | [] => by simp [tokensAll]
  | first :: rest => by
    simp [tokensAll, brokenComment_not_mem_tokens s first, brokenComment_not_mem_tokensAll s rest]

end

/-- The reader takes a tree inside `depth` open lists: its atoms are no false literals, and its
lists are not nested too deeply there. -/
structure Fits (tree : SExpr) (depth : Nat) : Prop where
  literals : ∀ a ∈ tree.atoms, Atom.refusal? a = none
  nesting : tree.nesting + depth ≤ maxNesting

/-- An atom that is no false literal fits at every depth. -/
theorem fits_atom {a : String} {depth : Nat} (h : Atom.refusal? a = none)
    (hdepth : depth ≤ maxNesting) : (SExpr.atom a).Fits depth where
  literals := by simpa [atoms] using h
  nesting := by
    rw [SExpr.nesting]
    omega

/-- A list fits when it can be opened and its elements fit inside. -/
theorem fits_list {elements : List SExpr} {depth : Nat} :
    (SExpr.list elements).Fits depth ↔
      depth < maxNesting ∧ ∀ tree ∈ elements, tree.Fits (depth + 1) := by
  constructor
  · rintro ⟨hliterals, hnesting⟩
    rw [SExpr.nesting] at hnesting
    refine ⟨by omega, fun tree htree => ⟨fun a ha => ?_, ?_⟩⟩
    · exact hliterals a (mem_atomsAll.2 ⟨tree, htree, ha⟩)
    · have hle := nestingAll_le.1 (Nat.le_refl (nestingAll elements)) tree htree
      omega
  · rintro ⟨hdepth, helements⟩
    constructor
    · intro a ha
      obtain ⟨tree, htree, ha⟩ := mem_atomsAll.1 ha
      exact (helements tree htree).literals a ha
    · have hle : nestingAll elements ≤ maxNesting - (depth + 1) := by
        refine nestingAll_le.2 fun tree htree => ?_
        have hfits := (helements tree htree).nesting
        omega
      rw [SExpr.nesting]
      omega

end SExpr

variable {text : String} {progress progress' : Progress} {lexeme : Lexeme}
  {lexemes : List Lexeme} {opened outer : List OpenList} {list : OpenList} {tree : SExpr}

/-- **The text writes the tree**: it splits into the tokens of the tree, which fits. -/
structure Writes (comments : Bool) (text : String) (tree : SExpr) : Prop where
  splits : Splits comments text.toList tree.tokens
  literals : ∀ a ∈ tree.atoms, Atom.refusal? a = none
  nesting : tree.nesting ≤ maxNesting

namespace Progress

/-! ### Taking one token -/

/-- What a token does, when it is taken. -/
theorem take_eq_ok (h : progress.take text lexeme = .ok progress') :
    progress.result = none ∧
      ((lexeme.token = .opening ∧ progress.opened.length < maxNesting ∧
          progress' = ⟨⟨lexeme.position, []⟩ :: progress.opened, none⟩) ∨
        (∃ list outer, lexeme.token = .closing ∧ progress.opened = list :: outer ∧
          progress' = add ⟨outer, none⟩ (.list list.elements.reverse)) ∨
        ∃ a, lexeme.token = .atom a ∧ Atom.refusal? a = none ∧
          progress' = progress.add (.atom a)) := by
  obtain ⟨position, token⟩ := lexeme
  obtain ⟨opened, result⟩ := progress
  cases result with
  | some tree => cases token <;> exact absurd h nofun
  | none =>
    refine ⟨rfl, ?_⟩
    cases token with
    | opening =>
      by_cases hdeep : maxNesting ≤ opened.length
      · simp [take, hdeep] at h
      · simp only [take, hdeep, if_false, Except.ok.injEq] at h
        exact .inl ⟨rfl, Nat.lt_of_not_le hdeep, h.symm⟩
    | closing =>
      cases opened with
      | nil => exact absurd h nofun
      | cons list outer => exact .inr (.inl ⟨list, outer, rfl, rfl, (Except.ok.inj h).symm⟩)
    | atom a =>
      cases hrefusal : Atom.refusal? a with
      | some refusal => simp [take, hrefusal] at h
      | none =>
        simp only [take, hrefusal, Except.ok.injEq] at h
        exact .inr (.inr ⟨a, rfl, hrefusal, h.symm⟩)
    | brokenComment s => exact absurd h nofun

/-- An opening parenthesis opens a list. -/
theorem take_opening (h : opened.length < maxNesting) (hlexeme : lexeme.token = .opening) :
    take text ⟨opened, none⟩ lexeme = .ok ⟨⟨lexeme.position, []⟩ :: opened, none⟩ := by
  simp only [take, hlexeme, if_neg (Nat.not_le_of_lt h)]

/-- A closing one completes the innermost list. -/
theorem take_closing (hlexeme : lexeme.token = .closing) :
    take text ⟨list :: outer, none⟩ lexeme =
      .ok (add ⟨outer, none⟩ (.list list.elements.reverse)) := by
  simp only [take, hlexeme]

/-- An atom is complete by itself. -/
theorem take_atom {a : String} (h : Atom.refusal? a = none) (hlexeme : lexeme.token = .atom a) :
    take text ⟨opened, none⟩ lexeme = .ok (add ⟨opened, none⟩ (.atom a)) := by
  simp only [take, hlexeme, h]

/-- Tokens are taken one after the other. -/
theorem foldlM_cons_of_take (h : progress.take text lexeme = .ok progress') :
    (lexeme :: lexemes).foldlM (take text) progress = lexemes.foldlM (take text) progress' := by
  rw [List.foldlM_cons, h]
  rfl

/-- Where all tokens are taken, the first one is. -/
theorem exists_take_of_foldlM_cons
    (h : (lexeme :: lexemes).foldlM (take text) progress = .ok progress') :
    ∃ next, progress.take text lexeme = .ok next ∧
      lexemes.foldlM (take text) next = .ok progress' := by
  rw [List.foldlM_cons] at h
  cases htake : progress.take text lexeme with
  | error e => rw [htake] at h; exact absurd h nofun
  | ok next =>
    rw [htake] at h
    exact ⟨next, rfl, h⟩

/-- They may be taken in two parts. -/
theorem foldlM_append_of_foldlM {more : List Lexeme}
    (h : lexemes.foldlM (take text) progress = .ok progress') :
    (lexemes ++ more).foldlM (take text) progress = more.foldlM (take text) progress' := by
  rw [List.foldlM_append, h]
  rfl

/-! ### The tokens taken so far -/

/-- The tokens of the open lists: for each, its opening parenthesis and the elements it has. -/
def openTokens : List OpenList → List Token
  | [] => []
  | list :: outer => openTokens outer ++ .opening :: SExpr.tokensAll list.elements.reverse

/-- The tokens of all that has been read. -/
def tokens (progress : Progress) : List Token :=
  openTokens progress.opened ++ (progress.result.map SExpr.tokens).getD []

/-- The elements of open lists fit where they stand. -/
def Fit : List OpenList → Prop
  | [] => True
  | list :: outer =>
    Fit outer ∧ outer.length < maxNesting ∧ ∀ tree ∈ list.elements, tree.Fits (outer.length + 1)

/-- No more lists are open than there may be. -/
theorem Fit.length_le (h : Fit opened) : opened.length ≤ maxNesting := by
  cases opened with
  | nil => exact Nat.zero_le _
  | cons list outer => exact h.2.1

/-- Everything read so far fits, and there is no open list beside a complete expression. -/
structure Sound (progress : Progress) : Prop where
  opened : Fit progress.opened
  result : ∀ tree, progress.result = some tree → progress.opened = [] ∧ tree.Fits 0

/-- A complete tree is added after the tokens taken so far. -/
theorem Sound.add (h : Sound ⟨opened, none⟩) (htree : tree.Fits opened.length) :
    (add ⟨opened, none⟩ tree).Sound ∧
      (add ⟨opened, none⟩ tree).tokens = openTokens opened ++ tree.tokens := by
  cases opened with
  | nil =>
    refine ⟨⟨trivial, ?_⟩, rfl⟩
    rintro _ ⟨⟩
    exact ⟨rfl, htree⟩
  | cons list outer =>
    obtain ⟨houter, hdepth, helements⟩ := h.opened
    refine ⟨⟨⟨houter, hdepth, ?_⟩, nofun⟩, ?_⟩
    · rintro e (_ | ⟨_, he⟩)
      · exact htree
      · exact helements e he
    · simp [Progress.add, tokens, openTokens, SExpr.tokensAll_append, SExpr.tokensAll]

/-- **One more token is taken.** -/
theorem Sound.take (h : progress.Sound) (htake : progress.take text lexeme = .ok progress') :
    progress'.Sound ∧ progress'.tokens = progress.tokens ++ [lexeme.token] := by
  obtain ⟨hresult, hcases⟩ := take_eq_ok htake
  obtain ⟨opened, result⟩ := progress
  subst hresult
  rcases hcases with ⟨htoken, hdepth, rfl⟩ | ⟨list, outer, htoken, rfl, rfl⟩ |
    ⟨a, htoken, hrefusal, rfl⟩
  · refine ⟨⟨⟨h.opened, hdepth, by simp⟩, nofun⟩, ?_⟩
    simp [tokens, openTokens, SExpr.tokensAll, htoken]
  · obtain ⟨houter, hdepth, helements⟩ := h.opened
    have hlist : (SExpr.list list.elements.reverse).Fits outer.length :=
      SExpr.fits_list.2 ⟨hdepth, fun e he => helements e (List.mem_reverse.1 he)⟩
    obtain ⟨hsound, htokens⟩ := Sound.add ⟨houter, nofun⟩ hlist
    refine ⟨hsound, ?_⟩
    rw [htokens, htoken]
    simp [tokens, openTokens, SExpr.tokens]
  · have hatom : (SExpr.atom a).Fits opened.length :=
      SExpr.fits_atom hrefusal h.opened.length_le
    obtain ⟨hsound, htokens⟩ := Sound.add h hatom
    refine ⟨hsound, ?_⟩
    rw [htokens, htoken]
    simp [tokens, SExpr.tokens]

/-- **A whole text is taken.** -/
theorem Sound.foldlM (h : progress.Sound)
    (hfold : lexemes.foldlM (Progress.take text) progress = .ok progress') :
    progress'.Sound ∧ progress'.tokens = progress.tokens ++ lexemes.map Lexeme.token := by
  induction lexemes generalizing progress with
  | nil =>
    obtain rfl := Except.ok.inj hfold
    exact ⟨h, by simp⟩
  | cons lexeme rest ih =>
    obtain ⟨next, htake, hrest⟩ := exists_take_of_foldlM_cons hfold
    obtain ⟨hsound, htokens⟩ := h.take htake
    obtain ⟨hsound', htokens'⟩ := ih hsound hrest
    refine ⟨hsound', ?_⟩
    rw [htokens', htokens, List.map_cons, List.append_assoc, List.singleton_append]

/-- **What has been read is sound**, and flattens to the tokens that were taken. -/
theorem sound_of_foldlM (hfold : lexemes.foldlM (take text) {} = .ok progress) :
    progress.Sound ∧ progress.tokens = lexemes.map Lexeme.token := by
  have hstart : Sound {} := ⟨trivial, nofun⟩
  exact hstart.foldlM hfold

/-- A text that can be read ends with a complete expression, and no list is open. -/
theorem finish_eq_ok (h : progress.finish text = .ok tree) :
    progress.opened = [] ∧ progress.result = some tree := by
  obtain ⟨opened, result⟩ := progress
  cases opened with
  | nil =>
    cases result with
    | none => exact absurd h nofun
    | some found => exact ⟨rfl, congrArg some (Except.ok.inj h)⟩
  | cons list outer => simp [finish, List.getLast?_cons] at h

/-! ### The tokens of a tree -/

mutual

/-- **The tokens of a tree add just that tree**, wherever the reader stands. -/
theorem foldlM_tokens : (tree : SExpr) → {lexemes : List Lexeme} → {opened : List OpenList} →
    lexemes.map Lexeme.token = tree.tokens → tree.Fits opened.length →
    lexemes.foldlM (take text) ⟨opened, none⟩ = .ok (add ⟨opened, none⟩ tree)
  | .atom a, lexemes, opened, htokens, hfits => by
    obtain ⟨lexeme, rfl, htoken⟩ := List.map_eq_singleton_iff.1 htokens
    have hrefusal : Atom.refusal? a = none := hfits.literals a (by simp [SExpr.atoms])
    exact foldlM_cons_of_take (take_atom hrefusal htoken)
  | .list elements, lexemes, opened, htokens, hfits => by
    rw [SExpr.tokens, List.cons_append] at htokens
    obtain ⟨first, rest, rfl, hfirst, hrest⟩ := List.map_eq_cons_iff.1 htokens
    obtain ⟨inner, last, rfl, hinner, hlast⟩ := List.map_eq_append_iff.1 hrest
    obtain ⟨closing, rfl, hclosing⟩ := List.map_eq_singleton_iff.1 hlast
    obtain ⟨hdepth, helements⟩ := SExpr.fits_list.1 hfits
    have hopening : take text ⟨opened, none⟩ first = .ok ⟨⟨first.position, []⟩ :: opened, none⟩ :=
      take_opening hdepth hfirst
    have hall : inner.foldlM (take text) ⟨⟨first.position, []⟩ :: opened, none⟩ =
        .ok ⟨⟨first.position, elements.reverse ++ []⟩ :: opened, none⟩ :=
      foldlM_tokensAll elements hinner helements
    rw [foldlM_cons_of_take hopening, foldlM_append_of_foldlM hall,
      foldlM_cons_of_take (take_closing hclosing), List.append_nil, List.reverse_reverse]
    rfl

/-- So do the tokens of some trees, one after the other. -/
theorem foldlM_tokensAll : (trees : List SExpr) → {lexemes : List Lexeme} → {list : OpenList} →
    {outer : List OpenList} → lexemes.map Lexeme.token = SExpr.tokensAll trees →
    (∀ tree ∈ trees, tree.Fits (outer.length + 1)) →
    lexemes.foldlM (take text) ⟨list :: outer, none⟩ =
      .ok ⟨{ list with elements := trees.reverse ++ list.elements } :: outer, none⟩
  | [], lexemes, list, outer, htokens, _ => by
    obtain rfl := List.map_eq_nil_iff.1 htokens
    rfl
  | first :: rest, lexemes, list, outer, htokens, hfits => by
    obtain ⟨before, after, rfl, hbefore, hafter⟩ := List.map_eq_append_iff.1 htokens
    obtain ⟨hfirst, hrest⟩ := List.forall_mem_cons.1 hfits
    have hadded : before.foldlM (take text) ⟨list :: outer, none⟩ =
        .ok ⟨{ list with elements := first :: list.elements } :: outer, none⟩ :=
      foldlM_tokens first hbefore hfirst
    rw [foldlM_append_of_foldlM hadded, foldlM_tokensAll rest hafter hrest, List.reverse_cons,
      List.append_assoc, List.singleton_append]

end

end Progress

/-! ### Reading -/

/-- **What the reader returns is written in the text**, all of it and nothing else. -/
theorem writes_of_read_eq_ok {comments : Bool} (h : read comments text = .ok tree) :
    Writes comments text tree := by
  unfold read at h
  cases hfold : (Lexeme.scan comments text.toList).foldlM (Progress.take text) {} with
  | error e => rw [hfold] at h; exact absurd h nofun
  | ok progress =>
    rw [hfold] at h
    obtain ⟨hopened, hresult⟩ := Progress.finish_eq_ok h
    obtain ⟨hsound, htokens⟩ := Progress.sound_of_foldlM hfold
    obtain ⟨-, hliterals, hnesting⟩ := hsound.result tree hresult
    refine ⟨splits_iff.2 ⟨?_, fun s => tree.brokenComment_not_mem_tokens s⟩, hliterals, hnesting⟩
    rw [Progress.tokens, hopened, hresult] at htokens
    exact htokens.symm

/-- **The reader finds the tree that a text writes.** -/
theorem Writes.read_eq {comments : Bool} (h : Writes comments text tree) :
    read comments text = .ok tree := by
  have htokens := (splits_iff.1 h.splits).1
  have hfold : (Lexeme.scan comments text.toList).foldlM (Progress.take text) {} = _ :=
    Progress.foldlM_tokens tree htokens ⟨h.literals, h.nesting⟩
  unfold read
  rw [hfold]
  rfl

/-- **The reader is sound and complete**: it accepts a text exactly when the text writes a tree,
and the tree it returns is the only one that the text writes. -/
theorem read_eq_ok_iff (comments : Bool) (text : String) (tree : SExpr) :
    (read comments text = .ok tree ↔ Writes comments text tree) ∧
      ∀ other, Writes comments text tree → Writes comments text other → other = tree := by
  refine ⟨⟨writes_of_read_eq_ok, Writes.read_eq⟩, fun other htree hother => ?_⟩
  have hsame : Except.ok other = Except.ok tree := hother.read_eq.symm.trans htree.read_eq
  exact Except.ok.inj hsame

/-- A comment that touches an atom, and has a parenthesis in it. -/
theorem read_eq_ok_iff_commented : read true "(f;(\n)" = .ok (.list [.atom "f"]) := by
  have hword : ∀ c ∈ ['f'], joinsAtom true c = true := by simp; decide
  have hend : EndsAtom true [';', '(', '\n', ')'] := by simp [EndsAtom, joinsAtom]
  have hline : ∀ c ∈ ['('], Comment.isWithinLine c = true := by simp [Comment.isWithinLine]
  have hsplits : Splits true "(f;(\n)".toList (SExpr.list [.atom "f"]).tokens :=
    .opening (.atom (List.cons_ne_nil 'f' []) hword hend
      (.comment rfl hline (.lineFeed [')']) (.blank (by decide) (.closing .nil))))
  have hliterals : ∀ a ∈ (SExpr.list [.atom "f"]).atoms, Atom.refusal? a = none := by
    simp [SExpr.atoms, SExpr.atomsAll]
    decide
  exact (read_eq_ok_iff true "(f;(\n)" (.list [.atom "f"])).1.2 ⟨hsplits, hliterals, by decide⟩

end StrictScheme
