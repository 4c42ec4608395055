/-
# Layouts of a tree

The written form of a tree puts one space between neighbours and none beside a
parenthesis.  A layout may put any blanks in place of such a space, and more blanks
beside parentheses and at both ends of the text (`Layout`, `SExpr.LaidOut`).

Every layout splits into the tokens of the tree (`splits_layout`), so it is read as
the tree.  The proof goes by induction on the tree, for any text that follows.  The
atoms of a tree that was read are such that its written form can be read again, which
makes printing a normal form (`read_print`).
-/

import StrictScheme.Proofs.Reader.Parse

namespace StrictScheme

/-- A run of blanks, which may be empty. -/
def Blanks (gap : List Char) : Prop :=
  ∀ c ∈ gap, Text.isBlank c = true

mutual

/-- **The layouts of a tree**, without blanks at the ends. -/
inductive Layout : SExpr → List Char → Prop
  | atom (token : String) : Layout (.atom token) token.toList
  | empty {gap : List Char} (hgap : Blanks gap) : Layout (.list []) ('(' :: (gap ++ [')']))
  | list {first : SExpr} {rest : List SExpr} {before text more after : List Char}
      (hbefore : Blanks before) (hfirst : Layout first text) (hrest : LayoutRest rest more)
      (hafter : Blanks after) :
      Layout (.list (first :: rest)) ('(' :: (before ++ (text ++ (more ++ (after ++ [')'])))))

/-- The layouts of the elements of a list after the first one, each with the blanks before it. -/
inductive LayoutRest : List SExpr → List Char → Prop
  | nil : LayoutRest [] []
  | cons {next : SExpr} {rest : List SExpr} {gap text more : List Char} (hne : gap ≠ [])
      (hgap : Blanks gap) (hnext : Layout next text) (hrest : LayoutRest rest more) :
      LayoutRest (next :: rest) (gap ++ (text ++ more))

end

/-- A text is a layout of a tree, with blanks at both ends. -/
def SExpr.LaidOut (tree : SExpr) (text : String) : Prop :=
  ∃ before inner after, Blanks before ∧ Layout tree inner ∧ Blanks after ∧
    text.toList = before ++ (inner ++ after)

/-- The reader can find an atom in a text: it is a non-empty run of atom characters. -/
def IsWord (comments : Bool) (a : String) : Prop :=
  a.toList ≠ [] ∧ ∀ c ∈ a.toList, joinsAtom comments c = true

/-- The atoms of a tree can be written in a source text, with comments off. -/
def SExpr.Readable (tree : SExpr) : Prop :=
  ∀ a ∈ tree.atoms, a ≠ "" ∧ (∀ c ∈ a.toList, Text.isBlank c = false ∧ c ≠ '(' ∧ c ≠ ')') ∧
    Atom.refusal? a = none

variable {comments : Bool} {gap text rest : List Char} {tokens : List Token} {tree : SExpr}
  {trees : List SExpr}

/-! ### Printing is a layout -/

/-- There need not be any blanks. -/
theorem blanks_nil : Blanks [] := nofun

mutual

/-- The written form of a tree is one of its layouts. -/
theorem layout_print : (tree : SExpr) → Layout tree tree.print.toList
  | .atom token => .atom token
  | .list [] => .empty blanks_nil
  | .list (first :: rest) => by
    have hlayout := Layout.list blanks_nil (layout_print first) (layout_printRest rest) blanks_nil
    simpa [SExpr.print] using hlayout

/-- So are the written forms of the elements after the first one. -/
theorem layout_printRest : (trees : List SExpr) →
    LayoutRest trees (SExpr.printRest trees).toList
  | [] => .nil
  | next :: rest => by
    have hspace : Blanks [' '] := List.forall_mem_singleton.2 (by decide)
    have hlayout := LayoutRest.cons (List.cons_ne_nil ' ' []) hspace (layout_print next)
      (layout_printRest rest)
    simpa [SExpr.printRest] using hlayout

end

/-- It needs no blanks at the ends. -/
theorem SExpr.laidOut_print (tree : SExpr) : tree.LaidOut tree.print :=
  ⟨[], tree.print.toList, [], blanks_nil, layout_print tree, blanks_nil, by simp⟩

/-! ### Splitting a layout -/

/-- Blanks before a text add no token. -/
theorem Splits.blanks (hgap : Blanks gap) (h : Splits comments rest tokens) :
    Splits comments (gap ++ rest) tokens := by
  induction gap with
  | nil => exact h
  | cons c gap ih =>
    have hc : Text.isBlank c = true := hgap c (List.mem_cons_self ..)
    exact .blank hc (ih fun d hd => hgap d (List.mem_cons_of_mem c hd))

/-- A blank ends an atom. -/
theorem endsAtom_gap (hne : gap ≠ []) (hgap : Blanks gap) (rest : List Char) :
    EndsAtom comments (gap ++ rest) := by
  cases gap with
  | nil => exact absurd rfl hne
  | cons c gap =>
    rintro _ ⟨⟩
    have hc : Lexeme.isAtomChar c = false := isAtomChar_of_blank (hgap c (List.mem_cons_self ..))
    simp [joinsAtom, hc]

/-- What ends an atom does so behind blanks. -/
theorem EndsAtom.blanks (hgap : Blanks gap) (h : EndsAtom comments rest) :
    EndsAtom comments (gap ++ rest) := by
  by_cases hne : gap = []
  · rwa [hne]
  · exact endsAtom_gap hne hgap rest

/-- A closing parenthesis ends an atom. -/
theorem endsAtom_closing (comments : Bool) (rest : List Char) :
    EndsAtom comments (')' :: rest) := by
  rintro _ ⟨⟩
  rfl

/-- What comes after an element ends it: blanks before the next one, or the end of the list. -/
theorem LayoutRest.endsAtom (h : LayoutRest trees text) (hrest : EndsAtom comments rest) :
    EndsAtom comments (text ++ rest) := by
  cases h with
  | nil => exact hrest
  | cons hne hgap _ _ =>
    rw [List.append_assoc]
    exact endsAtom_gap hne hgap _

mutual

/-- **A layout splits into the tokens of the tree**, whatever comes after it. -/
theorem splits_layout : (tree : SExpr) → {text rest : List Char} → {tokens : List Token} →
    Layout tree text → (∀ a ∈ tree.atoms, IsWord comments a) → EndsAtom comments rest →
    Splits comments rest tokens → Splits comments (text ++ rest) (tree.tokens ++ tokens)
  | .atom a, _, _, _, .atom _, hatoms, hend, h => by
    obtain ⟨hne, hword⟩ := hatoms a (by simp [SExpr.atoms])
    have hatom := Splits.atom hne hword hend h
    rwa [String.ofList_toList] at hatom
  | .list [], _, _, _, .empty hgap, _, _, h => by
    have hclosing := (Splits.closing h).blanks hgap
    simpa [SExpr.tokens, SExpr.tokensAll] using Splits.opening hclosing
  | .list (first :: others), _, rest, _, .list hbefore hfirst hothers hafter, hatoms, _, h => by
    have hclosing := endsAtom_closing comments rest
    have hend := (Splits.closing h).blanks hafter
    have hmore := splits_layoutRest others hothers
      (fun a ha => hatoms a (List.mem_append_right _ ha)) (hclosing.blanks hafter) hend
    have hinner := splits_layout first hfirst (fun a ha => hatoms a (List.mem_append_left _ ha))
      (hothers.endsAtom (hclosing.blanks hafter)) hmore
    have hlist := Splits.opening (hinner.blanks hbefore)
    simpa [SExpr.tokens, SExpr.tokensAll] using hlist

/-- So do the layouts of the elements after the first one. -/
theorem splits_layoutRest : (trees : List SExpr) → {text rest : List Char} →
    {tokens : List Token} → LayoutRest trees text →
    (∀ a ∈ SExpr.atomsAll trees, IsWord comments a) → EndsAtom comments rest →
    Splits comments rest tokens →
    Splits comments (text ++ rest) (SExpr.tokensAll trees ++ tokens)
  | [], _, _, _, .nil, _, _, h => h
  | next :: others, _, _, _, .cons _ hgap hnext hothers, hatoms, hend, h => by
    have hmore := splits_layoutRest others hothers
      (fun a ha => hatoms a (List.mem_append_right _ ha)) hend h
    have hfirst := splits_layout next hnext (fun a ha => hatoms a (List.mem_append_left _ ha))
      (hothers.endsAtom hend) hmore
    simpa [SExpr.tokensAll] using hfirst.blanks hgap

end

/-- A text laid out for a tree writes the tree. -/
theorem writes_of_laidOut {text : String} (h : tree.LaidOut text)
    (hatoms : ∀ a ∈ tree.atoms, IsWord comments a)
    (hliterals : ∀ a ∈ tree.atoms, Atom.refusal? a = none) (hnesting : tree.nesting ≤ maxNesting) :
    Writes comments text tree := by
  obtain ⟨before, inner, after, hbefore, hlayout, hafter, htext⟩ := h
  have hend : EndsAtom comments (after ++ []) := EndsAtom.blanks hafter nofun
  have hinner := splits_layout tree hlayout hatoms hend (Splits.nil.blanks hafter)
  refine ⟨?_, hliterals, hnesting⟩
  rw [htext]
  simpa using hinner.blanks hbefore

/-! ### Atoms that can be read -/

/-- The atoms of a text are words. -/
theorem Splits.isWord (h : Splits comments text tokens) {a : String} (ha : .atom a ∈ tokens) :
    IsWord comments a := by
  induction h with
  | nil => exact absurd ha List.not_mem_nil
  | blank _ _ ih | comment _ _ _ _ ih => exact ih ha
  | opening _ ih | closing _ ih =>
    rcases List.mem_cons.1 ha with heq | ha
    · exact absurd heq nofun
    · exact ih ha
  | atom hne hword _ _ ih =>
    rcases List.mem_cons.1 ha with heq | ha
    · obtain rfl := Token.atom.inj heq
      rw [IsWord, String.toList_ofList]
      exact ⟨hne, hword⟩
    · exact ih ha

/-- The atoms of a readable tree are found in a text, with comments on if no semicolon is in
them. -/
theorem SExpr.Readable.isWord (h : tree.Readable) {a : String} (ha : a ∈ tree.atoms)
    (hcomments : comments = true → ';' ∉ a.toList) : IsWord comments a := by
  obtain ⟨hne, hchars, -⟩ := h a ha
  refine ⟨fun hnil => hne (String.toList_eq_nil_iff.1 hnil), fun c hc => ?_⟩
  obtain ⟨hblank, hopening, hclosing⟩ := hchars c hc
  have hsemicolon : comments = true → c ≠ ';' := fun hon heq => hcomments hon (heq ▸ hc)
  cases comments <;> simp [joinsAtom, Lexeme.isAtomChar, hblank, hopening, hclosing, hsemicolon]

/-! ### Reading what was printed -/

/-- **Every layout of a tree is read as the tree.** -/
theorem SExpr.Readable.read_eq {text : String} (h : tree.Readable)
    (hnesting : tree.nesting ≤ maxNesting) (htext : tree.LaidOut text)
    (hcomments : comments = true → ∀ a ∈ tree.atoms, ';' ∉ a.toList) :
    read comments text = .ok tree := by
  have hatoms : ∀ a ∈ tree.atoms, IsWord comments a :=
    fun a ha => h.isWord ha fun hon => hcomments hon a ha
  have hliterals : ∀ a ∈ tree.atoms, Atom.refusal? a = none := fun a ha => (h a ha).2.2
  exact (writes_of_laidOut htext hatoms hliterals hnesting).read_eq

/-- **A tree made of atoms that were read is read** from its printed form, unless its lists are
nested too deeply. -/
theorem read_print_of_atoms {text : String} {whole : SExpr} (h : read comments text = .ok whole)
    (hatoms : ∀ a ∈ tree.atoms, a ∈ whole.atoms) (hnesting : tree.nesting ≤ maxNesting) :
    read comments tree.print = .ok tree := by
  have hwrites := writes_of_read_eq_ok h
  have hwords : ∀ a ∈ tree.atoms, IsWord comments a :=
    fun a ha => hwrites.splits.isWord ((SExpr.mem_atoms whole).1 (hatoms a ha))
  have hliterals : ∀ a ∈ tree.atoms, Atom.refusal? a = none :=
    fun a ha => hwrites.literals a (hatoms a ha)
  exact (writes_of_laidOut tree.laidOut_print hwords hliterals hnesting).read_eq

/-- **A tree that was read is read again** from its printed form. -/
theorem read_print_of_read {text : String} (h : read comments text = .ok tree) :
    read comments tree.print = .ok tree :=
  read_print_of_atoms h (fun _ ha => ha) (writes_of_read_eq_ok h).nesting

/-- **What can be written can be read**: every layout of a tree is read as the tree, the printed
form among them.  Conversely, the printed form of a tree that was read is read as that tree, so
that reading and printing once more changes nothing. -/
theorem read_print :
    (∀ tree : SExpr, tree.Readable → tree.nesting ≤ maxNesting →
      ∀ text, text = tree.print ∨ tree.LaidOut text →
        read false text = .ok tree ∧
          ((∀ a ∈ tree.atoms, ';' ∉ a.toList) → read true text = .ok tree)) ∧
      (∀ comments text tree, read comments text = .ok tree →
        read comments tree.print = .ok tree) ∧
      ∀ comments text printed, (read comments text).map SExpr.print = .ok printed →
        (read comments printed).map SExpr.print = .ok printed := by
  refine ⟨?_, fun _ _ _ => read_print_of_read, ?_⟩
  · intro tree hreadable hnesting text htext
    have hlaidOut : tree.LaidOut text := by
      rcases htext with rfl | htext
      · exact tree.laidOut_print
      · exact htext
    constructor
    · exact hreadable.read_eq hnesting hlaidOut nofun
    · exact fun hsemicolon => hreadable.read_eq hnesting hlaidOut fun _ => hsemicolon
  · intro comments text printed h
    cases hread : read comments text with
    | error e => rw [hread] at h; exact absurd h nofun
    | ok tree =>
      rw [hread] at h
      obtain rfl : tree.print = printed := Except.ok.inj h
      rw [read_print_of_read hread]
      rfl

/-- A layout with blanks beside the parentheses. -/
theorem read_print_spaced :
    read false "( f\n( ) )" = .ok (.list [.atom "f", .list []]) := by
  have hreadable : (SExpr.list [.atom "f", .list []]).Readable := by
    intro a ha
    obtain rfl : a = "f" := by simpa [SExpr.atoms, SExpr.atomsAll] using ha
    refine ⟨by decide, fun c hc => ?_, by decide⟩
    obtain rfl : c = 'f' := by simpa using hc
    decide
  have hspace : Blanks [' '] := List.forall_mem_singleton.2 (by decide)
  have hline : Blanks ['\n'] := List.forall_mem_singleton.2 (by decide)
  have hlaidOut : (SExpr.list [.atom "f", .list []]).LaidOut "( f\n( ) )" :=
    ⟨[], _, [], blanks_nil, .list hspace (.atom "f")
      (.cons (List.cons_ne_nil _ _) hline (.empty hspace) .nil) hspace, blanks_nil, rfl⟩
  exact (read_print.1 _ hreadable (by decide) _ (.inr hlaidOut)).1

end StrictScheme
