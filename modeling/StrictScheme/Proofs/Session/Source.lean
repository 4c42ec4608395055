/-
# Printed procedures and their source

The printed form of a procedure joins its name, its parameters and its body without quoting
anything.  Put between parentheses, what it joins is the printed form of a tree
(`Procedure.outline`), so it is unambiguous as far as such trees are read back from their
printed forms (`Procedure.eq_of_print_eq`).  And the same parts make a definition
(`Procedure.definition`), which defines the procedure again.

Both take that the parts could stand in a source text.  They did: a host that brings texts
only meets only procedures whose definition is part of one of these texts
(`Session.ComesUp.exists_source`).  The printed form of that part is read just as the text
was, with comments on or off.
-/

import StrictScheme.Proofs.Eval.Printed
import StrictScheme.Proofs.Session.Provenance
import StrictScheme.Proofs.Session.WellFormed

namespace StrictScheme

variable {comments : Bool} {text : String} {whole tree : SExpr} {p q : Procedure}

/-! ### Parts of a tree -/

/-- The parts of a tree: the tree itself, and the elements of each part. -/
inductive SExpr.HasPart (whole : SExpr) : SExpr → Prop
  | whole : HasPart whole whole
  | element {elements : List SExpr} {tree : SExpr} (h : HasPart whole (.list elements))
      (htree : tree ∈ elements) : HasPart whole tree

namespace SExpr

/-- The atoms of a part are atoms of the whole. -/
theorem HasPart.mem_atoms (h : whole.HasPart tree) {a : String} (ha : a ∈ tree.atoms) :
    a ∈ whole.atoms := by
  induction h with
  | whole => exact ha
  | element _ htree ih => exact ih (mem_atomsAll.2 ⟨_, htree, ha⟩)

/-- A part of a source is one. -/
theorem HasPart.isSource (h : whole.HasPart tree) (hwhole : whole.IsSource) : tree.IsSource := by
  induction h with
  | whole => exact hwhole
  | element _ htree ih => exact ih.element htree

/-- A list of names is printed with spaces between them. -/
theorem print_list_atoms (names : List String) :
    (SExpr.list (names.map .atom)).print = "(" ++ " ".intercalate names ++ ")" := by
  cases names with
  | nil => rfl
  | cons first rest =>
    have hrest (first : String) : " ".intercalate (first :: rest) =
        first ++ printRest (rest.map .atom) := by
      induction rest generalizing first with
      | nil => simp [printRest]
      | cons next rest ih =>
        rw [String.intercalate_cons_cons, ih, List.map_cons, printRest, print]
        simp only [String.append_assoc]
    rw [hrest, List.map_cons, print, print]
    simp only [String.append_assoc]

end SExpr

namespace Procedure

/-! ### Trees for a procedure -/

/-- What the printed form of a procedure shows, as a tree. -/
def outline (p : Procedure) : SExpr :=
  .list [.atom p.name, .list (p.params.map .atom), p.body]

/-- The definition that makes a procedure with this name, these parameters and this body. -/
def definition (p : Procedure) : SExpr :=
  .list [.atom SpecialForm.define.keyword, .list (.atom p.name :: p.params.map .atom), p.body]

/-- The definition as a text, from the same parts as the printed form. -/
def sourceText (p : Procedure) : String :=
  "(define (" ++ " ".intercalate (p.name :: p.params) ++ ") " ++ p.body.print ++ ")"

/-- The definition of a procedure is printed as its source text. -/
theorem print_definition (p : Procedure) : p.definition.print = p.sourceText := by
  have hsignature : (SExpr.list (.atom p.name :: p.params.map .atom)).print =
      "(" ++ " ".intercalate (p.name :: p.params) ++ ")" :=
    SExpr.print_list_atoms (p.name :: p.params)
  rw [definition, SExpr.print, SExpr.printRest, SExpr.printRest, SExpr.printRest, hsignature]
  simp only [SExpr.print, SpecialForm.keyword, sourceText, String.append_assoc]
  rfl

/-- The outline of a procedure is printed as its name, its parameters and its body. -/
theorem print_outline (p : Procedure) :
    p.outline.print =
      "(" ++ (p.name ++ " (" ++ " ".intercalate p.params ++ ") " ++ p.body.print) ++ ")" := by
  rw [outline, SExpr.print, SExpr.printRest, SExpr.printRest, SExpr.printRest,
    SExpr.print_list_atoms]
  simp only [SExpr.print, String.append_assoc]
  rfl

/-- **Procedures that are printed alike have the same outline.** -/
theorem outline_print_of_print_eq (h : p.print = q.print) :
    p.outline.print = q.outline.print := by
  rw [print_eq, print_eq, String.append_right_inj, String.append_left_inj] at h
  rw [print_outline, print_outline, h]

/-- The definition of a procedure is part of a tree, and it is one: the procedure and its parameters
go by names, and no two parameters by the same. -/
structure DefinedIn (whole : SExpr) (p : Procedure) : Prop where
  part : whole.HasPart p.definition
  name : Atom.ofToken p.name = .identifier p.name
  nodup : p.params.Nodup
  params : ∀ x ∈ p.params, Atom.ofToken x = .identifier x

namespace DefinedIn

/-- The definition of a procedure that was read is a source. -/
theorem isSource_definition (h : p.DefinedIn whole) (hread : read comments text = .ok whole) :
    p.definition.IsSource :=
  h.part.isSource (SExpr.isSource_of_read hread)

/-- **The definition is read by itself** as it was in the text, and always with comments off. -/
theorem read_sourceText (h : p.DefinedIn whole) (hread : read comments text = .ok whole) :
    read comments p.sourceText = .ok p.definition ∧
      read false p.sourceText = .ok p.definition := by
  have hsource := h.isSource_definition hread
  rw [← p.print_definition]
  exact ⟨read_print_of_atoms hread (fun a ha => h.part.mem_atoms ha) hsource.nesting,
    hsource.readable.read_eq hsource.nesting p.definition.laidOut_print nofun⟩

/-- The outline is made of parts of the definition. -/
theorem isSource_outline (h : p.DefinedIn whole) (hread : read comments text = .ok whole) :
    p.outline.IsSource := by
  obtain ⟨hreadable, hnesting⟩ := h.isSource_definition hread
  constructor
  · intro a ha
    refine hreadable a ?_
    simp only [outline, definition, SExpr.atoms, SExpr.atomsAll, List.mem_append,
      List.mem_singleton] at ha ⊢
    tauto
  · simp only [outline, definition, SExpr.nesting, SExpr.nestingAll] at hnesting ⊢
    omega

/-- **The definition makes a procedure that is printed alike**, wherever its name is not bound. -/
theorem evaluate_definition (h : p.DefinedIn whole) {limit : UInt64} (hlimit : 0 < limit.toNat)
    {store : Store} {s : ScopeId} (hfree : store.bindsLocally s p.name = false) :
    ∃ q after, evaluate limit s p.definition store = .ok (.procedure q) after ∧
      q.print = p.print := by
  obtain ⟨fuel, hfuel⟩ := Nat.exists_eq_add_one.2 hlimit
  have hparams : SpecialForm.define.parameters [] (p.params.map .atom) = .ok p.params :=
    SpecialForm.define.parameters_map_atom h.nodup fun x hx => ⟨List.not_mem_nil, h.params x hx⟩
  have hdone := defineProcedure_of_names (SpecialForm.define.identifier_atom h.name) hparams s
    p.body store
  simp only [hfree] at hdone
  rw [evaluate, hfuel, definition, SpecialForm.eval_form]
  exact ⟨_, _, hdone, rfl⟩

end DefinedIn

/-- **The printed form determines the name, the parameters and the body.** -/
theorem eq_of_print_eq (hp : p.outline.IsSource) (hq : q.outline.IsSource)
    (h : p.print = q.print) : p.name = q.name ∧ p.params = q.params ∧ p.body = q.body := by
  have hread {r : Procedure} (hr : r.outline.IsSource) :
      read false r.outline.print = .ok r.outline :=
    hr.readable.read_eq hr.nesting r.outline.laidOut_print nofun
  have hsame : p.outline = q.outline := by
    have hp := hread hp
    rw [outline_print_of_print_eq h, hread hq] at hp
    exact (Except.ok.inj hp).symm
  have hatom : Function.Injective SExpr.atom := fun _ _ => SExpr.atom.inj
  simp only [outline, SExpr.list.injEq, List.cons.injEq, SExpr.atom.injEq, and_true] at hsame
  exact ⟨hsame.1, List.map_injective_iff.2 hatom hsame.2.1, hsame.2.2⟩

end Procedure

/-! ### Sessions of texts -/

/-- The text that a step has evaluated, and whether it is read with comments on. -/
def Step.source? (config : Config) : Step → Option (Bool × String)
  | .evaluate text _ _ => some (config.comments, text)
  | .evaluateDefault text _ _ => some (({} : Config).comments, text)
  | _ => none

/-- Whether the host brings a tree or a user procedure of its own with a step. -/
def Step.bringsProgram : Step → Bool
  | .evaluateTree .. | .special .. => true
  | .define _ _ (.procedure ..) | .assign _ _ (.procedure ..) | .keep (.procedure ..) _ => true
  | _ => false

/-- A tree that was read from a text that some step has evaluated. -/
def Session.HasRead (config : Config) (script : List Step) (comments : Bool) (whole : SExpr) :
    Prop :=
  ∃ step ∈ script, ∃ text, step.source? config = some (comments, text) ∧
    read comments text = .ok whole

/-- **What is evaluated is part of a text, and so is the definition of what comes up.** -/
def fromTexts (config : Config) (script : List Step) : Provenance where
  Tree tree := ∃ comments whole, Session.HasRead config script comments whole ∧ whole.HasPart tree
  Made p := ∃ comments whole, Session.HasRead config script comments whole ∧ p.DefinedIn whole
  element := by
    rintro elements tree ⟨comments, whole, hread, hpart⟩ htree
    exact ⟨comments, whole, hread, hpart.element htree⟩
  made := by
    rintro name params body ⟨comments, whole, hread, hpart⟩ hname hnodup hparams id s
    exact ⟨comments, whole, hread, hpart, hname, hnodup, hparams⟩
  body := by
    rintro p ⟨comments, whole, hread, hdefined⟩
    exact ⟨comments, whole, hread, hdefined.part.element (by simp)⟩

namespace Session

variable {config : Config} {script : List Step}

/-- A step that brings no program is covered by the texts of the script. -/
theorem covers_fromTexts {step : Step} (hmem : step ∈ script) (h : step.bringsProgram = false) :
    (fromTexts config script).Covers config step := by
  have htext {settings : Config} {text : String} {tree : SExpr}
      (hsource : step.source? config = some (settings.comments, text))
      (hread : read settings.comments text = .ok tree) : (fromTexts config script).Tree tree :=
    ⟨_, tree, ⟨step, hmem, text, hsource, hread⟩, .whole⟩
  cases step with
  | evaluate | evaluateDefault => exact fun tree => htext rfl
  | evaluateTree | special => cases h
  | define _ _ source | assign _ _ source | keep source =>
    cases source with
    | procedure => cases h
    | number | boolean | builtin | slot => trivial
  | _ => trivial

/-- **The definition of every procedure stands in a text**, if the host brings texts only. -/
theorem ComesUp.exists_source (h : ComesUp config script p)
    (hscript : ∀ step ∈ script, step.bringsProgram = false) :
    ∃ comments whole, HasRead config script comments whole ∧ p.DefinedIn whole :=
  h.made (o := fromTexts config script) fun step hmem => covers_fromTexts hmem (hscript step hmem)

/-- **A printed procedure determines its source.**  Take any procedures that come up while hosts
bring texts only.  If two of them are printed alike, be it in different sessions, they have the same
name, the same parameters and the same body.  And what is printed of one makes a text, which is read
as its definition: with comments on or off as they were for the text that the definition stands in,
and with comments off in any case.  Evaluated in a scope that binds nothing, under any limit that
leaves a level for it, the definition makes a procedure that is printed alike. -/
theorem printed_procedure_determines_source :
    (∀ config script p config' script' q,
      (∀ step ∈ script, step.bringsProgram = false) → ComesUp config script p →
      (∀ step ∈ script', step.bringsProgram = false) → ComesUp config' script' q →
      p.print = q.print → p.name = q.name ∧ p.params = q.params ∧ p.body = q.body) ∧
    ∀ config script p, (∀ step ∈ script, step.bringsProgram = false) → ComesUp config script p →
      ∃ comments whole, HasRead config script comments whole ∧ whole.HasPart p.definition ∧
        read comments p.sourceText = .ok p.definition ∧
        read false p.sourceText = .ok p.definition ∧
        ∀ (limit : UInt64) store s, 0 < limit.toNat →
          (∀ name, store.bindsLocally s name = false) →
            ∃ q after, evaluate limit s p.definition store = .ok (.procedure q) after ∧
              q.print = p.print := by
  constructor
  · intro config script p config' script' q hscript hp hscript' hq hprint
    obtain ⟨_, whole, ⟨_, _, _, _, hread⟩, hdefined⟩ := hp.exists_source hscript
    obtain ⟨_, whole', ⟨_, _, _, _, hread'⟩, hdefined'⟩ := hq.exists_source hscript'
    exact Procedure.eq_of_print_eq (hdefined.isSource_outline hread)
      (hdefined'.isSource_outline hread') hprint
  · intro config script p hscript hp
    obtain ⟨comments, whole, hsource, hdefined⟩ := hp.exists_source hscript
    obtain ⟨step, hmem, text, htext, hread⟩ := hsource
    obtain ⟨hsame, hoff⟩ := hdefined.read_sourceText hread
    exact ⟨comments, whole, ⟨step, hmem, text, htext, hread⟩, hdefined.part, hsame, hoff,
      fun limit store s hlimit hempty => hdefined.evaluate_definition hlimit (hempty p.name)⟩

/-- A procedure that defines another one, from a text with a comment in it. -/
def maker : Procedure :=
  ⟨0, "make", ["n"], .list [.atom "define", .list [.atom "loop", .atom "x"],
    .list [.atom "f", .atom "n", .atom "x"]], 0⟩

/-- The text of `maker`. -/
def makerSource : List Step :=
  [.evaluate "(define (make n) ; a (\n (define (loop x) (f n x)))" .global (some "m")]

/-- A comment does not show in the source that a procedure is printed with. -/
theorem makerSource_determines_source :
    ComesUp { comments := true } makerSource maker ∧
      read true "(define (make n) (define (loop x) (f n x)))" = .ok maker.definition ∧
      ∀ q, ComesUp { comments := true } makerSource q → maker.print = q.print →
        maker.body = q.body := by
  let session := new { comments := true }
  have hread : read session.config.comments "(define (make n) ; a (\n (define (loop x) (f n x)))" =
      .ok maker.definition := by
    decide +kernel
  have hvalue : (session.run (evaluate session.config.maxDepth 0 maker.definition)).1 =
      .ok (.procedure maker) := by
    decide +kernel
  have hslots := slots_step_evaluate rfl hread hvalue "m"
  have hmaker : ComesUp { comments := true } makerSource maker := by
    refine .inl (.inl ?_)
    have hkept : (session.steps makerSource).2.slots =
        session.slots.insert "m" (.procedure maker) := by
      simpa only [makerSource, steps] using hslots
    rw [hkept]
    exact List.mem_singleton_self _
  have htexts : ∀ step ∈ makerSource, step.bringsProgram = false := by
    decide
  obtain ⟨hunique, hsource⟩ := printed_procedure_determines_source
  obtain ⟨comments, whole, ⟨step, hmem, _, htext, _⟩, _, hsame, _⟩ :=
    hsource { comments := true } makerSource maker htexts hmaker
  obtain rfl := List.mem_singleton.1 hmem
  obtain ⟨rfl, -⟩ := Prod.mk.inj (Option.some.inj htext)
  exact ⟨hmaker, hsame, fun q hq hprint =>
    (hunique _ _ _ _ _ _ htexts hmaker htexts hq hprint).2.2⟩

end Session
end StrictScheme
