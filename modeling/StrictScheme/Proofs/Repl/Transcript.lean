/-
# Runs of the loop

What a run prints is determined by its lines, and for the lines that hold expressions by one
interpreter.  It is given the expressions, in order and nothing else (`Repl.interpreter`), and
the output of a line shows what it answers after the expressions of the lines before
(`Repl.output`).  Blank lines, the help and the listing leave it as it is, so they can go without
a change to the output of any other line.

A run ends at the first line that asks to leave or is no text, and no line after it is looked at.
This is so with every line reader that hands the lines over unchanged
(`Repl.LineReader.HandsOver`).
-/

import StrictScheme.Proofs.Repl.Lines
import StrictScheme.Proofs.Session.Listing
import StrictScheme.Proofs.Session.WellFormed

namespace StrictScheme
namespace Repl

variable {earlier earlier' ls : List (List UInt8)} {line : List UInt8} {step : Step}
  {reader : LineReader}

/-! ### One interpreter -/

/-- The evaluation that a line asks for. -/
def evaluation? (line : List UInt8) : Option Step :=
  match request? line with
  | some (.expression text) => some (.evaluate text .global none)
  | _ => none

/-- **The interpreter after some lines**: it has been given the expressions among them and nothing
else. -/
def interpreter (ls : List (List UInt8)) : Session :=
  (start.steps (ls.filterMap evaluation?)).2

/-- What is shown of an answer of the interpreter. -/
def shown : Answer → String
  | .value v => lines [v.print]
  | .failure e => lines ["Error: " ++ e.message]
  | .listing _ bindings => listing bindings
  | _ => ""

/-- **The output of a line**, given the lines before it. -/
def output (earlier : List (List UInt8)) (line : List UInt8) : String :=
  match request? line with
  | some .help => help
  | some .listing => shown ((interpreter earlier).step (.listing .global true)).1
  | some (.expression text) =>
    shown ((interpreter earlier).step (.evaluate text .global none)).1
  | _ => ""

/-- The outputs of lines, one after the other. -/
def outputs : (earlier : List (List UInt8)) → List (List UInt8) → List String
  | _, [] => []
  | earlier, line :: rest => output earlier line :: outputs (earlier ++ [line]) rest

/-- The lines that are worked off: those before the first that ends the run. -/
def processed (ls : List (List UInt8)) : List (List UInt8) :=
  ls.takeWhile fun line => !ends line

/-- What comes of some lines: the outputs of those that are worked off, and whether it is a line
that is no text that ends the run. -/
structure Account where
  outputs : List String
  invalid : Bool
deriving DecidableEq, Repr

/-- **What comes of the lines of a whole input.** -/
def account (ls : List (List UInt8)) : Account :=
  ⟨outputs [] (processed ls), (ls.find? ends).any fun line => (request? line).isNone⟩

/-! ### The interpreter -/

/-- A script may be run in two parts. -/
theorem steps_append (session : Session) (first rest : List Step) :
    (session.steps (first ++ rest)).2 = ((session.steps first).2.steps rest).2 := by
  induction first generalizing session with
  | nil => rfl
  | cons step first ih => exact ih (session.step step).2

/-- The interpreter goes on from the lines before. -/
theorem interpreter_append (earlier ls : List (List UInt8)) :
    interpreter (earlier ++ ls) = ((interpreter earlier).steps (ls.filterMap evaluation?)).2 := by
  rw [interpreter, List.filterMap_append, steps_append]
  rfl

/-- A line with an expression is a step of it. -/
theorem interpreter_of_evaluation (h : evaluation? line = some step) :
    interpreter (earlier ++ [line]) = ((interpreter earlier).step step).2 := by
  rw [interpreter_append, List.filterMap_cons_some h]
  rfl

/-- Any other line leaves it as it is. -/
theorem interpreter_of_no_evaluation (h : evaluation? line = none) :
    interpreter (earlier ++ [line]) = interpreter earlier := by
  rw [interpreter_append, List.filterMap_cons_none h]
  rfl

/-- From the same interpreter the same lines lead to the same one. -/
theorem interpreter_congr (h : interpreter earlier = interpreter earlier')
    (ls : List (List UInt8)) : interpreter (earlier ++ ls) = interpreter (earlier' ++ ls) := by
  rw [interpreter_append, interpreter_append, h]

/-- The interpreter keeps its global scope. -/
theorem global_interpreter (ls : List (List UInt8)) : (interpreter ls).global = some 0 := by
  have htextual : ∀ step ∈ ls.filterMap evaluation?, Session.IsTextual step := by
    intro step hstep
    obtain ⟨line, -, hline⟩ := List.mem_filterMap.1 hstep
    unfold evaluation? at hline
    split at hline
    · cases hline
      exact .evaluate ..
    · cases hline
  exact ((Session.wellFormed_new _).steps (Session.sound_new _) htextual).global

/-- An evaluation answers with a value or an error. -/
theorem evaluation_answer (ls : List (List UInt8)) (text : String) :
    (∃ v, ((interpreter ls).step (.evaluate text .global none)).1 = .value v) ∨
      ∃ e, ((interpreter ls).step (.evaluate text .global none)).1 = .failure e := by
  rw [Session.step_evaluate_eq (global_interpreter ls)]
  cases ((interpreter ls).evaluateText (interpreter ls).config 0 text).1 with
  | ok v => exact .inl ⟨v, rfl⟩
  | error e => exact .inr ⟨e, rfl⟩

/-! ### One line -/

/-- A line with an expression shows the answer of the interpreter, and leaves the interpreter after
it. -/
theorem evaluateLine_interpreter (ls : List (List UInt8)) (text : String) :
    evaluateLine (interpreter ls) text =
      (shown ((interpreter ls).step (.evaluate text .global none)).1,
        ((interpreter ls).step (.evaluate text .global none)).2) := by
  have hglobal := global_interpreter ls
  rw [Session.step_evaluate_eq hglobal]
  simp only [evaluateLine, hglobal]
  rcases (interpreter ls).evaluateText (interpreter ls).config 0 text with ⟨v | e, after⟩ <;> rfl

/-- The listing shows the answer of the interpreter. -/
theorem listing_interpreter (ls : List (List UInt8)) :
    listing (((interpreter ls).global.map (interpreter ls).store.listing).getD []) =
      shown ((interpreter ls).step (.listing .global true)).1 := by
  have hglobal := global_interpreter ls
  have hnamed : (interpreter ls).named? .global = some 0 := hglobal
  have hsettled : (interpreter ls).Settled := ((Session.Reachable.new _).steps _).settled
  rw [hsettled.step_listing hnamed]
  simp [hglobal, shown]

/-- What the loop does with a text is what the trimmed text asks for. -/
theorem answer_eq (session : Session) (text : String) :
    answer session text =
      match Request.ofText (Text.trim text) with
      | .nothing => .goOn "" session
      | .help => .goOn help session
      | .listing => .goOn (listing ((session.global.map session.store.listing).getD [])) session
      | .leave => .stop farewell 0
      | .expression trimmed =>
        .goOn (evaluateLine session trimmed).1 (evaluateLine session trimmed).2 := by
  unfold answer Request.ofText
  split <;> simp [*]

/-- **What the loop does with a line** that is handed over: it stops, or goes on with the output of
the line and the interpreter after it. -/
theorem turn_interpreter (earlier : List (List UInt8)) (hline : reader.HandsOver line) :
    turn (interpreter earlier) (reader line) =
      match request? line with
      | none => .stop "" failure
      | some .leave => .stop farewell 0
      | some _ => .goOn (output earlier line) (interpreter (earlier ++ [line])) := by
  unfold LineReader.HandsOver at hline
  cases htext : String.fromUTF8? ⟨line.toArray⟩ with
  | none => simp [turn, request?, hline, htext]
  | some text =>
    have hrequest : request? line = some (.ofText (Text.trim text)) := by simp [request?, htext]
    have hturn : turn (interpreter earlier) (reader line) = answer (interpreter earlier) text := by
      simp [turn, hline, htext]
    rw [hturn, answer_eq, hrequest]
    generalize Request.ofText (Text.trim text) = request at hrequest
    cases request with
    | leave => rfl
    | nothing | help =>
      rw [interpreter_of_no_evaluation (by simp [evaluation?, hrequest])]
      simp [output, hrequest]
    | listing =>
      rw [interpreter_of_no_evaluation (by simp [evaluation?, hrequest])]
      simp [output, hrequest, listing_interpreter]
    | expression trimmed =>
      have hstep : evaluation? line = some (.evaluate trimmed .global none) := by
        simp [evaluation?, hrequest]
      rw [interpreter_of_evaluation hstep]
      simp [output, hrequest, evaluateLine_interpreter]

/-- How the loop stops at a line, after what was shown before. -/
def stopAt (line : List UInt8) (shown : String) : Turn :=
  if (request? line).isNone then .stop shown failure else .stop (shown ++ farewell) 0

/-- The loop stops there. -/
theorem exists_stopAt (line : List UInt8) (shown : String) :
    ∃ output exitCode, stopAt line shown = .stop output exitCode := by
  unfold stopAt
  split
  · exact ⟨_, _, rfl⟩
  · exact ⟨_, _, rfl⟩

/-- What was shown before stands before what is shown at the end. -/
theorem after_stopAt (earlier : String) (line : List UInt8) (shown : String) :
    (stopAt line shown).after earlier = stopAt line (earlier ++ shown) := by
  unfold stopAt
  split
  · rfl
  · rw [Turn.after, String.append_assoc]

/-- At a line that ends the run the loop stops. -/
theorem turn_of_ends (hline : reader.HandsOver line) (hends : ends line = true) :
    turn (interpreter earlier) (reader line) = stopAt line "" := by
  rw [turn_interpreter earlier hline, stopAt, String.empty_append]
  rcases ends_iff.1 hends with hnone | hleave
  · rw [hnone]
    rfl
  · rw [hleave]
    rfl

/-- After any other line it goes on. -/
theorem turn_of_not_ends (hline : reader.HandsOver line) (hends : ends line = false) :
    turn (interpreter earlier) (reader line) =
      .goOn (output earlier line) (interpreter (earlier ++ [line])) := by
  have hgoes : ¬ (request? line = none ∨ request? line = some .leave) :=
    mt ends_iff.2 (Bool.eq_false_iff.1 hends)
  rw [turn_interpreter earlier hline]
  cases hrequest : request? line with
  | none => exact (hgoes (.inl hrequest)).elim
  | some request =>
    cases request with
    | leave => exact (hgoes (.inr hrequest)).elim
    | nothing | help | listing | expression => rfl

/-! ### All lines -/

/-- A line that ends the run is not worked off, and neither are those after it. -/
theorem processed_cons_of_ends (hends : ends line = true) (rest : List (List UInt8)) :
    processed (line :: rest) = [] :=
  List.takeWhile_cons_of_neg (by simp [hends])

/-- Any other line is worked off. -/
theorem processed_cons_of_not_ends (hends : ends line = false) (rest : List (List UInt8)) :
    processed (line :: rest) = line :: processed rest :=
  List.takeWhile_cons_of_pos (by simp [hends])

/-- **What the loop does with several lines.** -/
theorem turns_interpreter (earlier : List (List UInt8)) (h : ∀ line ∈ ls, reader.HandsOver line) :
    turns reader (interpreter earlier) ls =
      match ls.find? ends with
      | none => .goOn (String.join (outputs earlier (processed ls))) (interpreter (earlier ++ ls))
      | some line => stopAt line (String.join (outputs earlier (processed ls))) := by
  induction ls generalizing earlier with
  | nil => simp [turns, processed, outputs]
  | cons line rest ih =>
    obtain ⟨hline, hrest⟩ := List.forall_mem_cons.1 h
    cases hends : ends line with
    | true =>
      obtain ⟨shown, exitCode, hstop⟩ := exists_stopAt line ""
      rw [turns, turn_of_ends hline hends, List.find?_cons_of_pos hends,
        processed_cons_of_ends hends, outputs, String.join_nil, hstop]
      exact hstop.symm
    | false =>
      rw [turns, turn_of_not_ends hline hends, List.find?_cons_of_neg (by simp [hends]),
        processed_cons_of_not_ends hends, outputs, String.join_cons]
      simp only [ih (earlier ++ [line]) hrest, List.append_assoc, List.singleton_append]
      cases rest.find? ends with
      | none => rfl
      | some last => exact after_stopAt ..

/-- What follows a line that stops the loop is not looked at. -/
theorem turns_append {session : Session} {shown : String} {exitCode : UInt32}
    (h : turns reader session ls = .stop shown exitCode) (after : List (List UInt8)) :
    turns reader session (ls ++ after) = .stop shown exitCode := by
  induction ls generalizing session shown exitCode with
  | nil => cases h
  | cons line rest ih =>
    rw [turns] at h
    rw [List.cons_append, turns]
    cases hturn : turn session (reader line) with
    | stop output code => rwa [hturn] at h
    | goOn output next =>
      simp only [hturn] at h ⊢
      cases hrest : turns reader next rest with
      | goOn others last =>
        rw [hrest] at h
        cases h
      | stop others code =>
        rw [ih hrest, ← hrest]
        exact h

/-- **A run prints what comes of its lines**, between the greeting and the farewell; after a line
that is no text there is no farewell. -/
theorem run_eq {input : List UInt8} (h : ∀ line ∈ splitLines input, reader.HandsOver line) :
    run reader input =
      if (account (splitLines input)).invalid then
        ⟨greeting ++ String.join (account (splitLines input)).outputs, failure⟩
      else ⟨greeting ++ String.join (account (splitLines input)).outputs ++ farewell, 0⟩ := by
  have hturns : turns reader start (splitLines input) = _ := turns_interpreter [] h
  rw [run, hturns, account]
  cases (splitLines input).find? ends with
  | none => rfl
  | some last =>
    cases hinvalid : (request? last).isNone with
    | true =>
      simp only [stopAt, Option.any_some, hinvalid, if_true]
    | false =>
      simp only [stopAt, Option.any_some, hinvalid, Bool.false_eq_true, if_false]
      rw [String.append_assoc]

/-- A line that ends the run makes the rest of the input irrelevant. -/
theorem run_append {head : List UInt8}
    (h : ∀ line ∈ splitLines (head ++ [10]), reader.HandsOver line)
    (hends : ∃ line ∈ splitLines (head ++ [10]), ends line = true) (tail : List UInt8) :
    run reader (head ++ 10 :: tail) = run reader (head ++ [10]) := by
  obtain ⟨last, hlast⟩ := Option.isSome_iff_exists.1 (List.find?_isSome.2 hends)
  have hturns : turns reader start (splitLines (head ++ [10])) = _ := turns_interpreter [] h
  rw [hlast] at hturns
  obtain ⟨shown, exitCode, hstop⟩ := exists_stopAt last
    (String.join (outputs [] (processed (splitLines (head ++ [10])))))
  rw [run, run, splitLines_append, hturns.trans hstop,
    turns_append (hturns.trans hstop)]

/-! ### Idle lines -/

/-- A line that asks for nothing, for the help or for the listing. -/
def isIdle (line : List UInt8) : Bool :=
  match request? line with
  | some .nothing | some .help | some .listing => true
  | _ => false

/-- An idle line asks for nothing, for the help or for the listing. -/
theorem request_of_isIdle (h : isIdle line = true) :
    request? line = some .nothing ∨ request? line = some .help ∨
      request? line = some .listing := by
  unfold isIdle at h
  split at h <;> simp_all

/-- So it does not end the run. -/
theorem ends_of_isIdle (h : isIdle line = true) : ends line = false := by
  rcases request_of_isIdle h with h | h | h <;> rw [ends, h]

/-- Nor does it ask for an evaluation. -/
theorem evaluation?_of_isIdle (h : isIdle line = true) : evaluation? line = none := by
  rcases request_of_isIdle h with h | h | h <;> rw [evaluation?, h]

/-- The lines before count only for the interpreter after them. -/
theorem outputs_congr (h : interpreter earlier = interpreter earlier') (ls : List (List UInt8)) :
    outputs earlier ls = outputs earlier' ls := by
  induction ls generalizing earlier earlier' with
  | nil => rfl
  | cons line rest ih =>
    have houtput : output earlier line = output earlier' line := by
      unfold output
      rw [h]
    rw [outputs, outputs, houtput, ih (interpreter_congr h [line])]

/-- Without an idle line only its own output is missing. -/
theorem outputs_eraseIdx (hidle : isIdle line = true) (earlier before after : List (List UInt8)) :
    outputs earlier (processed (before ++ after)) =
      (outputs earlier (processed (before ++ line :: after))).eraseIdx before.length := by
  induction before generalizing earlier with
  | nil =>
    have hsame : interpreter earlier = interpreter (earlier ++ [line]) :=
      (interpreter_of_no_evaluation (evaluation?_of_isIdle hidle)).symm
    rw [List.nil_append, List.nil_append, processed_cons_of_not_ends (ends_of_isIdle hidle),
      outputs, List.length_nil, List.eraseIdx_cons_zero]
    exact outputs_congr hsame _
  | cons first before ih =>
    rw [List.cons_append, List.cons_append]
    cases hends : ends first with
    | true =>
      -- the run has ended before it comes to the line
      rw [processed_cons_of_ends hends, processed_cons_of_ends hends]
      rfl
    | false =>
      rw [processed_cons_of_not_ends hends, processed_cons_of_not_ends hends, outputs, outputs,
        List.length_cons, List.eraseIdx_cons_succ, ih]

/-- The end of the run is not affected either. -/
theorem account_eraseIdx (hidle : isIdle line = true) (before after : List (List UInt8)) :
    account (before ++ after) =
      { account (before ++ line :: after) with
        outputs := (account (before ++ line :: after)).outputs.eraseIdx before.length } := by
  have hfind : (before ++ line :: after).find? ends = (before ++ after).find? ends := by
    simp [List.find?_append, ends_of_isIdle hidle]
  unfold account
  rw [outputs_eraseIdx hidle, hfind]

/-! ### Whole runs -/

/-- A line ends with a line feed. -/
theorem lines_singleton (text : String) : lines [text] = text ++ "\n" := by
  simp [lines]

/-- What is shown first. -/
theorem greeting_eq :
    greeting = "Scheme Interpreter\n" ++ "Enter S-expressions like: (+ 1 2)\n" ++
      "Type :help for more commands, or Ctrl+C to exit.\n" ++ "\n" := by
  decide +kernel

/-- What is shown last. -/
theorem farewell_eq : farewell = "Goodbye!\n" := by
  decide +kernel

/-- **The loop is a faithful transcript of one session.**  Every input has its lines, in one way
only.  If the line reader hands them over unchanged, a run works off those before the first that
asks to leave or is no text, and prints the greeting, their outputs in order, and the farewell,
except after a line that is no text; that is the only way to fail.

The output of an expression is the value or the error that one interpreter, with comments on,
answers after the expressions of the lines before and nothing else.  So what follows a line that
ends the run does not matter, and without a line that is blank or asks for the help or the listing
the others have the same outputs. -/
theorem transcript_faithful :
    (∀ input, ∃! ls, HasLines input ls) ∧
    (∀ (reader : LineReader) (input : List UInt8) (ls : List (List UInt8)),
      HasLines input ls → (∀ line ∈ ls, reader.HandsOver line) →
      run reader input =
        if (account ls).invalid then
          ⟨"Scheme Interpreter\n" ++ "Enter S-expressions like: (+ 1 2)\n" ++
              "Type :help for more commands, or Ctrl+C to exit.\n" ++ "\n" ++
              String.join (account ls).outputs, 1⟩
        else
          ⟨"Scheme Interpreter\n" ++ "Enter S-expressions like: (+ 1 2)\n" ++
              "Type :help for more commands, or Ctrl+C to exit.\n" ++ "\n" ++
              String.join (account ls).outputs ++ "Goodbye!\n", 0⟩) ∧
    (∀ earlier line text, request? line = some (.expression text) →
      (∃ v, ((interpreter earlier).step (.evaluate text .global none)).1 = .value v ∧
        output earlier line = v.print ++ "\n") ∨
      ∃ e, ((interpreter earlier).step (.evaluate text .global none)).1 = .failure e ∧
        output earlier line = "Error: " ++ e.message ++ "\n") ∧
    (∀ (reader : LineReader) (head : List UInt8) (ls : List (List UInt8)),
      HasLines (head ++ [10]) ls → (∀ line ∈ ls, reader.HandsOver line) →
      (∃ line ∈ ls, ends line = true) →
      ∀ tail, run reader (head ++ 10 :: tail) = run reader (head ++ [10])) ∧
    ∀ before line after, isIdle line = true →
      account (before ++ after) =
        { account (before ++ line :: after) with
          outputs := (account (before ++ line :: after)).outputs.eraseIdx before.length } := by
  refine ⟨fun input => ?_, ?_, fun earlier line text hrequest => ?_, ?_, ?_⟩
  · exact ⟨splitLines input, hasLines_iff.2 rfl, fun ls h => (hasLines_iff.1 h).symm⟩
  · intro reader input ls hlines h
    obtain rfl := hasLines_iff.1 hlines
    rw [← greeting_eq, ← farewell_eq]
    exact run_eq h
  · have houtput : output earlier line =
        shown ((interpreter earlier).step (.evaluate text .global none)).1 := by
      rw [output, hrequest]
    rcases evaluation_answer earlier text with ⟨v, hv⟩ | ⟨e, he⟩
    · exact .inl ⟨v, hv, by rw [houtput, hv, shown, lines_singleton]⟩
    · exact .inr ⟨e, he, by rw [houtput, he, shown, lines_singleton]⟩
  · intro reader head ls hlines h hends tail
    obtain rfl := hasLines_iff.1 hlines
    exact run_append h hends tail
  · exact fun before line after hidle => account_eraseIdx hidle before after

/-- A line reader with which nothing in a line can be taken back. -/
def readPlain : LineReader := fun line =>
  match String.fromUTF8? ⟨line.toArray⟩ with
  | some text => .line text
  | none => .failed

/-- An expression after the help, and one more after `:quit`. -/
theorem visit_transcript_faithful :
    let bytes (text : String) : List UInt8 := text.toUTF8.data.toList
    run readPlain (bytes ":help\n(+ 1 2) ; three\r\n:quit" ++ 10 :: bytes "(set! x 3)\n") =
        ⟨"Scheme Interpreter\n" ++ "Enter S-expressions like: (+ 1 2)\n" ++
            "Type :help for more commands, or Ctrl+C to exit.\n" ++ "\n" ++
            (help ++ "3\n") ++ "Goodbye!\n", 0⟩ ∧
      (account [bytes "(+ 1 2) ; three", bytes ":quit"]).outputs = ["3\n"] := by
  intro bytes
  obtain ⟨-, hfaithful, -, htail, hidle⟩ := transcript_faithful
  let ls := [bytes ":help", bytes "(+ 1 2) ; three", bytes ":quit"]
  have hlines : HasLines (bytes ":help\n(+ 1 2) ; three\r\n:quit" ++ [10]) ls :=
    hasLines_iff.2 (by decide +kernel)
  have hover : ∀ line ∈ ls, readPlain.HandsOver line := fun _ _ => rfl
  have hends : ∃ line ∈ ls, ends line = true := by decide +kernel
  have haccount : account ls = ⟨[help, "3\n"], false⟩ := by decide +kernel
  constructor
  · rw [htail readPlain _ _ hlines hover hends, hfaithful readPlain _ _ hlines hover, haccount]
    decide +kernel
  · have hshorter := hidle [] (bytes ":help") [bytes "(+ 1 2) ; three", bytes ":quit"]
      (by decide +kernel)
    rw [List.nil_append, List.nil_append] at hshorter
    rw [hshorter, haccount]
    rfl

end Repl
end StrictScheme
