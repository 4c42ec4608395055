/-
# Lines of the loop

An input is cut into its lines (`Repl.HasLines`), and a line asks for something once it is
trimmed: it is one of the commands or an expression, or there is nothing in it
(`Repl.request?`).  A line that is no text, or that asks to leave, ends a run.

The loop gets to see only what the line reader makes of a line.  What is said of whole runs
assumes that the line reader hands the lines over unchanged (`Repl.LineReader.HandsOver`).
-/

import Mathlib.Data.List.Basic
import StrictScheme.Repl.Loop

namespace StrictScheme

namespace Repl

variable {ls : List (List UInt8)} {line : List UInt8} {reader : LineReader}

/-! ### The lines of an input -/

/-- **The lines of an input**: a line feed ends each of them, alone or after a carriage return, and
is no part of it.  The last one may do without if there is anything in it. -/
inductive HasLines : List UInt8 → List (List UInt8) → Prop
  | none : HasLines [] []
  | unended {line : List UInt8} : line ≠ [] → 10 ∉ line → HasLines line [line]
  | ended {line rest : List UInt8} {ls : List (List UInt8)} : 10 ∉ line →
      line.getLast? ≠ some 13 → HasLines rest ls → HasLines (line ++ 10 :: rest) (line :: ls)
  | returned {line rest : List UInt8} {ls : List (List UInt8)} : 10 ∉ line →
      HasLines rest ls → HasLines (line ++ 13 :: 10 :: rest) (line :: ls)

/-- An input is worked off line by line. -/
theorem input_induction {motive : List UInt8 → Prop}
    (unended : ∀ line, 10 ∉ line → motive line)
    (ended : ∀ line rest, 10 ∉ line → motive rest → motive (line ++ 10 :: rest))
    (input : List UInt8) : motive input := by
  by_cases hfeed : 10 ∈ input
  · obtain ⟨line, rest, hinput, hline⟩ := List.eq_append_cons_of_mem hfeed
    have hshorter : rest.length < input.length := by
      rw [hinput, List.length_append, List.length_cons]
      omega
    exact hinput ▸ ended line rest hline (input_induction unended ended rest)
  · exact unended input hfeed
termination_by input.length

/-- A line is gathered up to where it ends. -/
theorem cutLines_append (hline : 10 ∉ line) (before rest : List UInt8) :
    cutLines before (line ++ rest) = cutLines (line.reverse ++ before) rest := by
  induction line generalizing before with
  | nil => rfl
  | cons byte line ih =>
    obtain ⟨hbyte, hline⟩ := not_or.1 (mt List.mem_cons.2 hline)
    rw [List.cons_append, cutLines, if_neg (Ne.symm hbyte), ih hline]
    simp

/-- Without a line feed there is one line at most. -/
theorem splitLines_unended (hline : 10 ∉ line) : splitLines line = lastLine line := by
  have hcut := cutLines_append hline [] []
  simp only [List.append_nil] at hcut
  simp [splitLines, hcut, cutLines]

/-- A line feed ends a line, and the carriage return before it goes too. -/
theorem splitLines_ended (hline : 10 ∉ line) (rest : List UInt8) :
    splitLines (line ++ 10 :: rest) = dropReturn line :: splitLines rest := by
  have hcut := cutLines_append hline [] (10 :: rest)
  rw [cutLines, if_pos rfl] at hcut
  simp [splitLines, hcut]

/-- A line without a carriage return at its end stays. -/
theorem dropReturn_of_ne (h : line.getLast? ≠ some 13) : dropReturn line = line :=
  if_neg h

/-- One carriage return is dropped. -/
theorem dropReturn_append (line : List UInt8) : dropReturn (line ++ [13]) = line := by
  simp [dropReturn]

/-- **An input is cut into its lines.** -/
theorem hasLines_iff {input : List UInt8} : HasLines input ls ↔ splitLines input = ls := by
  constructor
  · intro h
    induction h with
    | none => rfl
    | unended hne hline => rw [splitLines_unended hline, lastLine, if_neg hne]
    | ended hline hreturn _ ih => rw [splitLines_ended hline, dropReturn_of_ne hreturn, ih]
    | @returned line rest ls hline _ ih =>
      have hwhole : 10 ∉ line ++ [13] := by simp [hline]
      have hends := splitLines_ended hwhole rest
      rwa [List.append_assoc, List.singleton_append, dropReturn_append, ih] at hends
  · rintro rfl
    induction input using input_induction with
    | unended line hline =>
      rw [splitLines_unended hline, lastLine]
      split
      · next hempty => exact hempty ▸ .none
      · next hne => exact .unended hne hline
    | ended line rest hline ih =>
      rw [splitLines_ended hline]
      by_cases hreturn : line.getLast? = some 13
      · obtain ⟨before, rfl⟩ := List.getLast?_eq_some_iff.1 hreturn
        rw [dropReturn_append, List.append_assoc]
        exact .returned (fun hmem => hline (List.mem_append_left _ hmem)) ih
      · rw [dropReturn_of_ne hreturn]
        exact .ended hline hreturn ih

/-- After a line feed the lines start anew. -/
theorem splitLines_append (head tail : List UInt8) :
    splitLines (head ++ 10 :: tail) = splitLines (head ++ [10]) ++ splitLines tail := by
  induction head using input_induction with
  | unended line hline =>
    rw [splitLines_ended hline, splitLines_ended hline]
    rfl
  | ended line rest hline ih =>
    rw [List.append_assoc, List.append_assoc, List.cons_append, List.cons_append,
      splitLines_ended hline, splitLines_ended hline, ih, List.cons_append]

/-! ### What lines ask for -/

/-- What a line asks for. -/
inductive Request where
  | nothing
  | help
  | listing
  | leave
  | expression (text : String)
deriving DecidableEq, Repr

/-- What a trimmed line asks for. -/
def Request.ofText : String → Request
  | "" => .nothing
  | ":help" => .help
  | ":env" => .listing
  | ":quit" | ":exit" => .leave
  | text => .expression text

/-- What a line asks for once the blanks at both ends are off, if it is a text at all. -/
def request? (line : List UInt8) : Option Request :=
  (String.fromUTF8? ⟨line.toArray⟩).map fun text => .ofText (Text.trim text)

/-- Whether a line ends the run: it is no text, or asks to leave. -/
def ends (line : List UInt8) : Bool :=
  match request? line with
  | none | some .leave => true
  | some _ => false

/-- A line ends the run just when it is no text or asks to leave. -/
theorem ends_iff : ends line = true ↔ request? line = none ∨ request? line = some .leave := by
  unfold ends
  cases request? line with
  | none => simp
  | some request => cases request <;> simp

/-- **The line reader hands a line over unchanged**: it comes back with the text of the line, and it
fails only if the line is no text. -/
def LineReader.HandsOver (reader : LineReader) (line : List UInt8) : Prop :=
  reader line = match String.fromUTF8? ⟨line.toArray⟩ with
    | some text => .line text
    | none => .failed

end Repl
end StrictScheme
