/-
# The read–eval–print loop

The loop greets, asks a line reader for one line after the other, and answers each
with some text. The blanks at both ends of a line go. A blank line is passed over, a
few words that start with a colon are commands, and any other line is evaluated in one
session, with comments on.

The loop ends at a command, when the line reader reports the end of the input, or when
it fails. Only the last counts as a failure, and nothing more is printed then.

What the line reader makes of a line is left open here: everything below is for any
line reader.
-/

import StrictScheme.Session.Basic
import StrictScheme.Store.Listing
import StrictScheme.Text.Blank

namespace StrictScheme
namespace Repl

/-- Some lines of output. -/
def lines (texts : List String) : String :=
  String.join (texts.map (· ++ "\n"))

/-- What is printed at the start. -/
def greeting : String :=
  lines
    ["Scheme Interpreter",
     "Enter S-expressions like: (+ 1 2)",
     "Type :help for more commands, or Ctrl+C to exit.",
     ""]

/-- What is printed at the end. -/
def farewell : String :=
  lines ["Goodbye!"]

/-- The answer to `:help`. -/
def help : String :=
  lines
    ["Commands:",
     "  :help      - Show this help message",
     "  :env       - Show current environment bindings",
     "  :quit      - Exit the interpreter",
     "  :exit      - Exit the interpreter",
     "  Ctrl+C     - Exit the interpreter",
     "",
     "Language:",
     "  Numbers: 42, -5 (64-bit integers)",
     "  Booleans: #t, #f",
     "  Arithmetic: +, -, *, /",
     "  Comparison: =, <, >",
     "  Logic: and, or, not",
     "  Definitions: (define x 5), (define (square n) (* n n))",
     "  Mutation: (set! x 6)",
     "  Comments: ; to end of line",
     ""]

/-! ### The listing -/

/-- How many builtins stand on one line of the listing. -/
def columns : Nat := 4

/-- The width of a column of builtins. -/
def columnWidth : Nat := 15

/-- A name in its column. -/
def cell (name : String) : String :=
  "  " ++ name ++ String.ofList (List.replicate (columnWidth - name.length) ' ')

/-- A sequence cut into rows of `width` items; the last row may be shorter. -/
def rows {α : Type} (width : Nat) : (row : List α) → List α → List (List α)
  | [], [] => []
  | row, [] => [row.reverse]
  | row, item :: rest =>
    if row.length + 1 < width then rows width (item :: row) rest
    else (item :: row).reverse :: rows width [] rest

/-- The answer to `:env`. -/
def listing (bindings : List Binding) : String :=
  let (builtins, others) := bindings.partition Binding.isBuiltin
  if bindings.isEmpty then lines ["Environment is empty."]
  else
    lines ["Environment bindings (" ++ toString bindings.length ++ " total):", ""] ++
    (if builtins.isEmpty then ""
      else lines <|
        ["Built-in functions (" ++ toString builtins.length ++ "):"] ++
        (rows columns [] builtins).map (fun row => String.join (row.map (cell ·.name))) ++
        [""]) ++
    (if others.isEmpty then ""
      else lines <|
        ["User-defined values (" ++ toString others.length ++ "):"] ++
        others.map fun b => "  " ++ b.print)

/-! ### The line reader -/

/-- What the line reader comes back with when it is asked for a line. -/
inductive Reading where
  /-- The text of the line. -/
  | line (text : String)
  /-- There are no more lines, or the user wants to leave. -/
  | ended
  /-- The line cannot be read. -/
  | failed
  /-- The line reader brings the program down. -/
  | aborted (exitCode : UInt32)
deriving DecidableEq, Repr

/-- What is made of a line of the input, given as the bytes before its end. -/
abbrev LineReader := List UInt8 → Reading

/-! ### The loop -/

/-- What the loop does with a line. -/
inductive Turn where
  | goOn (output : String) (session : Session)
  | stop (output : String) (exitCode : UInt32)

/-- The same turn with more output in front. -/
def Turn.after (earlier : String) : Turn → Turn
  | .goOn output session => .goOn (earlier ++ output) session
  | .stop output exitCode => .stop (earlier ++ output) exitCode

/-- The exit code when a line cannot be read. -/
def failure : UInt32 := 1

/-- A session of the loop in which nothing has been entered yet. -/
def start : Session :=
  Session.new { comments := true }

/-- Evaluates an expression and shows its value or what went wrong. -/
def evaluateLine (session : Session) (line : String) : String × Session :=
  match session.global with
  | none => ("", session)
  | some global =>
    let (result, session) := session.evaluateText session.config global line
    let shown := match result with
      | .ok v => v.print
      | .error e => "Error: " ++ e.message
    (lines [shown], session.settle)

/-- Answers the text of a line. -/
def answer (session : Session) (text : String) : Turn :=
  match Text.trim text with
  | "" => .goOn "" session
  | ":help" => .goOn help session
  | ":env" => .goOn (listing ((session.global.map session.store.listing).getD [])) session
  | ":quit" | ":exit" => .stop farewell 0
  | line =>
    let (output, session) := evaluateLine session line
    .goOn output session

/-- Answers what the line reader comes back with. -/
def turn (session : Session) : Reading → Turn
  | .line text => answer session text
  | .ended => .stop farewell 0
  | .failed => .stop "" failure
  | .aborted exitCode => .stop "" exitCode

/-- What the loop does with several lines: it goes on until one stops it. -/
def turns (reader : LineReader) (session : Session) : List (List UInt8) → Turn
  | [] => .goOn "" session
  | line :: rest =>
    match turn session (reader line) with
    | .stop output exitCode => .stop output exitCode
    | .goOn output session => (turns reader session rest).after output

/-! ### Lines -/

/-- Cuts an input at its line feeds: the complete lines, and what follows the last one. The
bytes in `line`, the latest first, stand before the input. -/
def cutLines : (line : List UInt8) → List UInt8 → List (List UInt8) × List UInt8
  | line, [] => ([], line.reverse)
  | line, byte :: rest =>
    if byte = 10 then
      let (complete, last) := cutLines [] rest
      (line.reverse :: complete, last)
    else cutLines (byte :: line) rest

/-- A line without the carriage return that belongs to its end. -/
def dropReturn (line : List UInt8) : List UInt8 :=
  if line.getLast? = some 13 then line.dropLast else line

/-- What is left at the end of an input is a line if there is anything. -/
def lastLine (rest : List UInt8) : List (List UInt8) :=
  if rest = [] then [] else [rest]

/-- The lines of a whole input. -/
def splitLines (input : List UInt8) : List (List UInt8) :=
  let (complete, last) := cutLines [] input
  complete.map dropReturn ++ lastLine last

/-! ### A whole run -/

/-- Everything a run of the loop prints, and its exit code. -/
structure Transcript where
  output : String
  exitCode : UInt32
deriving DecidableEq, Repr

/-- A run on a whole input: a greeting, the answers, and a farewell unless a line stopped it. -/
def run (reader : LineReader) (input : List UInt8) : Transcript :=
  match turns reader start (splitLines input) with
  | .goOn output _ => ⟨greeting ++ output ++ farewell, 0⟩
  | .stop output exitCode => ⟨greeting ++ output, exitCode⟩

end Repl
end StrictScheme
