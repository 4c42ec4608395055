/-
# The loop with a line reader

The program runs the loop with a line reader that lets a typed line be edited: each
backspace takes back what was typed before it. A line that is not valid UTF-8 cannot
be read, and one that its backspaces break brings the program down.
-/

import StrictScheme.Repl.Loop
import StrictScheme.Text.TypedLine

namespace StrictScheme
namespace Repl

/-- The exit code after a line in which a backspace would leave a part of a character. -/
def brokenEdit : UInt32 := 101

/-- Reads a line that was typed with backspaces. -/
def readTyped : LineReader := fun line =>
  match (String.fromUTF8? ⟨line.toArray⟩).map Text.edit? with
  | none => .failed
  | some none => .aborted brokenEdit
  | some (some text) => .line text

/-- What the program prints on a whole input, and its exit code. -/
def transcript (input : List UInt8) : Transcript :=
  run readTyped input

end Repl
end StrictScheme
