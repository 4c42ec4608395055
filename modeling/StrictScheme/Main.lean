/-
# The program

Runs the read–eval–print loop on standard input and output. Input is taken as it
comes, and complete lines are answered at once.
-/

import StrictScheme.Repl

namespace StrictScheme

/-- How many bytes are asked for at a time. -/
def chunkSize : USize := 4096

/-- Answers lines as they come in; `rest` is the beginning of an unfinished line. -/
partial def serve (input output : IO.FS.Stream) (session : Session) (rest : List UInt8) :
    IO UInt32 := do
  let chunk ← input.read chunkSize
  let atEnd := chunk.isEmpty
  let (complete, unfinished) := Repl.cutLines [] (rest ++ chunk.toList)
  let complete := complete.map Repl.dropReturn
  let pending := if atEnd then complete ++ Repl.lastLine unfinished else complete
  match Repl.turns Repl.readTyped session pending with
  | .stop text exitCode =>
    output.putStr text
    return exitCode
  | .goOn text session =>
    output.putStr text
    if atEnd then
      output.putStr Repl.farewell
      return 0
    output.flush
    serve input output session unfinished

end StrictScheme

open StrictScheme in
/-- Greets and serves until the input ends or a line stops the loop. -/
def main : IO UInt32 := do
  let output ← IO.getStdout
  output.putStr Repl.greeting
  output.flush
  serve (← IO.getStdin) output Repl.start []
