/-
# Typed lines

A line of input can hold backspace characters, each of which takes back what was
typed last. What it takes back is one grapheme cluster, so that an accent goes with
its letter; with nothing left to take back it does nothing.

The length of each cluster is remembered as one byte, and this many bytes are taken
back. So a cluster of up to 255 bytes goes as a whole, and a longer one in part: its
length counts modulo 256. If that would leave a part of a character, the line cannot
be edited.
-/

import StrictScheme.Text.Bytes
import StrictScheme.Text.Grapheme

namespace StrictScheme
namespace Text

/-- The character that takes back what was typed last. -/
def backspace : Char := '\x08'

/-- A line as far as it has been typed. -/
structure TypedLine where
  /-- The characters that stand, the latest first. -/
  kept : List Char := []
  /-- The lengths of the clusters that can be taken back, the latest first. -/
  lengths : List UInt8 := []
deriving DecidableEq, Repr

namespace TypedLine

/-- Types one cluster. -/
def type (line : TypedLine) (cluster : List Char) : Option TypedLine :=
  if cluster = [backspace] then
    match line.lengths with
    | [] => some line
    | length :: earlier =>
      (dropBytes? length.toNat line.kept).map fun kept => ⟨kept, earlier⟩
  else
    some ⟨cluster.reverse ++ line.kept, (byteLength cluster).toUInt8 :: line.lengths⟩

/-- The text that a line stands for. -/
def text (line : TypedLine) : String :=
  String.ofList line.kept.reverse

end TypedLine

/-- What is left of a line when each backspace has done its work. -/
def edit? (line : String) : Option String :=
  ((clusters line.toList).foldlM TypedLine.type {}).map TypedLine.text

end Text
end StrictScheme
