/-
# Excerpts

An error message shows the neighbourhood of the character it is about: at most
twenty characters before it, and a hundred in all. A mark `[...]` stands where
text was left out. The excerpt goes on one line, so a line feed is shown as the
two characters `\n`, and a carriage return is dropped.
-/

import StrictScheme.Text.Bytes

namespace StrictScheme
namespace Text

/-- How many characters before the one in question an excerpt shows. -/
def excerptLead : Nat := 20

/-- How many characters of the text an excerpt shows in all. -/
def excerptLength : Nat := 100

/-- The mark for text that was left out. -/
def omission : List Char := ['[', '.', '.', '.', ']']

/-- The part of a text around position `p`, with a mark on each side where text is missing. -/
def window (text : List Char) (p : Nat) : List Char :=
  let start := p - excerptLead
  let shown := (text.drop start).take excerptLength
  (if 0 < start then omission else []) ++ shown ++
    (if start + shown.length < text.length then omission else [])

/-- One character as it appears in an excerpt, on a single line. -/
def onOneLine : Char → List Char
  | '\n' => ['\\', 'n']
  | '\r' => []
  | c => [c]

/-- The excerpt of a text around the character at position `p`. -/
def excerpt (text : String) (p : Nat) : String :=
  String.ofList ((window text.toList p).flatMap onOneLine)

/-- The character position of a byte offset; an offset past the end or inside a character
counts as the start of the text. -/
def positionOfByte (text : String) (offset : Nat) : Nat :=
  match dropBytes? offset text.toList with
  | some rest => text.length - rest.length
  | none => 0

end Text
end StrictScheme
