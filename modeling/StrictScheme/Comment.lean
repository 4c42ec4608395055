/-
# Comments

A comment starts at a semicolon and goes up to the end of its line: a line feed,
a carriage return followed by a line feed, or the end of the text. A carriage
return in any other place ends no line, and a comment that meets one is broken.

A comment separates tokens as a blank does, so it is read by putting a space in
the place of each of its characters. Every other character keeps its position.
-/

namespace StrictScheme
namespace Comment

/-- Whether a character belongs to a line rather than to its end. -/
def isWithinLine (c : Char) : Bool :=
  c != '\n' && c != '\r'

/-- Whether the line goes on to a carriage return that no line feed follows. -/
def isBroken (line : List Char) : Bool :=
  match line.dropWhile isWithinLine with
  | '\r' :: '\n' :: _ => false
  | '\r' :: _ => true
  | _ => false

/-- A text up to its first broken comment, if it has one, with spaces for comments. -/
structure Blanked where
  text : List Char
  /-- What stands from the semicolon of the first broken comment on. -/
  broken : Option (List Char)
deriving DecidableEq, Repr

/-- A blanked text with one more character in front. -/
def Blanked.cons (c : Char) (rest : Blanked) : Blanked :=
  { rest with text := c :: rest.text }

/-- Puts spaces for comments, in a text whose first character may be inside one. -/
def blankFrom : (inside : Bool) → List Char → Blanked
  | _, [] => ⟨[], none⟩
  | true, c :: rest =>
    if isWithinLine c then (blankFrom true rest).cons ' ' else (blankFrom false rest).cons c
  | false, c :: rest =>
    if c = ';' then
      if isBroken rest then ⟨[], some (c :: rest)⟩ else (blankFrom true rest).cons ' '
    else (blankFrom false rest).cons c

/-- Puts spaces for the comments of a text. -/
def blank (text : List Char) : Blanked :=
  blankFrom false text

end Comment
end StrictScheme
