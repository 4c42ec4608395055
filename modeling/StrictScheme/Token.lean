/-
# Tokens

A source text is a sequence of tokens: the two parentheses, and atoms, which are
the longest runs of characters that are neither blank nor a parenthesis. With
comments on, comments separate tokens too, and a broken comment is a token of its
own: the last one, since nothing can be made of what follows.

The text is scanned from its end. A character of an atom joins the atom that
starts right after it, and any other character closes that atom off. So the scan
of a text is the scan of its first part continued from the scan of its second
part, wherever it is cut.
-/

import StrictScheme.Comment
import StrictScheme.Text.Blank

namespace StrictScheme

/-- A unit of source text. -/
inductive Token where
  | opening
  | closing
  | atom (text : String)
  /-- A comment that runs into a bare carriage return, with all the text from it on. -/
  | brokenComment (text : String)
deriving DecidableEq, Repr

/-- How much of a broken comment is shown. -/
def Token.shownLength : Nat := 10

/-- The text of a token, as far as an error message shows it. -/
def Token.print : Token → String
  | .opening => "("
  | .closing => ")"
  | .atom text => text
  | .brokenComment text => String.ofList (text.toList.take shownLength)

/-- A token and the position of its first character. -/
structure Lexeme where
  position : Nat
  token : Token
deriving DecidableEq, Repr

namespace Lexeme

/-- Whether a character can be part of an atom. -/
def isAtomChar (c : Char) : Bool :=
  !Text.isBlank c && c != '(' && c != ')'

/-- The scan of the end of a text: the run of atom characters it starts with, and the tokens
after that run. -/
structure Suffix where
  word : List Char := []
  lexemes : List Lexeme := []
deriving DecidableEq, Repr

/-- The tokens of the end of a text that starts at `position`. -/
def Suffix.close (position : Nat) (suffix : Suffix) : List Lexeme :=
  match suffix.word with
  | [] => suffix.lexemes
  | word => ⟨position, .atom (String.ofList word)⟩ :: suffix.lexemes

/-- Puts the character at `position` in front of a scanned end of text. -/
def Suffix.cons (c : Char) (position : Nat) (suffix : Suffix) : Suffix :=
  if isAtomChar c then { suffix with word := c :: suffix.word }
  else
    let following := suffix.close (position + 1)
    if c = '(' then { lexemes := ⟨position, .opening⟩ :: following }
    else if c = ')' then { lexemes := ⟨position, .closing⟩ :: following }
    else { lexemes := following }

/-- The scan of a text whose first character stands at `position`. -/
def Suffix.scan (position : Nat) : List Char → Suffix
  | [] => {}
  | c :: rest => (Suffix.scan (position + 1) rest).cons c position

/-- The tokens of a text in which a semicolon is a character like any other. -/
def scanPlain (text : List Char) : List Lexeme :=
  (Suffix.scan 0 text).close 0

/-- The tokens of a text, with or without comments. -/
def scan (comments : Bool) (text : List Char) : List Lexeme :=
  if comments then
    let blanked := Comment.blank text
    scanPlain blanked.text ++
      match blanked.broken with
      | some rest => [⟨blanked.text.length, .brokenComment (String.ofList rest)⟩]
      | none => []
  else scanPlain text

end Lexeme

end StrictScheme
