/-
# The reader

Reading turns a text into the one tree that it writes, or finds the first token
that cannot be part of one. Tokens are taken one at a time; the lists that are
open so far stand on a stack, the innermost first, each with the elements it has.

The result is a whole tree or an error, never a part of a tree. Lists may be
nested up to `maxNesting` deep.
-/

import StrictScheme.Atom
import StrictScheme.Error
import StrictScheme.SExpr.Basic
import StrictScheme.Token

namespace StrictScheme

/-- How deep lists may be nested in a source text. -/
def maxNesting : Nat := 512

/-- A list whose closing parenthesis has not been met. -/
structure OpenList where
  /-- The position of its opening parenthesis. -/
  position : Nat
  /-- The elements so far, the latest first. -/
  elements : List SExpr := []
deriving DecidableEq, Repr

/-- What has been read so far. -/
structure Progress where
  /-- The open lists, the innermost first. -/
  opened : List OpenList := []
  /-- The complete expression, once there is one. -/
  result : Option SExpr := none
deriving DecidableEq, Repr

namespace Progress

/-- Adds a complete tree to the innermost open list; with none open, the expression is
complete. -/
def add (progress : Progress) (tree : SExpr) : Progress :=
  match progress.opened with
  | [] => { progress with result := some tree }
  | list :: outer =>
    { progress with opened := { list with elements := tree :: list.elements } :: outer }

/-- Takes the next token. A broken comment is refused wherever it stands, anything else after a
complete expression, and an atom if it only looks like a literal. -/
def take (text : String) (progress : Progress) (lexeme : Lexeme) :
    Except SyntaxError Progress :=
  let refuse (kind : SyntaxError.Kind) (message : String) : Except SyntaxError Progress :=
    .error (.locate kind message text lexeme.position (some lexeme.token.print))
  match lexeme.token, progress.result with
  | .brokenComment _, _ =>
    refuse .malformedAtom <| "Invalid syntax at position " ++
      toString (Text.byteLength (text.toList.take lexeme.position))
  | _, some _ => refuse .trailingContent "Unexpected input after complete expression"
  | .opening, none =>
    if maxNesting ≤ progress.opened.length then
      refuse .tooDeeplyNested <|
        "Expression too deeply nested (max depth: " ++ toString maxNesting ++ ")"
    else .ok { progress with opened := ⟨lexeme.position, []⟩ :: progress.opened }
  | .closing, none =>
    match progress.opened with
    | [] => refuse .unmatchedClose "Unmatched ')' with no open list"
    | list :: outer => .ok ({ progress with opened := outer }.add (.list list.elements.reverse))
  | .atom token, none =>
    match Atom.refusal? token with
    | some refusal => refuse .malformedAtom refusal.message
    | none => .ok (progress.add (.atom token))

/-- The expression at the end of the text: every list has to be closed by then. -/
def finish (text : String) (progress : Progress) : Except SyntaxError SExpr :=
  match progress.opened.getLast?, progress.result with
  | some outermost, _ =>
    .error <| .locate .unclosed
      ("Unexpected end of input: " ++ toString progress.opened.length ++ " unclosed '('")
      text outermost.position none
  | none, some tree => .ok tree
  | none, none =>
    .error { kind := .empty, message := "Empty input: expected an expression" }

end Progress

/-- Reads a text that holds exactly one expression. -/
def read (comments : Bool) (text : String) : Except SyntaxError SExpr := do
  let progress ← (Lexeme.scan comments text.toList).foldlM (Progress.take text) {}
  progress.finish text

end StrictScheme
