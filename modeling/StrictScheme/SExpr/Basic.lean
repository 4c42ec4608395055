/-
# Symbolic expressions

A program is a tree: an atom is one token, kept letter by letter, and a list is a
sequence of trees, possibly empty. What a token stands for (a truth value, a
number, a name) is decided when it is evaluated, so a tree can hold any text at
all as an atom, also one that no source text could produce.

The written form of a list puts one blank between neighbours and none beside a
parenthesis.
-/

namespace StrictScheme

/-- A tree of tokens. -/
inductive SExpr where
  | atom (token : String)
  | list (elements : List SExpr)
deriving Repr, Inhabited

namespace SExpr

/-! ### Equality -/

mutual

/-- Two trees are equal when they have the same shape and the same tokens. -/
def decideEq : (a b : SExpr) → Decidable (a = b)
  | .atom s, .atom t =>
    if h : s = t then .isTrue (h ▸ rfl) else .isFalse fun e => h (SExpr.atom.inj e)
  | .atom _, .list _ => .isFalse nofun
  | .list _, .atom _ => .isFalse nofun
  | .list as, .list bs =>
    match decideEqAll as bs with
    | .isTrue h => .isTrue (h ▸ rfl)
    | .isFalse h => .isFalse fun e => h (SExpr.list.inj e)

/-- Equality of sequences of trees, element by element. -/
def decideEqAll : (as bs : List SExpr) → Decidable (as = bs)
  | [], [] => .isTrue rfl
  | [], _ :: _ => .isFalse nofun
  | _ :: _, [] => .isFalse nofun
  | a :: as, b :: bs =>
    match decideEq a b, decideEqAll as bs with
    | .isTrue h, .isTrue hs => .isTrue (h ▸ hs ▸ rfl)
    | .isFalse h, _ => .isFalse fun e => h (List.cons.inj e).1
    | _, .isFalse hs => .isFalse fun e => hs (List.cons.inj e).2

end

instance : DecidableEq SExpr := decideEq

/-! ### Views -/

/-- The token of an atom. -/
def token? : SExpr → Option String
  | .atom token => some token
  | .list _ => none

/-- The number of elements of a list. -/
def size? : SExpr → Option Nat
  | .atom _ => none
  | .list elements => some elements.length

/-! ### Written form -/

mutual

/-- The written form of a tree. -/
def print : SExpr → String
  | .atom token => token
  | .list [] => "()"
  | .list (first :: rest) => "(" ++ print first ++ printRest rest ++ ")"

/-- The elements after the first one, each with the blank before it. -/
def printRest : List SExpr → String
  | [] => ""
  | next :: rest => " " ++ print next ++ printRest rest

end

end SExpr

end StrictScheme
