/-
# Texts in bytes

A text takes one to four bytes for each character in UTF-8. Counting in bytes can
lead to a place between two characters or inside one.
-/

namespace StrictScheme
namespace Text

/-- The number of bytes that a sequence of characters takes. -/
def byteLength : List Char → Nat
  | [] => 0
  | c :: cs => c.utf8Size + byteLength cs

/-- The text without its first `count` bytes, when these are whole characters. -/
def dropBytes? : (count : Nat) → List Char → Option (List Char)
  | 0, cs => some cs
  | _ + 1, [] => none
  | count + 1, c :: cs =>
    if c.utf8Size ≤ count + 1 then dropBytes? (count + 1 - c.utf8Size) cs else none

end Text
end StrictScheme
