/-
# Blank characters

The characters that separate tokens and that are trimmed from a line are those
with the property `White_Space` of the Unicode standard: twenty-five of them, in
ten ranges.

| range | characters |
| --- | --- |
| `0009`–`000D` | tabulation, line feed, vertical tab, form feed, carriage return |
| `0020` | space |
| `0085` | next line |
| `00A0` | no-break space |
| `1680` | ogham space mark |
| `2000`–`200A` | en quad … hair space |
| `2028`–`2029` | line and paragraph separator |
| `202F` | narrow no-break space |
| `205F` | medium mathematical space |
| `3000` | ideographic space |
-/

import StrictScheme.Text.Ranges

namespace StrictScheme
namespace Text

/-- The code points with the property `White_Space`. -/
def blankRanges : Ranges :=
  ⟨[(0x09, 0x0D), (0x20, 0x20), (0x85, 0x85), (0xA0, 0xA0), (0x1680, 0x1680),
    (0x2000, 0x200A), (0x2028, 0x2029), (0x202F, 0x202F), (0x205F, 0x205F), (0x3000, 0x3000)]⟩

/-- Whether a character separates tokens. -/
def isBlank (c : Char) : Bool :=
  blankRanges.contains c.toNat

/-- A text without the blanks at both ends. -/
def trim (text : String) : String :=
  let leading := text.toList.dropWhile isBlank
  String.ofList (leading.reverse.dropWhile isBlank).reverse

end Text
end StrictScheme
