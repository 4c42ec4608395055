/-
# Grapheme clusters

A text falls into grapheme clusters, the units that a reader takes for characters.
Two neighbours belong to one cluster in these cases, and there is a border between
all others.

| before | after |
| --- | --- |
| carriage return | line feed |
| leading consonant | leading consonant, vowel, syllable |
| vowel, open syllable | vowel, trailing consonant |
| trailing consonant, closed syllable | trailing consonant |
| anything | a mark of any kind |
| a sign for the next character | anything |
| consonants tied by a linker | consonant |
| a pictograph with its marks and a joiner | pictograph |
| the first half of a flag | the second half |

Line ends and other control characters take part in none but the first case.
-/

import StrictScheme.Text.GraphemeBreak

namespace StrictScheme
namespace Text

/-- What the end of a cluster can be tied to, beyond what its last character decides. -/
inductive Tie where
  | none
  /-- A consonant and marks. -/
  | consonant
  /-- A consonant and marks, with a linker among them. -/
  | linkedConsonant
  /-- A pictograph and marks. -/
  | pictograph
  /-- A pictograph and marks, and then a joiner. -/
  | joinedPictograph
  /-- One half of a flag. -/
  | halfFlag
deriving DecidableEq, Repr

/-- The tie after one more character. -/
def Tie.after (tie : Tie) (next : BreakClass) : Tie :=
  match next, tie with
  | .consonant, _ => .consonant
  | .pictographic, _ => .pictograph
  | .regional, .halfFlag => .none
  | .regional, _ => .halfFlag
  | .linker, .consonant | .linker, .linkedConsonant => .linkedConsonant
  | .extend, .consonant | .joiner, .consonant => .consonant
  | .extend, .linkedConsonant | .joiner, .linkedConsonant => .linkedConsonant
  | .extend, .pictograph | .linker, .pictograph | .nonJoiner, .pictograph => .pictograph
  | .joiner, .pictograph => .joinedPictograph
  | _, _ => .none

/-- The end of a cluster: the class of its last character, and what it can be tied to. -/
structure ClusterEnd where
  last : BreakClass
  tie : Tie
deriving DecidableEq, Repr

namespace ClusterEnd

/-- The end of a cluster of one character. -/
def start (first : BreakClass) : ClusterEnd :=
  ⟨first, Tie.none.after first⟩

/-- The end of a cluster after one more character. -/
def after (e : ClusterEnd) (next : BreakClass) : ClusterEnd :=
  ⟨next, e.tie.after next⟩

/-- Whether a character belongs to the cluster that it follows. -/
def joins (e : ClusterEnd) (next : BreakClass) : Bool :=
  match e.last, next with
  | .carriageReturn, .lineFeed => true
  | .carriageReturn, _ | .lineFeed, _ | .control, _ => false
  | _, .carriageReturn | _, .lineFeed | _, .control => false
  | .leading, .leading | .leading, .vowel => true
  | .leading, .openSyllable | .leading, .closedSyllable => true
  | .vowel, .vowel | .vowel, .trailing => true
  | .openSyllable, .vowel | .openSyllable, .trailing => true
  | .trailing, .trailing | .closedSyllable, .trailing => true
  | _, .extend | _, .linker | _, .nonJoiner | _, .joiner | _, .spacingMark => true
  | .prepend, _ => true
  | _, .consonant => e.tie == .linkedConsonant
  | _, .pictographic => e.tie == .joinedPictograph
  | _, .regional => e.tie == .halfFlag
  | _, _ => false

end ClusterEnd

/-- The clusters of a text, after a cluster with end `e` that is not complete; its characters so
far are in `cluster`, the latest first. -/
def clustersFrom (e : ClusterEnd) (cluster : List Char) : List Char → List (List Char)
  | [] => [cluster.reverse]
  | c :: rest =>
    let next := breakClass c
    if e.joins next then clustersFrom (e.after next) (c :: cluster) rest
    else cluster.reverse :: clustersFrom (.start next) [c] rest

/-- The grapheme clusters of a text. -/
def clusters : List Char → List (List Char)
  | [] => []
  | c :: rest => clustersFrom (.start (breakClass c)) [c] rest

end Text
end StrictScheme
