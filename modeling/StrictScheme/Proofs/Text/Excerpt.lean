/-
# What an excerpt shows

An excerpt cuts a text around a position into four parts: what is left out in front, what
is shown before the position, what is shown from it on, and what is left out behind
(`Cut`).  Two numbers fix the sizes of the parts: how much is shown before the position,
and how much in all.  An error shows the two middle parts, with a mark for each of the other
two that is not empty (`Cut.window_eq`).

A cut shows the character at its position (`Cut.head?_right`).  Put on one line it has no
line break left in it, and what is shown grows to twice its length at most; the marks stay
as they are (`Cut.length_onOneLine_le`).

A position may be given in bytes.  The bytes of the text behind a position lead back to
it, since they start with a whole character (`positionOfByte_eq`).
-/

import StrictScheme.Text.Excerpt

namespace StrictScheme
namespace Text

variable {c : Char} {lead length p : Nat} {text front rest : List Char}

/-! ### Places in bytes -/

/-- Bytes are counted as in the text that the characters spell. -/
theorem byteLength_eq (text : List Char) :
    byteLength text = (String.ofList text).utf8ByteSize := by
  induction text with
  | nil => rfl
  | cons c rest ih =>
    rw [String.ofList_cons, String.utf8ByteSize_append, String.utf8ByteSize_singleton, ← ih,
      byteLength]

/-- The bytes of whole characters are cut off. -/
theorem dropBytes?_append (front rest : List Char) :
    dropBytes? (byteLength front) (front ++ rest) = some rest := by
  induction front with
  | nil => cases rest <;> rfl
  | cons c front ih =>
    have hpos : byteLength (c :: front) ≠ 0 := by
      have hc := c.utf8Size_pos
      rw [byteLength]
      omega
    obtain ⟨count, hcount⟩ := Nat.exists_eq_succ_of_ne_zero hpos
    have hfits : c.utf8Size ≤ count + 1 := by
      rw [← Nat.succ_eq_add_one, ← hcount, byteLength]
      exact Nat.le_add_right ..
    have hleft : count + 1 - c.utf8Size = byteLength front := by
      rw [← Nat.succ_eq_add_one, ← hcount, byteLength, Nat.add_sub_cancel_left]
    rw [hcount, List.cons_append, dropBytes?, if_pos hfits, hleft, ih]

/-- **A position is found again** from the bytes that stand behind it. -/
theorem positionOfByte_eq {text : String} (h : text.toList = front ++ rest) :
    positionOfByte text (text.utf8ByteSize - (String.ofList rest).utf8ByteSize) =
      front.length := by
  have htext : text = String.ofList front ++ String.ofList rest := by
    rw [← String.ofList_append, ← h, String.ofList_toList]
  have hbytes : text.utf8ByteSize - (String.ofList rest).utf8ByteSize = byteLength front := by
    rw [htext, String.utf8ByteSize_append, byteLength_eq, Nat.add_sub_cancel]
  have hlength : text.length = front.length + rest.length := by
    rw [← String.length_toList, h, List.length_append]
  rw [positionOfByte, hbytes, h, dropBytes?_append]
  show text.length - rest.length = front.length
  omega

/-! ### Cuts -/

/-- **A text cut around position `p`**, to show at most `length` characters of it, `lead` of them
before `p` if there are as many. -/
structure Cut (lead length : Nat) (text : List Char) (p : Nat) where
  /-- What is left out in front. -/
  before : List Char
  /-- What is shown before the position. -/
  left : List Char
  /-- What is shown from the position on. -/
  right : List Char
  /-- What is left out behind. -/
  after : List Char
  parts : text = (before ++ left) ++ (right ++ after)
  position : (before ++ left).length = p
  left_length : left.length = min p lead
  fits : (left ++ right).length ≤ length
  /-- Text is left out behind only where no more of it fits. -/
  full : after ≠ [] → (left ++ right).length = length

namespace Cut

/-- What is shown, with a mark on each side where text is left out. -/
def print (cut : Cut lead length text p) : List Char :=
  (if lead < p then "[...]".toList else []) ++ (cut.left ++ cut.right) ++
    (if cut.after = [] then [] else "[...]".toList)

/-- The cut of a text behind its first part. -/
def behind (front rest : List Char) (h : lead ≤ length) :
    Cut lead length (front ++ rest) front.length where
  before := front.take (front.length - lead)
  left := front.drop (front.length - lead)
  right := rest.take (length - (front.drop (front.length - lead)).length)
  after := rest.drop (length - (front.drop (front.length - lead)).length)
  parts := by rw [List.take_append_drop, List.take_append_drop]
  position := by rw [List.take_append_drop]
  left_length := by
    rw [List.length_drop]
    omega
  fits := by
    simp only [List.length_append, List.length_take, List.length_drop]
    omega
  full := by
    intro hafter
    rw [ne_eq, List.drop_eq_nil_iff] at hafter
    simp only [List.length_append, List.length_take, List.length_drop] at hafter ⊢
    omega

/-- **A text can be cut at each of its positions.** -/
theorem nonempty (hlead : lead ≤ length) (hp : p ≤ text.length) :
    Nonempty (Cut lead length text p) := by
  have hcut := behind (text.take p) (text.drop p) hlead
  rw [List.take_append_drop, List.length_take, Nat.min_eq_left hp] at hcut
  exact ⟨hcut⟩

/-- The text from the position on. -/
theorem drop_eq (cut : Cut lead length text p) : text.drop p = cut.right ++ cut.after := by
  calc text.drop p
      = ((cut.before ++ cut.left) ++ (cut.right ++ cut.after)).drop
          (cut.before ++ cut.left).length := by rw [← cut.parts, cut.position]
    _ = cut.right ++ cut.after := List.drop_left

/-- **A cut shows the character at its position.** -/
theorem head?_right (cut : Cut lead length text p) (hlead : lead < length) :
    cut.right.head? = text[p]? := by
  rw [← List.head?_drop, cut.drop_eq]
  cases hright : cut.right with
  | cons c right => rfl
  | nil =>
    cases hafter : cut.after with
    | nil => rfl
    | cons c after =>
      -- there is room for `c`, since what stands before the position does not fill the excerpt
      have hfull := cut.full (by rw [hafter]; exact List.cons_ne_nil c after)
      have hleft := cut.left_length
      rw [hright, List.append_nil] at hfull
      omega

/-- The part that is shown starts behind what is left out in front. -/
theorem drop_length_before (cut : Cut lead length text p) :
    text.drop cut.before.length = (cut.left ++ cut.right) ++ cut.after := by
  calc text.drop cut.before.length
      = (cut.before ++ ((cut.left ++ cut.right) ++ cut.after)).drop cut.before.length := by
        rw [List.append_assoc cut.left, ← List.append_assoc cut.before, ← cut.parts]
    _ = (cut.left ++ cut.right) ++ cut.after := List.drop_left

/-- The part that is shown ends where no more of the text fits. -/
theorem take_shown (cut : Cut lead length text p) :
    ((cut.left ++ cut.right) ++ cut.after).take length = cut.left ++ cut.right := by
  have hafter : cut.after.take (length - (cut.left ++ cut.right).length) = [] := by
    by_cases hnone : cut.after = []
    · rw [hnone, List.take_nil]
    · rw [cut.full hnone, Nat.sub_self, List.take_zero]
  rw [List.take_append, List.take_of_length_le cut.fits, hafter, List.append_nil]

/-- **What an error shows is what a cut prints.** -/
theorem window_eq (cut : Cut excerptLead excerptLength text p) : window text p = cut.print := by
  have hbefore : p - excerptLead = cut.before.length := by
    have hposition := cut.position
    have hleft := cut.left_length
    rw [List.length_append] at hposition
    omega
  have hlength : text.length =
      cut.before.length + (cut.left ++ cut.right).length + cut.after.length := by
    have hparts := congrArg List.length cut.parts
    simp only [List.length_append] at hparts ⊢
    omega
  have hmissing : cut.before.length + (cut.left ++ cut.right).length < text.length ↔
      cut.after ≠ [] := by
    rw [hlength, ← List.length_pos_iff]
    omega
  have hstart : 0 < cut.before.length ↔ excerptLead < p := by
    rw [← hbefore, Nat.sub_pos_iff_lt]
  simp only [window, print, hbefore, cut.drop_length_before, cut.take_shown, hstart, hmissing,
    ne_eq, ite_not]
  rfl

end Cut

/-! ### One line -/

/-- **No line break is left** on one line. -/
theorem ne_of_mem_flatMap_onOneLine (hc : c ∈ text.flatMap onOneLine) : c ≠ '\n' ∧ c ≠ '\r' := by
  obtain ⟨d, -, hc⟩ := List.mem_flatMap.1 hc
  unfold onOneLine at hc
  split at hc
  · rcases List.mem_cons.1 hc with rfl | hc
    · decide
    · obtain rfl := List.mem_singleton.1 hc
      decide
  · exact absurd hc List.not_mem_nil
  · next hfeed hreturn =>
    obtain rfl := List.mem_singleton.1 hc
    exact ⟨hfeed, hreturn⟩

/-- A character takes two on one line at most. -/
theorem length_onOneLine_le (c : Char) : (onOneLine c).length ≤ 2 := by
  unfold onOneLine
  split <;> simp

/-- So a text takes twice its length at most. -/
theorem length_flatMap_onOneLine_le (text : List Char) :
    (text.flatMap onOneLine).length ≤ 2 * text.length := by
  induction text with
  | nil => exact Nat.le_refl 0
  | cons c rest ih =>
    have hc := length_onOneLine_le c
    rw [List.flatMap_cons, List.length_append, List.length_cons]
    omega

namespace Cut

/-- **An excerpt is a cut**, put on one line. -/
theorem toList_excerpt {text : String} (cut : Cut excerptLead excerptLength text.toList p) :
    (excerpt text p).toList = cut.print.flatMap onOneLine := by
  rw [excerpt, String.toList_ofList, cut.window_eq]

/-- **On one line**, what is shown takes two characters for each of its own at most, and the marks
take five each. -/
theorem length_onOneLine_le (cut : Cut lead length text p) :
    (cut.print.flatMap onOneLine).length ≤ 2 * length + 10 := by
  have hmark : ∀ mark ∈ ([[], "[...]".toList] : List (List Char)),
      (mark.flatMap onOneLine).length ≤ 5 := by decide
  have hfront := hmark (if lead < p then "[...]".toList else []) (by split <;> simp)
  have hback := hmark (if cut.after = [] then [] else "[...]".toList) (by split <;> simp)
  have hshown := length_flatMap_onOneLine_le (cut.left ++ cut.right)
  have hfits := cut.fits
  rw [print, List.flatMap_append, List.flatMap_append, List.length_append, List.length_append]
  omega

end Cut

end Text
end StrictScheme
