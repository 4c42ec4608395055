/-
# Typed lines without a backspace

The line reader of the program takes back what a backspace follows, one cluster at a time.
A line without a backspace it leaves alone (`Text.edit?_eq_self`), so that it hands the line
over unchanged, or fails if it is no text (`Repl.handsOver_readTyped`).
-/

import StrictScheme.Proofs.Repl.Lines
import StrictScheme.Repl

namespace StrictScheme

namespace Text

/-- Clusters are cut out of a text one after the other. -/
theorem flatten_clustersFrom (e : ClusterEnd) (cluster rest : List Char) :
    (clustersFrom e cluster rest).flatten = cluster.reverse ++ rest := by
  induction rest generalizing e cluster with
  | nil => simp [clustersFrom]
  | cons c rest ih =>
    simp only [clustersFrom]
    split <;> simp [ih]

/-- A text is made up of its clusters. -/
theorem flatten_clusters (cs : List Char) : (clusters cs).flatten = cs := by
  cases cs with
  | nil => rfl
  | cons c rest => exact flatten_clustersFrom ..

/-- Clusters that take nothing back are added to what stands. -/
theorem exists_foldlM_type {cs : List (List Char)} (h : ∀ cluster ∈ cs, cluster ≠ [backspace])
    (line : TypedLine) :
    ∃ typed, cs.foldlM TypedLine.type line = some typed ∧
      typed.kept = cs.flatten.reverse ++ line.kept := by
  induction cs generalizing line with
  | nil => exact ⟨line, rfl, rfl⟩
  | cons cluster rest ih =>
    obtain ⟨hcluster, hrest⟩ := List.forall_mem_cons.1 h
    obtain ⟨typed, htyped, hkept⟩ :=
      ih hrest ⟨cluster.reverse ++ line.kept, (byteLength cluster).toUInt8 :: line.lengths⟩
    refine ⟨typed, ?_, by simp [hkept]⟩
    rw [List.foldlM_cons, TypedLine.type, if_neg hcluster]
    exact htyped

/-- **A line without a backspace stands as it was typed.** -/
theorem edit?_eq_self {text : String} (h : backspace ∉ text.toList) : edit? text = some text := by
  have hclusters : ∀ cluster ∈ clusters text.toList, cluster ≠ [backspace] := by
    rintro cluster hmem rfl
    refine h ?_
    rw [← flatten_clusters text.toList]
    exact List.mem_flatten.2 ⟨_, hmem, List.mem_singleton_self _⟩
  obtain ⟨typed, htyped, hkept⟩ := exists_foldlM_type hclusters {}
  rw [flatten_clusters, List.append_nil] at hkept
  rw [edit?, htyped, Option.map_some, TypedLine.text, hkept, List.reverse_reverse,
    String.ofList_toList]

end Text

namespace Repl

/-- **A typed line without the byte of a backspace is handed over unchanged.** -/
theorem handsOver_readTyped {line : List UInt8} (h : 8 ∉ line) : readTyped.HandsOver line := by
  unfold LineReader.HandsOver readTyped
  cases htext : String.fromUTF8? ⟨line.toArray⟩ with
  | none => rfl
  | some text =>
    have hbytes : text.toByteArray = ⟨line.toArray⟩ := by
      unfold String.fromUTF8? at htext
      split at htext
      · cases htext
        rfl
      · cases htext
    have hencoded : text.toList.flatMap String.utf8EncodeChar = line := by
      have hdata := congrArg (·.data.toList) (String.utf8Encode_toList.trans hbytes)
      simpa [List.utf8Encode] using hdata
    have hnone : Text.backspace ∉ text.toList := by
      intro hmem
      refine h ?_
      rw [← hencoded]
      exact List.mem_flatMap.2 ⟨_, hmem, by decide⟩
    simp only [Option.map_some, Text.edit?_eq_self hnone]

end Repl
end StrictScheme
