import CellReview.Proofs.Diff.Conquer
import CellReview.Proofs.Diff.Sides

/-!
# The difference of two texts loses and invents nothing

The matches of two texts are an alignment whichever way they are found, by the table or by a
tidy script.  So the lines of the difference are the lines of both texts, in order and numbered
from one, and either text can be put together again.

* `isAlignment_lineMatches` — the matches of two texts of any length;
* `Lossless` — a difference that keeps two lists of lines;
* `IsAlignment.lossless` — the list along any alignment does so;
* `compute_lossless` — **the difference keeps both texts**.
-/

namespace CellReview.Diff

open UnifiedDiff (compute)

/-! ## The matches of two texts -/

theorem isAlignment_restMatches (a b : Array String) :
    IsAlignment a.toList b.toList 0 0 (restMatches a b) := by
  rw [restMatches]
  split
  · exact .nil 0 0
  split
  · exact script_isAlignment a b
  · exact walk_isAlignment a b _ 0 0

/-- An alignment of what follows the common start, moved behind the pairs of that start. -/
theorem IsAlignment.behind_start {old new : List String} {rest : List (Nat × Nat)}
    (h : IsAlignment (old.drop (sharedCount old new)) (new.drop (sharedCount old new)) 0 0 rest) :
    IsAlignment old new 0 0
      (diagonal (sharedCount old new) ++ Diff.shift (sharedCount old new) rest) :=
  diagonal_append (fun _ hn => exists_of_lt_sharedCount hn) h.shift

/-- The matches of two lists of lines are an alignment, however long the lists are. -/
theorem isAlignment_lineMatches (old new : List String) :
    IsAlignment old new 0 0 (lineMatches old new) :=
  (isAlignment_restMatches _ _).behind_start

/-! ## What a difference keeps -/

/-- A difference keeps two lists of lines.  Its lines with an old number are the old lines,
numbered from one, and those with a new number are the new lines.  A line carries the numbers
that go with its kind, and no inserted line stands directly before a deleted one.  Its sides are
the two lists put together, and its text is the contents of all its lines. -/
structure Lossless (old new : List String) (d : UnifiedDiff) : Prop where
  onOld : d.lines.filterMap Entry.onOld = old.zipIdx 1
  onNew : d.lines.filterMap Entry.onNew = new.zipIdx 1
  carries : ∀ e ∈ d.lines, e.Carries
  inOrder : d.lines.IsChain Entry.InOrder
  beforeText : d.beforeText = Text.joinLines old
  afterText : d.afterText = Text.joinLines new
  text : d.text = Text.joinLines (d.lines.map Entry.content)

/-- The list along an alignment keeps both lists of lines. -/
theorem IsAlignment.lossless {old new : List String} {pairs : List (Nat × Nat)}
    (h : IsAlignment old new 0 0 pairs) :
    Lossless old new (.ofLines (entries 0 0 old new pairs)) := by
  have hold := h.filterMap_onOld
  have hnew := h.filterMap_onNew
  have hcarries := h.carries
  have hordered := h.isChain_inOrder
  rw [List.drop_zero, List.drop_zero] at hold hnew hcarries hordered
  refine ⟨hold, hnew, hcarries, hordered, ?_, ?_, rfl⟩
  · rw [UnifiedDiff.beforeText_eq hcarries, UnifiedDiff.ofLines, hold, List.zipIdx_map_fst]
  · rw [UnifiedDiff.afterText_eq hcarries, UnifiedDiff.ofLines, hnew, List.zipIdx_map_fst]

theorem lossless_compute (before after : String) :
    Lossless (Text.lines before) (Text.lines after) (compute before after) :=
  (isAlignment_lineMatches _ _).lossless

/-- **The difference of two texts loses and invents nothing.**  It does not matter either which
alignment is found behind the common start: along any other one nothing is lost as well. -/
theorem compute_lossless (before after : String) :
    let old := Text.lines before
    let new := Text.lines after
    let k := sharedCount old new
    Lossless old new (compute before after) ∧
      ∀ rest, IsAlignment (old.drop k) (new.drop k) 0 0 rest →
        Lossless old new (.ofLines (entries 0 0 old new (diagonal k ++ shift k rest))) := by
  exact ⟨lossless_compute before after, fun _ hrest => hrest.behind_start.lossless⟩

/-- Two lines that change places: the second line can be matched instead of the first one, which
the difference matches, and nothing is lost. -/
theorem compute_lossless_exchanged :
    IsAlignment ["a", "b"] ["b", "a"] 0 0 [(1, 0)] ∧
      lineMatches ["a", "b"] ["b", "a"] = [(0, 1)] ∧
      Lossless ["a", "b"] ["b", "a"] (.ofLines
        [.deleted "a" 0, .unchanged "b" 1 0, .inserted "a" 1]) := by
  have hold : Text.lines "a\nb" = ["a", "b"] := by
    decide +kernel
  have hnew : Text.lines "b\na" = ["b", "a"] := by
    decide +kernel
  have hshared : sharedCount ["a", "b"] ["b", "a"] = 0 := by
    decide +kernel
  have halignment : IsAlignment ["a", "b"] ["b", "a"] 0 0 [(1, 0)] :=
    .cons (Nat.zero_le 1) (Nat.zero_le 0) rfl rfl rfl (.nil 2 1)
  obtain ⟨-, h⟩ := compute_lossless "a\nb" "b\na"
  rw [hold, hnew, hshared] at h
  exact ⟨halignment, by decide +kernel, h _ halignment⟩

end CellReview.Diff
