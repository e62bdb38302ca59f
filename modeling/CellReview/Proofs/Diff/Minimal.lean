import CellReview.Proofs.Diff.Listing

/-!
# The difference of two texts is minimal

As long as the table is built, the unchanged lines of a difference are a longest common
subsequence of the lines of the two texts.  How many lines are deleted and inserted is then
a matter of the two texts alone, and the same from either side.

* `count_unchanged_compute`, `deletedCount_compute`, `insertedCount_compute` — the counts
  along the matches that are used;
* `compute_of_lines_eq` — texts with the same lines differ in none;
* `longestCommon_compute`, `counts_swap`, `lines_eq_of_isUnchanged` — what follows where the
  table is built;
* `compute_minimal` — **no difference has more unchanged lines**.
-/

namespace CellReview.Diff

open UnifiedDiff (compute)

variable {before after : String}

/-! ## The counts along the matches -/

section Counts

variable (h : IsAlignment (Text.lines before) (Text.lines after) 0 0
  (lineMatches (Text.lines before) (Text.lines after)))
include h

theorem count_unchanged_compute : (compute before after).count .unchanged =
    (lineMatches (Text.lines before) (Text.lines after)).length := by
  rw [UnifiedDiff.count_eq_countP]
  exact h.countP_unchanged

theorem deletedCount_compute : (compute before after).deletedCount +
    (compute before after).count .unchanged = (Text.lines before).length := by
  rw [count_unchanged_compute h, UnifiedDiff.deletedCount, UnifiedDiff.count_eq_countP]
  exact h.countP_deleted

theorem insertedCount_compute : (compute before after).insertedCount +
    (compute before after).count .unchanged = (Text.lines after).length := by
  rw [count_unchanged_compute h, UnifiedDiff.insertedCount, UnifiedDiff.count_eq_countP]
  exact h.countP_inserted

end Counts

/-! ## Equal lines -/

/-- Texts with the same lines differ in no line, however many there are. -/
theorem compute_of_lines_eq (h : Text.lines before = Text.lines after) :
    (compute before after).deletedCount = 0 ∧ (compute before after).insertedCount = 0 := by
  have haligned := lineMatches_self_isAlignment (Text.lines before)
  have hlength : (lineMatches (Text.lines before) (Text.lines before)).length =
      (Text.lines before).length := by
    rw [lineMatches_self, diagonal, List.length_map, List.length_range]
  have hafter : IsAlignment (Text.lines before) (Text.lines after) 0 0
      (lineMatches (Text.lines before) (Text.lines after)) := by
    rw [← h]
    exact haligned
  have hunchanged := count_unchanged_compute hafter
  rw [← h, hlength] at hunchanged
  have hdeleted := deletedCount_compute hafter
  have hinserted := insertedCount_compute hafter
  rw [← h] at hinserted
  omega

/-! ## Texts for which the table is built -/

variable (hfits : Fits (Text.lines before) (Text.lines after))
include hfits

/-- The unchanged lines are a longest common subsequence of the two lists of lines. -/
theorem longestCommon_compute : LongestCommon (Text.lines before) (Text.lines after)
    ((compute before after).count .unchanged) := by
  rw [count_unchanged_compute (lineMatches_isAlignment hfits)]
  exact longestCommon_lineMatches hfits

/-- The other way round as many lines stay unchanged. -/
theorem count_unchanged_swap :
    (compute after before).count .unchanged = (compute before after).count .unchanged :=
  (longestCommon_compute hfits.symm).unique (longestCommon_compute hfits).symm

/-- The other way round the deleted lines are inserted and the inserted ones deleted. -/
theorem counts_swap :
    (compute after before).deletedCount = (compute before after).insertedCount ∧
      (compute after before).insertedCount = (compute before after).deletedCount := by
  have hunchanged := count_unchanged_swap hfits
  have hdeleted := deletedCount_compute (lineMatches_isAlignment hfits)
  have hinserted := insertedCount_compute (lineMatches_isAlignment hfits)
  have hdeletedBack := deletedCount_compute (lineMatches_isAlignment hfits.symm)
  have hinsertedBack := insertedCount_compute (lineMatches_isAlignment hfits.symm)
  omega

/-- A difference without changes is one of texts with the same lines. -/
theorem lines_eq_of_isUnchanged (h : (compute before after).isUnchanged = true) :
    Text.lines before = Text.lines after := by
  obtain ⟨hdeleted, hinserted⟩ := (UnifiedDiff.isUnchanged_iff _).1 h
  have hold := deletedCount_compute (lineMatches_isAlignment hfits)
  have hnew := insertedCount_compute (lineMatches_isAlignment hfits)
  rw [hdeleted, Nat.zero_add] at hold
  rw [hinserted, Nat.zero_add] at hnew
  exact (longestCommon_compute hfits).eq_of_length hold.symm hnew.symm

omit hfits

/-! ## Minimality -/

/-- **The difference of two texts is minimal.**  When what follows their common start fits the
table, no common subsequence of the two lists of lines is longer than the unchanged lines; the
deleted and the inserted lines are what it leaves of either side, and trade places when the
texts do; and nothing changes exactly when the lines are the same.  Texts with the same lines
differ in nothing at any size. -/
theorem compute_minimal (before after : String) :
    (Fits (Text.lines before) (Text.lines after) →
      LongestCommon (Text.lines before) (Text.lines after)
        ((compute before after).count .unchanged) ∧
      (∀ n, LongestCommon (Text.lines before) (Text.lines after) n →
        (compute before after).deletedCount = (Text.lines before).length - n ∧
        (compute before after).insertedCount = (Text.lines after).length - n) ∧
      (compute after before).deletedCount = (compute before after).insertedCount ∧
      (compute after before).insertedCount = (compute before after).deletedCount ∧
      ((compute before after).isUnchanged = true ↔ Text.lines before = Text.lines after)) ∧
    (Text.lines before = Text.lines after →
      (compute before after).isUnchanged = true ∧
      (compute before after).deletedCount = 0 ∧ (compute before after).insertedCount = 0) := by
  have hsame : Text.lines before = Text.lines after → (compute before after).isUnchanged = true :=
    fun h => (UnifiedDiff.isUnchanged_iff _).2 (compute_of_lines_eq h)
  refine ⟨fun hfits => ?_, fun h => ⟨hsame h, compute_of_lines_eq h⟩⟩
  obtain ⟨hdeletedBack, hinsertedBack⟩ := counts_swap hfits
  refine ⟨longestCommon_compute hfits, fun n hn => ?_, hdeletedBack, hinsertedBack,
    lines_eq_of_isUnchanged hfits, hsame⟩
  have hn := (longestCommon_compute hfits).unique hn
  have hdeleted := deletedCount_compute (lineMatches_isAlignment hfits)
  have hinserted := insertedCount_compute (lineMatches_isAlignment hfits)
  omega

/-- Two lines that trade places: one of them stays, the other one is deleted and inserted. -/
theorem compute_minimal_exchanged :
    Fits (Text.lines "x = 1\ny = 2") (Text.lines "y = 2\nx = 1") ∧
      LongestCommon (Text.lines "x = 1\ny = 2") (Text.lines "y = 2\nx = 1") 1 ∧
      (compute "y = 2\nx = 1" "x = 1\ny = 2").deletedCount = 1 ∧
      (compute "x = 1\ny = 2" "y = 2\nx = 1").isUnchanged = false := by
  have hfits : Fits (Text.lines "x = 1\ny = 2") (Text.lines "y = 2\nx = 1") := by
    rw [Fits]
    decide
  obtain ⟨hlongest, -, hdeletedBack, -, hunchanged⟩ :=
    (compute_minimal "x = 1\ny = 2" "y = 2\nx = 1").1 hfits
  have hcount : (compute "x = 1\ny = 2" "y = 2\nx = 1").count .unchanged = 1 := by
    decide +kernel
  have hinserted : (compute "x = 1\ny = 2" "y = 2\nx = 1").insertedCount = 1 := by
    decide +kernel
  refine ⟨hfits, hcount ▸ hlongest, hdeletedBack.trans hinserted, ?_⟩
  rw [Bool.eq_false_iff]
  intro h
  exact absurd (hunchanged.1 h) (by decide)

end CellReview.Diff
