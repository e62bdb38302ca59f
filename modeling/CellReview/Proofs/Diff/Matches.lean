import CellReview.Diff.Unified
import CellReview.Proofs.Diff.Table

/-!
# The matches are a longest alignment

The matches of two lists of lines are the pairs of their common start and, behind it, what
the walk through the table collects.  Together they are an alignment, and no alignment has
more pairs.

* `walk_isAlignment`, `IsAlignment.shift`, `diagonal_append` — the parts of an alignment;
* `IsAlignment.exists_common` — an alignment spells a common subsequence;
* `sharedCount_comm`, `take_sharedCount` — the common start;
* `Fits` — two lists for which the table is built;
* `lineMatches_self` — the matches of equal lists, of any length;
* `lineMatches_isAlignment`, `longestCommon_lineMatches` — **the matches of such lists are
  an alignment, as long as a longest common subsequence**.
-/

namespace CellReview.Diff

section Alignment

variable {α : Type} [BEq α] {old new : List α} {i j : Nat} {pairs : List (Nat × Nat)}

/-! ## Alignments -/

theorem IsAlignment.mono (h : IsAlignment old new i j pairs) {i' j' : Nat} (hi : i' ≤ i)
    (hj : j' ≤ j) : IsAlignment old new i' j' pairs := by
  cases h with
  | nil => exact .nil i' j'
  | cons hip hjq hx hy same tail =>
    exact .cons (Nat.le_trans hi hip) (Nat.le_trans hj hjq) hx hy same tail

theorem same_iff {a b : Array α} : same a b i j = true ↔
    ∃ x y, a.toList[i]? = some x ∧ b.toList[j]? = some y ∧ (x == y) = true := by
  simp only [Array.getElem?_toList, Array.getElem?_eq_some_iff]
  constructor
  · intro h
    by_cases hin : i < a.size ∧ j < b.size
    · rw [same_eq hin.1 hin.2] at h
      exact ⟨a[i], b[j], ⟨hin.1, rfl⟩, ⟨hin.2, rfl⟩, h⟩
    · rw [same, dif_neg hin] at h
      exact absurd h Bool.false_ne_true
  · rintro ⟨x, y, ⟨hi, rfl⟩, ⟨hj, rfl⟩, h⟩
    rw [same_eq hi hj]
    exact h

/-- Whatever the table holds, the walk collects an alignment. -/
theorem walk_isAlignment (a b : Array α) (table : Array Nat) (i j : Nat) :
    IsAlignment a.toList b.toList i j (walk a b table i j) := by
  fun_induction walk a b table i j with
  | case1 i j hin hsame ih =>
    obtain ⟨x, y, hx, hy, hxy⟩ := same_iff.1 hsame
    exact .cons (Nat.le_refl i) (Nat.le_refl j) hx hy hxy ih
  | case2 i j hin hsame hgain ih => exact ih.mono (Nat.le_succ i) (Nat.le_refl j)
  | case3 i j hin hsame hgain ih => exact ih.mono (Nat.le_refl i) (Nat.le_succ j)
  | case4 i j hout => exact .nil i j

/-- An alignment of what follows two starts of the same length. -/
theorem IsAlignment.shift {k : Nat} (h : IsAlignment (old.drop k) (new.drop k) i j pairs) :
    IsAlignment old new (k + i) (k + j) (shift k pairs) := by
  induction h with
  | nil i j => exact .nil _ _
  | cons hi hj hx hy same tail ih =>
    rw [List.getElem?_drop] at hx hy
    exact .cons (Nat.add_le_add_left hi k) (Nat.add_le_add_left hj k) hx hy same ih

/-- The pairs of a common start stand in front of an alignment behind it. -/
theorem diagonal_append {k : Nat}
    (hstart : ∀ n < k, ∃ x y, old[n]? = some x ∧ new[n]? = some y ∧ (x == y) = true)
    (h : IsAlignment old new k k pairs) : IsAlignment old new 0 0 (diagonal k ++ pairs) := by
  induction k generalizing pairs with
  | zero => exact h
  | succ k ih =>
    obtain ⟨x, y, hx, hy, hxy⟩ := hstart k (Nat.lt_succ_self k)
    have hlast : diagonal (k + 1) ++ pairs = diagonal k ++ (k, k) :: pairs := by
      rw [diagonal, List.range_succ, List.map_append, List.append_assoc]
      rfl
    rw [hlast]
    exact ih (fun n hn => hstart n (Nat.lt_succ_of_lt hn))
      (.cons (Nat.le_refl k) (Nat.le_refl k) hx hy hxy h)

omit [BEq α] in
theorem drop_eq_cons_of_getElem? {l : List α} {p : Nat} {x : α} (h : l[p]? = some x) :
    l.drop p = x :: l.drop (p + 1) := by
  obtain ⟨hp, rfl⟩ := List.getElem?_eq_some_iff.1 h
  exact List.drop_eq_getElem_cons hp

omit [BEq α] in
theorem drop_sublist_drop {l : List α} {i p : Nat} (h : i ≤ p) : (l.drop p).Sublist (l.drop i) := by
  obtain ⟨n, rfl⟩ := Nat.exists_eq_add_of_le h
  rw [← List.drop_drop]
  exact List.drop_sublist n _

/-- An alignment spells a common subsequence, one element for a pair. -/
theorem IsAlignment.exists_common [LawfulBEq α] (h : IsAlignment old new i j pairs) :
    ∃ c : List α, c.Sublist (old.drop i) ∧ c.Sublist (new.drop j) ∧ c.length = pairs.length := by
  induction h with
  | nil i j => exact ⟨[], List.nil_sublist _, List.nil_sublist _, rfl⟩
  | @cons i j p q x y rest hi hj hx hy same tail ih =>
    obtain ⟨c, hold, hnew, hlength⟩ := ih
    obtain rfl := eq_of_beq same
    refine ⟨x :: c, ?_, ?_, by rw [List.length_cons, List.length_cons, hlength]⟩
    · refine List.Sublist.trans ?_ (drop_sublist_drop hi)
      rw [drop_eq_cons_of_getElem? hx]
      exact hold.cons_cons x
    · refine List.Sublist.trans ?_ (drop_sublist_drop hj)
      rw [drop_eq_cons_of_getElem? hy]
      exact hnew.cons_cons x

/-! ## The common start -/

theorem sharedCount_cons (x y : α) (old new : List α) :
    sharedCount (x :: old) (y :: new) = if x == y then sharedCount old new + 1 else 0 := by
  rw [sharedCount, List.zip_cons_cons, List.takeWhile_cons]
  by_cases h : (x == y) = true
  · rw [if_pos h, if_pos h]
    rfl
  · rw [if_neg h, if_neg h]
    rfl

theorem sharedCount_nil_left (new : List α) : sharedCount [] new = 0 := rfl

theorem sharedCount_nil_right (old : List α) : sharedCount old [] = 0 := by
  rw [sharedCount, List.zip_nil_right]
  rfl

theorem sharedCount_le_left (old new : List α) : sharedCount old new ≤ old.length := by
  refine Nat.le_trans (List.takeWhile_sublist _).length_le ?_
  rw [List.length_zip]
  exact Nat.min_le_left _ _

variable [LawfulBEq α]

theorem sharedCount_comm (old new : List α) : sharedCount old new = sharedCount new old := by
  induction old generalizing new with
  | nil => rw [sharedCount_nil_left, sharedCount_nil_right]
  | cons x old ih =>
    cases new with
    | nil => rw [sharedCount_nil_left, sharedCount_nil_right]
    | cons y new => rw [sharedCount_cons, sharedCount_cons, ih new, BEq.comm]

theorem sharedCount_self (lines : List α) : sharedCount lines lines = lines.length := by
  induction lines with
  | nil => rfl
  | cons x lines ih => rw [sharedCount_cons, if_pos (beq_self_eq_true x), ih, List.length_cons]

theorem take_sharedCount (old new : List α) :
    old.take (sharedCount old new) = new.take (sharedCount old new) := by
  induction old generalizing new with
  | nil => rw [sharedCount_nil_left, List.take_zero, List.take_zero]
  | cons x old ih =>
    cases new with
    | nil => rw [sharedCount_nil_right, List.take_zero, List.take_zero]
    | cons y new =>
      rw [sharedCount_cons]
      by_cases h : (x == y) = true
      · obtain rfl := eq_of_beq h
        rw [if_pos h, List.take_succ_cons, List.take_succ_cons, ih new]
      · rw [if_neg h, List.take_zero, List.take_zero]

theorem exists_of_lt_sharedCount {n : Nat} (h : n < sharedCount old new) :
    ∃ x y, old[n]? = some x ∧ new[n]? = some y ∧ (x == y) = true := by
  have hlength : n < old.length := Nat.lt_of_lt_of_le h (sharedCount_le_left old new)
  have hold : old[n]? = some old[n] := List.getElem?_eq_getElem hlength
  refine ⟨old[n], old[n], hold, ?_, beq_self_eq_true _⟩
  rw [← List.getElem?_take_of_lt h, ← take_sharedCount, List.getElem?_take_of_lt h, hold]

end Alignment

/-! ## The matches of two texts -/

variable {old new : List String}

/-- Whether the table for what follows the common start is small enough to be built. -/
def Fits (old new : List String) : Prop :=
  (old.length - sharedCount old new) * (new.length - sharedCount old new) ≤ tableLimit

theorem Fits.symm (h : Fits old new) : Fits new old := by
  rw [Fits, sharedCount_comm new old, Nat.mul_comm]
  exact h

/-- The matches of lists for which the table is built. -/
theorem lineMatches_of_fits (h : Fits old new) :
    lineMatches old new = diagonal (sharedCount old new) ++ shift (sharedCount old new)
      (tableMatches (old.drop (sharedCount old new)).toArray
        (new.drop (sharedCount old new)).toArray) := by
  have hrest : restMatches (old.drop (sharedCount old new)).toArray
      (new.drop (sharedCount old new)).toArray =
        tableMatches (old.drop (sharedCount old new)).toArray
          (new.drop (sharedCount old new)).toArray := by
    rw [restMatches]
    split
    · rename_i hempty
      rw [tableMatches, walk, if_neg]
      rintro ⟨ha, hb⟩
      rcases hempty with hempty | hempty
      · exact absurd ha (by omega)
      · exact absurd hb (by omega)
    · rw [if_neg]
      rw [List.size_toArray, List.size_toArray, List.length_drop, List.length_drop, Nat.not_lt]
      exact h
  rw [lineMatches, hrest]

theorem lineMatches_isAlignment (h : Fits old new) :
    IsAlignment old new 0 0 (lineMatches old new) := by
  rw [lineMatches_of_fits h]
  exact diagonal_append (fun n hn => exists_of_lt_sharedCount hn) (walk_isAlignment _ _ _ 0 0).shift

theorem length_lineMatches (h : Fits old new) :
    (lineMatches old new).length = commonLength old new := by
  have hold := List.take_append_drop (sharedCount old new) old
  have hnew := List.take_append_drop (sharedCount old new) new
  rw [← take_sharedCount] at hnew
  have hsplit := commonLength_append_left (old.take (sharedCount old new))
    (old.drop (sharedCount old new)) (new.drop (sharedCount old new))
  rw [hold, hnew, List.length_take, Nat.min_eq_left (sharedCount_le_left old new)] at hsplit
  rw [lineMatches_of_fits h, List.length_append, diagonal, List.length_map, List.length_range,
    shift, List.length_map, tableMatches, length_walk, hsplit, suffixLength]
  rfl

/-- **The matches are as many as a longest common subsequence has elements.** -/
theorem longestCommon_lineMatches (h : Fits old new) :
    LongestCommon old new (lineMatches old new).length where
  attained := (lineMatches_isAlignment h).exists_common
  greatest := by
    rw [length_lineMatches h]
    exact length_le_commonLength old new

/-- Equal lists are their common start, however long they are. -/
theorem lineMatches_self (lines : List String) :
    lineMatches lines lines = diagonal lines.length := by
  have hrest : restMatches (lines.drop lines.length).toArray
      (lines.drop lines.length).toArray = [] := by
    rw [restMatches, List.drop_length]
    exact if_pos (Or.inl rfl)
  rw [lineMatches, sharedCount_self, hrest]
  exact List.append_nil _

theorem lineMatches_self_isAlignment (lines : List String) :
    IsAlignment lines lines 0 0 (lineMatches lines lines) := by
  have hstart : ∀ n < lines.length, ∃ x y, lines[n]? = some x ∧ lines[n]? = some y ∧
      (x == y) = true := by
    intro n hn
    rw [← sharedCount_self lines] at hn
    exact exists_of_lt_sharedCount hn
  have haligned := diagonal_append hstart (.nil lines.length lines.length)
  rw [List.append_nil] at haligned
  rw [lineMatches_self]
  exact haligned

end CellReview.Diff
