import CellReview.Proofs.Diff.Matches

/-!
# A common start may be left out of the table

The table that is built for what follows a common start is the lower right corner of the table
for the whole lists.  The walk through the whole table pairs the lines of the start one by one
and then goes on as the walk through the corner does, moved by the length of the start.

* `suffixLength_drop`, `same_drop` — the corner of the whole table;
* `walk_drop` — **the walk from a place in the corner is the one through the corner, moved**;
* `walk_start` — the walk along a common start;
* `tableMatches_of_start` — the matches of whole lists behind any common start;
* `lineMatches_eq_tableMatches` — **the matches that are used are those of the whole lists**.
-/

namespace CellReview.Diff

section Corner

variable {α : Type} [BEq α] {old new : List α} {k : Nat}

/-! ## The corner of a table -/

theorem suffixLength_drop (old new : List α) (k i j : Nat) :
    suffixLength (old.drop k).toArray (new.drop k).toArray i j =
      suffixLength old.toArray new.toArray (k + i) (k + j) := by
  simp only [suffixLength, List.drop_drop]

theorem same_drop (old new : List α) (k i j : Nat) :
    same (old.drop k).toArray (new.drop k).toArray i j =
      same old.toArray new.toArray (k + i) (k + j) := by
  rw [Bool.eq_iff_iff, same_iff, same_iff]
  simp only [List.getElem?_drop]

omit [BEq α] in
theorem lt_size_drop {l : List α} {i : Nat} :
    i < (l.drop k).toArray.size ↔ k + i < l.toArray.size := by
  rw [List.size_toArray, List.size_toArray, List.length_drop]
  omega

/-- Whether the row below reaches further is the same in the corner and in the whole table. -/
theorem entry_lt_entry_drop {i j : Nat} (hi : i < (old.drop k).toArray.size)
    (hj : j < (new.drop k).toArray.size) :
    entry (suffixTable (old.drop k).toArray (new.drop k).toArray) (new.drop k).toArray.size
        (i + 1) j >
      entry (suffixTable (old.drop k).toArray (new.drop k).toArray) (new.drop k).toArray.size
        i (j + 1) ↔
    entry (suffixTable old.toArray new.toArray) new.toArray.size (k + i + 1) (k + j) >
      entry (suffixTable old.toArray new.toArray) new.toArray.size (k + i) (k + j + 1) := by
  have hold := lt_size_drop.1 hi
  have hnew := lt_size_drop.1 hj
  rw [entry_suffixTable hi (Nat.le_of_lt hj), entry_suffixTable (Nat.le_of_lt hi) hj,
    entry_suffixTable hold (Nat.le_of_lt hnew), entry_suffixTable (Nat.le_of_lt hold) hnew,
    suffixLength_drop, suffixLength_drop]
  rfl

/-! ## The walk -/

/-- **The walk from a place in the corner is the one through the corner, moved.** -/
theorem walk_drop (old new : List α) (k i j : Nat) :
    walk old.toArray new.toArray (suffixTable old.toArray new.toArray) (k + i) (k + j) =
      shift k (walk (old.drop k).toArray (new.drop k).toArray
        (suffixTable (old.drop k).toArray (new.drop k).toArray) i j) := by
  fun_induction walk (old.drop k).toArray (new.drop k).toArray
    (suffixTable (old.drop k).toArray (new.drop k).toArray) i j with
  | case1 i j hin hsame ih =>
    rw [same_drop] at hsame
    rw [walk, if_pos ⟨lt_size_drop.1 hin.1, lt_size_drop.1 hin.2⟩, if_pos hsame]
    exact congrArg ((k + i, k + j) :: ·) ih
  | case2 i j hin hsame hgain ih =>
    rw [same_drop] at hsame
    rw [walk, if_pos ⟨lt_size_drop.1 hin.1, lt_size_drop.1 hin.2⟩, if_neg hsame,
      if_pos ((entry_lt_entry_drop hin.1 hin.2).1 hgain)]
    exact ih
  | case3 i j hin hsame hgain ih =>
    rw [same_drop] at hsame
    rw [walk, if_pos ⟨lt_size_drop.1 hin.1, lt_size_drop.1 hin.2⟩, if_neg hsame,
      if_neg fun hwhole => hgain ((entry_lt_entry_drop hin.1 hin.2).2 hwhole)]
    exact ih
  | case4 i j hout =>
    rw [walk, if_neg fun hin => hout ⟨lt_size_drop.2 hin.1, lt_size_drop.2 hin.2⟩]
    rfl

/-- Along a common start the walk pairs the elements one by one, whatever the table holds. -/
theorem walk_start {a b : Array α} (hstart : ∀ n < k, same a b n n = true) (table : Array Nat) :
    walk a b table 0 0 = diagonal k ++ walk a b table k k := by
  induction k with
  | zero => rfl
  | succ k ih =>
    have hlast := hstart k (Nat.lt_succ_self k)
    have hin : k < a.size ∧ k < b.size := by
      by_cases hin : k < a.size ∧ k < b.size
      · exact hin
      · rw [same, dif_neg hin] at hlast
        exact absurd hlast Bool.false_ne_true
    rw [ih fun n hn => hstart n (Nat.lt_succ_of_lt hn), walk, if_pos hin, if_pos hlast, diagonal,
      diagonal, List.range_succ, List.map_append, List.append_assoc]
    rfl

/-- The matches of whole lists are the pairs of a common start, of any length, and the matches
of what follows it. -/
theorem tableMatches_of_start
    (hstart : ∀ n < k, ∃ x y, old[n]? = some x ∧ new[n]? = some y ∧ (x == y) = true) :
    tableMatches old.toArray new.toArray = diagonal k ++
      shift k (tableMatches (old.drop k).toArray (new.drop k).toArray) := by
  have hsame : ∀ n < k, same old.toArray new.toArray n n = true :=
    fun n hn => same_iff.2 (hstart n hn)
  rw [tableMatches, walk_start hsame]
  exact congrArg (diagonal k ++ ·) (walk_drop old new k 0 0)

end Corner

/-! ## The matches of two texts -/

/-- **The matches that are used are those of the whole lists.**  When what follows the common
start of two lists fits the table, the matches are, pair for pair, what the table and the walk
give for the whole lists with their start. -/
theorem lineMatches_eq_tableMatches {old new : List String} (h : Fits old new) :
    lineMatches old new = tableMatches old.toArray new.toArray := by
  rw [lineMatches_of_fits h]
  exact (tableMatches_of_start fun n hn => exists_of_lt_sharedCount hn).symm

/-- The first line of the old text stands again behind the common start.  Over the whole lists,
too, the line of the start is matched and not the one behind it. -/
theorem lineMatches_eq_tableMatches_repeated :
    Fits ["a", "a", "b"] ["a", "b", "a"] ∧
      tableMatches #["a", "a", "b"] #["a", "b", "a"] = [(0, 0), (1, 2)] := by
  have hfits : Fits ["a", "a", "b"] ["a", "b", "a"] := by
    rw [Fits]
    decide
  have hmatches : lineMatches ["a", "a", "b"] ["a", "b", "a"] = [(0, 0), (1, 2)] := by
    decide +kernel
  exact ⟨hfits, (lineMatches_eq_tableMatches hfits).symm.trans hmatches⟩

end CellReview.Diff
