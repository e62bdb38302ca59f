import CellReview.Proofs.Diff.Subsequence

/-!
# The table of suffix lengths

The flat table is filled from its last cell to its first.  Once a cell is filled, its entry
is the length of a longest common subsequence of what follows its row in the old array and
its column in the new one, and the walk through the table collects as many matches.

* `suffixLength` — that length, with the recursion of the cells;
* `Filled` — the invariant of the two loops: every cell behind the current one is right;
* `entry_suffixTable` — **every entry of the full table is right**;
* `length_walk` — **the walk collects as many matches as the entry where it starts says**.
-/

namespace CellReview.Diff

variable {α : Type} [BEq α] {a b : Array α}

/-! ## Suffix lengths -/

/-- The length of a longest common subsequence of what follows two indices. -/
def suffixLength (a b : Array α) (i j : Nat) : Nat :=
  commonLength (a.toList.drop i) (b.toList.drop j)

theorem suffixLength_of_size_le_left {i : Nat} (h : a.size ≤ i) (j : Nat) :
    suffixLength a b i j = 0 := by
  have hdrop : a.toList.drop i = [] := List.drop_eq_nil_of_le (by rw [Array.length_toList]; exact h)
  rw [suffixLength, hdrop, commonLength_nil_left]

theorem suffixLength_of_size_le_right (i : Nat) {j : Nat} (h : b.size ≤ j) :
    suffixLength a b i j = 0 := by
  have hdrop : b.toList.drop j = [] := List.drop_eq_nil_of_le (by rw [Array.length_toList]; exact h)
  rw [suffixLength, hdrop, commonLength_nil_right]

omit [BEq α] in
theorem drop_toList_eq_cons {i : Nat} (h : i < a.size) :
    a.toList.drop i = a[i] :: a.toList.drop (i + 1) := by
  rw [List.drop_eq_getElem_cons (by rw [Array.length_toList]; exact h), Array.getElem_toList]

theorem same_eq {i j : Nat} (hi : i < a.size) (hj : j < b.size) :
    same a b i j = (a[i] == b[j]) := by
  rw [same, dif_pos ⟨hi, hj⟩]

theorem suffixLength_of_same {i j : Nat} (hi : i < a.size) (hj : j < b.size)
    (h : same a b i j = true) : suffixLength a b i j = suffixLength a b (i + 1) (j + 1) + 1 := by
  rw [same_eq hi hj] at h
  rw [suffixLength, drop_toList_eq_cons hi, drop_toList_eq_cons hj, commonLength_cons_of_eq h]
  rfl

theorem suffixLength_of_not_same {i j : Nat} (hi : i < a.size) (hj : j < b.size)
    (h : same a b i j = false) :
    suffixLength a b i j = max (suffixLength a b (i + 1) j) (suffixLength a b i (j + 1)) := by
  rw [same_eq hi hj] at h
  rw [suffixLength, drop_toList_eq_cons hi, drop_toList_eq_cons hj, commonLength_cons_of_ne h,
    suffixLength, suffixLength, drop_toList_eq_cons hi, drop_toList_eq_cons hj]

/-! ## Places -/

theorem place_lt {m n i j : Nat} (hi : i ≤ m) (hj : j ≤ n) :
    place n i j < (m + 1) * (n + 1) := by
  have hrow : i * (n + 1) ≤ m * (n + 1) := Nat.mul_le_mul_right _ hi
  rw [place, Nat.succ_mul]
  omega

/-- Two cells of a table have different places. -/
theorem place_inj {n i j p q : Nat} (hj : j ≤ n) (hq : q ≤ n) :
    place n i j = place n p q ↔ i = p ∧ j = q := by
  constructor
  · intro h
    have hdiv : ∀ i j, j ≤ n → place n i j / (n + 1) = i := by
      intro i j hj
      rw [place, Nat.mul_comm, Nat.mul_add_div (Nat.succ_pos n),
        Nat.div_eq_of_lt (Nat.lt_succ_of_le hj), Nat.add_zero]
    have hip : i = p := by rw [← hdiv i j hj, h, hdiv p q hq]
    refine ⟨hip, ?_⟩
    rw [place, place, hip] at h
    exact Nat.add_left_cancel h
  · rintro ⟨rfl, rfl⟩
    rfl

/-- Setting a cell changes its entry and no other. -/
theorem entry_set {table : Array Nat} {n i j p q x : Nat} (hj : j ≤ n) (hq : q ≤ n)
    (hsize : place n i j < table.size) :
    entry (table.setIfInBounds (place n i j) x) n p q =
      if i = p ∧ j = q then x else entry table n p q := by
  rw [entry, entry, Array.getD_eq_getD_getElem?, Array.getD_eq_getD_getElem?,
    Array.getElem?_setIfInBounds]
  by_cases h : place n i j = place n p q
  · rw [if_pos h, if_pos hsize, if_pos ((place_inj hj hq).1 h)]
    rfl
  · rw [if_neg h, if_neg fun hc => h ((place_inj hj hq).2 hc)]

/-! ## Filling -/

/-- Every cell of the table from `(i, j)` on is right, and so is the last column. -/
structure Filled (a b : Array α) (table : Array Nat) (i j : Nat) : Prop where
  size_eq : table.size = (a.size + 1) * (b.size + 1)
  entry_eq : ∀ {p q}, p ≤ a.size → q ≤ b.size → i < p ∨ i = p ∧ j ≤ q ∨ q = b.size →
    entry table b.size p q = suffixLength a b p q

theorem filled_start (a b : Array α) :
    Filled a b (Array.replicate ((a.size + 1) * (b.size + 1)) 0) a.size 0 where
  size_eq := Array.size_replicate
  entry_eq := by
    intro p q hp hq hpq
    have hzero : suffixLength a b p q = 0 := by
      rcases hpq with hlt | ⟨heq, -⟩ | hq
      · exact absurd hp (Nat.not_le_of_lt hlt)
      · exact suffixLength_of_size_le_left (Nat.le_of_eq heq) q
      · exact suffixLength_of_size_le_right p (Nat.le_of_eq hq.symm)
    rw [hzero, entry, Array.getD_eq_getD_getElem?, Array.getElem?_replicate]
    split <;> rfl

/-- The cell that is due next follows from those behind it. -/
theorem Filled.cell_eq {table : Array Nat} {i j : Nat} (h : Filled a b table i (j + 1))
    (hi : i < a.size) (hj : j < b.size) : cell a b table i j = suffixLength a b i j := by
  have hbelow : ∀ {q}, q ≤ b.size →
      entry table b.size (i + 1) q = suffixLength a b (i + 1) q := fun hq =>
    h.entry_eq hi hq (.inl (Nat.lt_succ_self i))
  have hright : entry table b.size i (j + 1) = suffixLength a b i (j + 1) :=
    h.entry_eq (Nat.le_of_lt hi) hj (.inr (.inl ⟨rfl, Nat.le_refl _⟩))
  unfold cell
  cases hsame : same a b i j with
  | true =>
    rw [if_pos rfl, hbelow hj, suffixLength_of_same hi hj hsame]
  | false =>
    rw [if_neg Bool.false_ne_true, hbelow (Nat.le_of_lt hj), hright,
      suffixLength_of_not_same hi hj hsame]

/-- Filling one more cell keeps the table right. -/
theorem Filled.set {table : Array Nat} {i j : Nat} (h : Filled a b table i (j + 1))
    (hi : i < a.size) (hj : j < b.size) :
    Filled a b (table.setIfInBounds (place b.size i j) (cell a b table i j)) i j where
  size_eq := by
    rw [Array.size_setIfInBounds]
    exact h.size_eq
  entry_eq := by
    intro p q hp hq hpq
    have hsize : place b.size i j < table.size := by
      rw [h.size_eq]
      exact place_lt (Nat.le_of_lt hi) (Nat.le_of_lt hj)
    rw [entry_set (Nat.le_of_lt hj) hq hsize]
    by_cases hcell : i = p ∧ j = q
    · obtain ⟨rfl, rfl⟩ := hcell
      rw [if_pos ⟨rfl, rfl⟩]
      exact h.cell_eq hi hj
    · rw [if_neg hcell]
      refine h.entry_eq hp hq ?_
      omega

theorem Filled.fillRow {i : Nat} (hi : i < a.size) :
    ∀ {j : Nat} {table : Array Nat}, j ≤ b.size → Filled a b table i j →
      Filled a b (fillRow a b i j table) i 0 := by
  intro j
  induction j with
  | zero => exact fun _ h => h
  | succ j ih =>
    intro table hj h
    rw [Diff.fillRow]
    exact ih (Nat.le_of_lt hj) (h.set hi hj)

/-- A full row is the start of the row above it. -/
theorem Filled.next {table : Array Nat} {i : Nat} (h : Filled a b table (i + 1) 0) :
    Filled a b table i b.size where
  size_eq := h.size_eq
  entry_eq := by
    intro p q hp hq hpq
    refine h.entry_eq hp hq ?_
    omega

theorem Filled.fillRows :
    ∀ {i : Nat} {table : Array Nat}, i ≤ a.size → Filled a b table i 0 →
      Filled a b (fillRows a b i table) 0 0 := by
  intro i
  induction i with
  | zero => exact fun _ h => h
  | succ i ih =>
    intro table hi h
    rw [Diff.fillRows]
    exact ih (Nat.le_of_lt hi) (h.next.fillRow hi (Nat.le_refl _))

theorem filled_suffixTable (a b : Array α) : Filled a b (suffixTable a b) 0 0 :=
  (filled_start a b).fillRows (Nat.le_refl _)

/-- **Every entry of the table is the length of a longest common subsequence** of what
follows its row and its column. -/
theorem entry_suffixTable {i j : Nat} (hi : i ≤ a.size) (hj : j ≤ b.size) :
    entry (suffixTable a b) b.size i j = suffixLength a b i j := by
  refine (filled_suffixTable a b).entry_eq hi hj ?_
  omega

/-! ## Walking -/

/-- **The walk collects as many matches as the entry where it starts says.** -/
theorem length_walk (a b : Array α) (i j : Nat) :
    (walk a b (suffixTable a b) i j).length = suffixLength a b i j := by
  fun_induction walk a b (suffixTable a b) i j with
  | case1 i j hin hsame ih =>
    rw [List.length_cons, ih, suffixLength_of_same hin.1 hin.2 hsame]
  | case2 i j hin hsame hgain ih =>
    -- the row below reaches further
    rw [entry_suffixTable hin.1 (Nat.le_of_lt hin.2),
      entry_suffixTable (Nat.le_of_lt hin.1) hin.2] at hgain
    rw [ih, suffixLength_of_not_same hin.1 hin.2 (by simpa using hsame),
      Nat.max_eq_left (Nat.le_of_lt hgain)]
  | case3 i j hin hsame hgain ih =>
    rw [entry_suffixTable hin.1 (Nat.le_of_lt hin.2),
      entry_suffixTable (Nat.le_of_lt hin.1) hin.2] at hgain
    rw [ih, suffixLength_of_not_same hin.1 hin.2 (by simpa using hsame),
      Nat.max_eq_right (Nat.le_of_not_lt hgain)]
  | case4 i j hout =>
    rw [List.length_nil]
    by_cases hi : a.size ≤ i
    · rw [suffixLength_of_size_le_left hi]
    · rw [suffixLength_of_size_le_right i (by omega)]

end CellReview.Diff
