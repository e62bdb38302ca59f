import CellReview.Proofs.Diff.Matches

/-!
# The table stays in range

The table is filled and walked once more, over 32-bit entries and with every access guarded: an
index without an element, a place outside the table and an entry that does not fit end the run
without a result.  Where the table is small enough to be built, the guarded run has a result, and
it is that of the plain one.

* `suffixTable?`, `walk?` — the guarded run;
* `longestCommon_suffixLength`, `suffixLength_le` — what an entry counts, and its bound;
* `exists_cell?`, `exists_fillRow?`, `exists_suffixTable?` — the guarded loops have a result;
* `walk?_eq_some` — so has the guarded walk;
* `Visits` — the places to which the walk comes, with the matches collected on the way;
* `suffixTable_in_range` — **the table is right, and no access or addition leaves its range**.
-/

namespace CellReview.Diff

variable {α : Type} [BEq α]

/-! ## The guarded run -/

/-- One more than a 32-bit entry, if that fits 32 bits. -/
def increment? (x : UInt32) : Option UInt32 :=
  if x.toNat + 1 < UInt32.size then some (x + 1) else none

/-- The entry that belongs at row `i` and column `j`, from the cells right of and below it. -/
def cell? (a b : Array α) (table : Array UInt32) (i j : Nat) : Option UInt32 := do
  let x ← a[i]?
  let y ← b[j]?
  if x == y then
    let corner ← table[place b.size (i + 1) (j + 1)]?
    increment? corner
  else
    let below ← table[place b.size (i + 1) j]?
    let right ← table[place b.size i (j + 1)]?
    return max below right

/-- A table with another entry at one of its places. -/
def put? (table : Array UInt32) (k : Nat) (x : UInt32) : Option (Array UInt32) :=
  if k < table.size then some (table.setIfInBounds k x) else none

/-- Fill the first `j` columns of row `i`, the last of them first. -/
def fillRow? (a b : Array α) (i : Nat) : Nat → Array UInt32 → Option (Array UInt32)
  | 0, table => some table
  | j + 1, table => do
    let x ← cell? a b table i j
    let table ← put? table (place b.size i j) x
    fillRow? a b i j table

/-- Fill the first `i` rows, the last of them first. -/
def fillRows? (a b : Array α) : Nat → Array UInt32 → Option (Array UInt32)
  | 0, table => some table
  | i + 1, table => do
    let table ← fillRow? a b i b.size table
    fillRows? a b i table

/-- The table of 32-bit entries. -/
def suffixTable? (a b : Array α) : Option (Array UInt32) :=
  fillRows? a b a.size (Array.replicate ((a.size + 1) * (b.size + 1)) 0)

/-- The matches from `(i, j)` on. -/
def walk? (a b : Array α) (table : Array UInt32) (i j : Nat) : Option (List (Nat × Nat)) :=
  if i < a.size ∧ j < b.size then do
    let x ← a[i]?
    let y ← b[j]?
    if x == y then
      let rest ← walk? a b table (i + 1) (j + 1)
      return (i, j) :: rest
    else
      let below ← table[place b.size (i + 1) j]?
      let right ← table[place b.size i (j + 1)]?
      if below > right then walk? a b table (i + 1) j else walk? a b table i (j + 1)
  else some []
termination_by (a.size - i) + (b.size - j)

variable {a b : Array α}

/-! ## What an entry counts -/

theorem longestCommon_suffixLength [LawfulBEq α] (a b : Array α) (i j : Nat) :
    LongestCommon (a.toList.drop i) (b.toList.drop j) (suffixLength a b i j) where
  attained := by
    rw [← length_walk a b i j]
    exact (walk_isAlignment a b (suffixTable a b) i j).exists_common
  greatest := length_le_commonLength _ _

theorem suffixLength_le [LawfulBEq α] (a b : Array α) (i j : Nat) :
    suffixLength a b i j ≤ min a.size b.size := by
  obtain ⟨c, ha, hb, hlength⟩ := (longestCommon_suffixLength a b i j).attained
  rw [← hlength, ← Array.length_toList, ← Array.length_toList]
  exact Nat.le_min.2 ⟨(ha.trans (List.drop_sublist i _)).length_le,
    (hb.trans (List.drop_sublist j _)).length_le⟩

/-! ## Filling -/

theorem toNat_max (x y : UInt32) : (max x y).toNat = max x.toNat y.toNat := by
  have hmax : max x y = if x ≤ y then y else x := rfl
  by_cases h : x ≤ y
  · rw [hmax, if_pos h, Nat.max_eq_right (UInt32.le_iff_toNat_le.1 h)]
  · rw [hmax, if_neg h, Nat.max_eq_left]
    exact Nat.le_of_not_le fun hle => h (UInt32.le_iff_toNat_le.2 hle)

theorem exists_increment? {x : UInt32} (h : x.toNat + 1 < UInt32.size) :
    ∃ y, increment? x = some y ∧ y.toNat = x.toNat + 1 := by
  refine ⟨x + 1, if_pos h, ?_⟩
  rw [UInt32.toNat_add]
  exact Nat.mod_eq_of_lt h

variable {table : Array UInt32} {i j : Nat}

omit [BEq α] in
/-- A place of the table can be read. -/
theorem exists_entry (a b : Array α) {p q : Nat}
    (hsize : table.size = (a.size + 1) * (b.size + 1)) (hp : p ≤ a.size) (hq : q ≤ b.size) :
    ∃ x, table[place b.size p q]? = some x ∧
      x.toNat = entry (table.map UInt32.toNat) b.size p q := by
  have hplace : place b.size p q < table.size := by
    rw [hsize]
    exact place_lt hp hq
  refine ⟨table[place b.size p q], Array.getElem?_eq_getElem hplace, ?_⟩
  simp [entry, hplace]

theorem Filled.size_words (h : Filled a b (table.map UInt32.toNat) i j) :
    table.size = (a.size + 1) * (b.size + 1) := by
  rw [← h.size_eq, Array.size_map]

section Lawful

variable [LawfulBEq α]

/-- The entry that is due next is read off the table, and it fits. -/
theorem exists_cell? (hsmall : min a.size b.size < UInt32.size)
    (h : Filled a b (table.map UInt32.toNat) i (j + 1)) (hi : i < a.size) (hj : j < b.size) :
    ∃ x, cell? a b table i j = some x ∧
      x.toNat = cell a b (table.map UInt32.toNat) i j := by
  have hsize := h.size_words
  have hdue := h.cell_eq hi hj
  rw [cell?, Array.getElem?_eq_getElem hi, Array.getElem?_eq_getElem hj]
  simp only [Option.bind_eq_bind, Option.bind_some, ← same_eq hi hj]
  cases hsame : same a b i j with
  | true =>
    obtain ⟨x, hx, hvalue⟩ := exists_entry a b hsize hi hj
    rw [cell, if_pos hsame, ← hvalue] at hdue
    -- the sum is the length of a common subsequence again, so it is small
    have hfits : x.toNat + 1 < UInt32.size :=
      hdue ▸ Nat.lt_of_le_of_lt (suffixLength_le a b i j) hsmall
    rw [if_pos rfl, hx, Option.bind_some, cell, if_pos hsame, ← hvalue]
    exact exists_increment? hfits
  | false =>
    obtain ⟨x, hx, hbelow⟩ := exists_entry a b hsize hi (Nat.le_of_lt hj)
    obtain ⟨y, hy, hright⟩ := exists_entry a b hsize (Nat.le_of_lt hi) hj
    rw [if_neg Bool.false_ne_true, hx, hy, Option.bind_some, Option.bind_some]
    refine ⟨max x y, rfl, ?_⟩
    rw [toNat_max, hbelow, hright, cell, if_neg (by simp [hsame])]

theorem exists_fillRow? (hsmall : min a.size b.size < UInt32.size) (hi : i < a.size) :
    ∀ {j : Nat} {table : Array UInt32}, j ≤ b.size →
      Filled a b (table.map UInt32.toNat) i j →
      ∃ row, fillRow? a b i j table = some row ∧
        row.map UInt32.toNat = fillRow a b i j (table.map UInt32.toNat) := by
  intro j
  induction j with
  | zero => exact fun {table} _ _ => ⟨table, rfl, rfl⟩
  | succ j ih =>
    intro table hj h
    obtain ⟨x, hx, hvalue⟩ := exists_cell? hsmall h hi hj
    have hplace : place b.size i j < table.size := by
      rw [h.size_words]
      exact place_lt (Nat.le_of_lt hi) (Nat.le_of_lt hj)
    have hput : put? table (place b.size i j) x =
        some (table.setIfInBounds (place b.size i j) x) := if_pos hplace
    have hset := h.set hi hj
    rw [← hvalue, ← Array.map_setIfInBounds] at hset
    rw [fillRow?, fillRow, hx, ← hvalue, ← Array.map_setIfInBounds]
    simp only [Option.bind_eq_bind, Option.bind_some, hput]
    exact ih (Nat.le_of_lt hj) hset

theorem exists_fillRows? (hsmall : min a.size b.size < UInt32.size) :
    ∀ {i : Nat} {table : Array UInt32}, i ≤ a.size →
      Filled a b (table.map UInt32.toNat) i 0 →
      ∃ full, fillRows? a b i table = some full ∧
        full.map UInt32.toNat = fillRows a b i (table.map UInt32.toNat) := by
  intro i
  induction i with
  | zero => exact fun {table} _ _ => ⟨table, rfl, rfl⟩
  | succ i ih =>
    intro table hi h
    obtain ⟨row, hrow, hvalues⟩ := exists_fillRow? hsmall hi (Nat.le_refl _) h.next
    have hfilled := h.next.fillRow hi (Nat.le_refl _)
    rw [← hvalues] at hfilled
    rw [fillRows?, fillRows, hrow, ← hvalues]
    exact ih (Nat.le_of_lt hi) hfilled

/-- The guarded loops end with the table. -/
theorem exists_suffixTable? (hsmall : min a.size b.size < UInt32.size) :
    ∃ table, suffixTable? a b = some table ∧ table.map UInt32.toNat = suffixTable a b := by
  have hstart := filled_start a b
  have hzero : (Array.replicate ((a.size + 1) * (b.size + 1)) (0 : UInt32)).map UInt32.toNat =
      Array.replicate ((a.size + 1) * (b.size + 1)) 0 := Array.map_replicate
  rw [← hzero] at hstart
  obtain ⟨table, htable, hvalues⟩ := exists_fillRows? hsmall (Nat.le_refl _) hstart
  exact ⟨table, htable, by rw [hvalues, hzero, suffixTable]⟩

end Lawful

/-! ## Walking -/

/-- Where two elements differ, the guarded walk goes the way of the greater entry. -/
theorem walk?_of_not_same (hsize : table.size = (a.size + 1) * (b.size + 1))
    (hin : i < a.size ∧ j < b.size) (hsame : ¬ same a b i j = true) :
    walk? a b table i j =
      if entry (table.map UInt32.toNat) b.size (i + 1) j >
          entry (table.map UInt32.toNat) b.size i (j + 1) then walk? a b table (i + 1) j
      else walk? a b table i (j + 1) := by
  obtain ⟨x, hx, hbelow⟩ := exists_entry a b hsize hin.1 (Nat.le_of_lt hin.2)
  obtain ⟨y, hy, hright⟩ := exists_entry a b hsize (Nat.le_of_lt hin.1) hin.2
  rw [walk?, if_pos hin, Array.getElem?_eq_getElem hin.1, Array.getElem?_eq_getElem hin.2, hx, hy]
  simp only [Option.bind_eq_bind, Option.bind_some, ← same_eq hin.1 hin.2]
  simp only [if_neg hsame, ← hbelow, ← hright, gt_iff_lt, UInt32.lt_iff_toNat_lt]

/-- The guarded walk through a table of the right size has a result, whatever the entries. -/
theorem walk?_eq_some (hsize : table.size = (a.size + 1) * (b.size + 1)) (i j : Nat) :
    walk? a b table i j = some (walk a b (table.map UInt32.toNat) i j) := by
  fun_induction walk a b (table.map UInt32.toNat) i j with
  | case1 i j hin hsame ih =>
    rw [walk?, if_pos hin, Array.getElem?_eq_getElem hin.1, Array.getElem?_eq_getElem hin.2, ih]
    simp only [Option.bind_eq_bind, Option.bind_some, ← same_eq hin.1 hin.2]
    rw [if_pos hsame]
    rfl
  | case2 i j hin hsame hgain ih => rw [walk?_of_not_same hsize hin hsame, if_pos hgain, ih]
  | case3 i j hin hsame hgain ih => rw [walk?_of_not_same hsize hin hsame, if_neg hgain, ih]
  | case4 i j hout => rw [walk?, if_neg hout]

/-- The places to which the walk comes, with the matches collected on the way. -/
inductive Visits (a b : Array α) (table : Array Nat) : Nat → Nat → List (Nat × Nat) → Prop where
  | start : Visits a b table 0 0 []
  | pair {i j : Nat} {found : List (Nat × Nat)} (h : Visits a b table i j found)
      (hin : i < a.size ∧ j < b.size) (hsame : same a b i j = true) :
      Visits a b table (i + 1) (j + 1) (found ++ [(i, j)])
  | down {i j : Nat} {found : List (Nat × Nat)} (h : Visits a b table i j found)
      (hin : i < a.size ∧ j < b.size) (hsame : ¬ same a b i j = true)
      (hgain : entry table b.size (i + 1) j > entry table b.size i (j + 1)) :
      Visits a b table (i + 1) j found
  | right {i j : Nat} {found : List (Nat × Nat)} (h : Visits a b table i j found)
      (hin : i < a.size ∧ j < b.size) (hsame : ¬ same a b i j = true)
      (hgain : ¬ entry table b.size (i + 1) j > entry table b.size i (j + 1)) :
      Visits a b table i (j + 1) found

variable {values : Array Nat} {found : List (Nat × Nat)}

theorem Visits.le (h : Visits a b values i j found) : i ≤ a.size ∧ j ≤ b.size := by
  induction h with
  | start => exact ⟨Nat.zero_le _, Nat.zero_le _⟩
  | pair _ hin _ _ => exact hin
  | down _ hin _ _ _ => exact ⟨hin.1, Nat.le_of_lt hin.2⟩
  | right _ hin _ _ _ => exact ⟨Nat.le_of_lt hin.1, hin.2⟩

/-- At every place of the walk, what it collects from there on is all that is missing. -/
theorem Visits.walk_eq (h : Visits a b values i j found) :
    walk a b values 0 0 = found ++ walk a b values i j := by
  induction h with
  | start => rfl
  | pair _ hin hsame ih =>
    rw [ih, walk, if_pos hin, if_pos hsame, List.append_assoc]
    rfl
  | down _ hin hsame hgain ih => rw [ih, walk, if_pos hin, if_neg hsame, if_pos hgain]
  | right _ hin hsame hgain ih => rw [ih, walk, if_pos hin, if_neg hsame, if_neg hgain]

/-- From every place of the walk, the walk comes to its end. -/
theorem Visits.exists_end (h : Visits a b values i j found) :
    ∃ p q, Visits a b values p q (found ++ walk a b values i j) ∧
      ¬ (p < a.size ∧ q < b.size) := by
  fun_induction walk a b values i j generalizing found with
  | case1 i j hin hsame ih =>
    obtain ⟨p, q, hend⟩ := ih (h.pair hin hsame)
    rw [List.append_assoc] at hend
    exact ⟨p, q, hend⟩
  | case2 i j hin hsame hgain ih => exact ih (h.down hin hsame hgain)
  | case3 i j hin hsame hgain ih => exact ih (h.right hin hsame hgain)
  | case4 i j hout => exact ⟨i, j, by rwa [List.append_nil], hout⟩

/-! ## Range -/

omit [BEq α] in
/-- A small table has small sides, and its places are few. -/
theorem small_of_fits (ha : 0 < a.size) (hb : 0 < b.size) (hfits : a.size * b.size ≤ tableLimit) :
    min a.size b.size < UInt32.size ∧ (a.size + 1) * (b.size + 1) < UInt32.size := by
  have hlimit : 3 * tableLimit + 1 < UInt32.size := by decide
  have hleft : a.size ≤ a.size * b.size := Nat.le_mul_of_pos_right _ hb
  have hright : b.size ≤ a.size * b.size := Nat.le_mul_of_pos_left _ ha
  have hplaces : (a.size + 1) * (b.size + 1) = a.size * b.size + a.size + b.size + 1 := by
    rw [Nat.add_mul, Nat.mul_add]
    omega
  omega

theorem exists_place {m n k : Nat} (h : k < (m + 1) * (n + 1)) :
    ∃ i j, i ≤ m ∧ j ≤ n ∧ k = place n i j := by
  refine ⟨k / (n + 1), k % (n + 1), ?_, ?_, ?_⟩
  · exact Nat.le_of_lt_succ (Nat.div_lt_of_lt_mul (by rwa [Nat.mul_comm]))
  · exact Nat.le_of_lt_succ (Nat.mod_lt _ (Nat.succ_pos n))
  · rw [place, Nat.mul_comm, Nat.div_add_mod]

theorem getElem?_suffixTable (hi : i ≤ a.size) (hj : j ≤ b.size) :
    (suffixTable a b)[place b.size i j]? = some (suffixLength a b i j) := by
  have hplace : place b.size i j < (suffixTable a b).size := by
    rw [(filled_suffixTable a b).size_eq]
    exact place_lt hi hj
  rw [Array.getElem?_eq_getElem hplace, ← entry_suffixTable hi hj]
  simp [entry, hplace]

/-- Every entry of the table is bounded by the shorter array. -/
theorem le_of_mem_suffixTable [LawfulBEq α] {n : Nat} (h : n ∈ suffixTable a b) :
    n ≤ min a.size b.size := by
  obtain ⟨k, hk⟩ := Array.mem_iff_getElem?.1 h
  obtain ⟨hlt, -⟩ := Array.getElem?_eq_some_iff.1 hk
  rw [(filled_suffixTable a b).size_eq] at hlt
  obtain ⟨i, j, hi, hj, rfl⟩ := exists_place hlt
  rw [getElem?_suffixTable hi hj] at hk
  obtain rfl := Option.some.inj hk
  exact suffixLength_le a b i j

/-- **The table is right, and nothing leaves its range.**  For two arrays whose table is built,
the run in which every index is guarded and every entry has 32 bits ends with the table and the
matches of the plain one; the table has so few places that their numbers have 32 bits as well, and
no entry exceeds the size of the shorter array.  The entry at row `i` and column `j` is the length
of a longest common subsequence of what follows `i` and `j`.  It is also the number of matches
that are missing when the walk comes there, and the walk comes to its end with all of them. -/
theorem suffixTable_in_range [LawfulBEq α] (ha : 0 < a.size) (hb : 0 < b.size)
    (hfits : a.size * b.size ≤ tableLimit) :
    (∃ table, suffixTable? a b = some table ∧ table.map UInt32.toNat = suffixTable a b ∧
      walk? a b table 0 0 = some (tableMatches a b)) ∧
    (suffixTable a b).size < UInt32.size ∧
    (∀ n ∈ suffixTable a b, n ≤ min a.size b.size) ∧
    (∀ i ≤ a.size, ∀ j ≤ b.size, ∃ n, (suffixTable a b)[i * (b.size + 1) + j]? = some n ∧
      LongestCommon (a.toList.drop i) (b.toList.drop j) n) ∧
    (∀ i j found, Visits a b (suffixTable a b) i j found → ∃ rest,
      tableMatches a b = found ++ rest ∧
      (suffixTable a b)[i * (b.size + 1) + j]? = some rest.length) ∧
    ∃ i j, Visits a b (suffixTable a b) i j (tableMatches a b) ∧
      ¬ (i < a.size ∧ j < b.size) := by
  obtain ⟨hsmall, hplaces⟩ := small_of_fits ha hb hfits
  obtain ⟨table, htable, hvalues⟩ := exists_suffixTable? hsmall
  have hsize : table.size = (a.size + 1) * (b.size + 1) := by
    rw [← (filled_suffixTable a b).size_eq, ← hvalues, Array.size_map]
  refine ⟨⟨table, htable, hvalues, ?_⟩, ?_, fun _ => le_of_mem_suffixTable, ?_, ?_, ?_⟩
  · rw [walk?_eq_some hsize, hvalues, tableMatches]
  · rwa [(filled_suffixTable a b).size_eq]
  · intro i hi j hj
    exact ⟨_, getElem?_suffixTable hi hj, longestCommon_suffixLength a b i j⟩
  · intro i j found h
    refine ⟨walk a b (suffixTable a b) i j, h.walk_eq, ?_⟩
    rw [length_walk]
    exact getElem?_suffixTable h.le.1 h.le.2
  · exact Visits.exists_end .start

/-- The first line of three is in no match: the guarded run has its result, and both matches are
still missing when the walk comes to the second line. -/
theorem suffixTable_in_range_skipped :
    (∃ table, suffixTable? #["a", "b", "a"] #["b", "a"] = some table ∧
      table.map UInt32.toNat = #[2, 1, 0, 2, 1, 0, 1, 1, 0, 0, 0, 0] ∧
      walk? #["a", "b", "a"] #["b", "a"] table 0 0 = some [(1, 0), (2, 1)]) ∧
    Visits #["a", "b", "a"] #["b", "a"] (suffixTable #["a", "b", "a"] #["b", "a"]) 1 0 [] ∧
    ∃ rest, [(1, 0), (2, 1)] = [] ++ rest ∧
      (suffixTable #["a", "b", "a"] #["b", "a"])[1 * 3 + 0]? = some rest.length := by
  have htable : suffixTable #["a", "b", "a"] #["b", "a"] =
      #[2, 1, 0, 2, 1, 0, 1, 1, 0, 0, 0, 0] := by
    decide +kernel
  have hmatches : tableMatches #["a", "b", "a"] #["b", "a"] = [(1, 0), (2, 1)] := by
    decide +kernel
  have hsecond : Visits #["a", "b", "a"] #["b", "a"]
      (suffixTable #["a", "b", "a"] #["b", "a"]) 1 0 [] :=
    .down .start (by decide) (by decide) (by rw [htable]; decide)
  obtain ⟨hguarded, -, -, -, hmissing, -⟩ :=
    suffixTable_in_range (a := #["a", "b", "a"]) (b := #["b", "a"]) (by decide) (by decide)
      (by decide)
  rw [htable, hmatches] at hguarded
  obtain ⟨rest, hrest, hentry⟩ := hmissing 1 0 [] hsecond
  rw [hmatches] at hrest
  exact ⟨hguarded, hsecond, rest, hrest, hentry⟩

end CellReview.Diff
