/-!
# Aligning two lists by a longest common subsequence

An alignment is a list of index pairs that increases in both coordinates and pairs
equal elements.  The longest ones are found with a table of suffix lengths; among
those the one that matches the earliest elements of the old list is taken.

* `IsAlignment` — what an alignment is;
* `suffixTable` — the flat table, filled from its last cell to its first;
* `walk` — the matches read off the table from its first cell on;
* `tableMatches` — both together;
* `sharedCount` — the length of the common start of two lists.
-/

namespace CellReview.Diff

variable {α : Type} [BEq α]

/-! ## Alignments -/

/-- Index pairs that increase in both coordinates from `(i, j)` on and pair equal elements. -/
inductive IsAlignment (old new : List α) : Nat → Nat → List (Nat × Nat) → Prop where
  | nil (i j : Nat) : IsAlignment old new i j []
  | cons {i j p q : Nat} {x y : α} {rest : List (Nat × Nat)} (hi : i ≤ p) (hj : j ≤ q)
      (hx : old[p]? = some x) (hy : new[q]? = some y) (same : (x == y) = true)
      (tail : IsAlignment old new (p + 1) (q + 1) rest) :
      IsAlignment old new i j ((p, q) :: rest)

/-! ## The table -/

/-- Whether the elements at two indices are equal. -/
def same (a b : Array α) (i j : Nat) : Bool :=
  if h : i < a.size ∧ j < b.size then a[i] == b[j] else false

/-- The place of row `i` and column `j` in a table with `n + 1` columns. -/
def place (n i j : Nat) : Nat :=
  i * (n + 1) + j

/-- The entry at row `i` and column `j` of a table with `n + 1` columns. -/
def entry (table : Array Nat) (n i j : Nat) : Nat :=
  table.getD (place n i j) 0

/-- The entry that belongs at row `i` and column `j`, from the cells right of and below it. -/
def cell (a b : Array α) (table : Array Nat) (i j : Nat) : Nat :=
  if same a b i j then entry table b.size (i + 1) (j + 1) + 1
  else max (entry table b.size (i + 1) j) (entry table b.size i (j + 1))

/-- Fill the first `j` columns of row `i`, the last of them first. -/
def fillRow (a b : Array α) (i : Nat) : Nat → Array Nat → Array Nat
  | 0, table => table
  | j + 1, table =>
    fillRow a b i j (table.setIfInBounds (place b.size i j) (cell a b table i j))

/-- Fill the first `i` rows, the last of them first. -/
def fillRows (a b : Array α) : Nat → Array Nat → Array Nat
  | 0, table => table
  | i + 1, table => fillRows a b i (fillRow a b i b.size table)

/-- The table whose entry at `(i, j)` is the length of a longest common subsequence of what
follows index `i` in `a` and index `j` in `b`. -/
def suffixTable (a b : Array α) : Array Nat :=
  fillRows a b a.size (Array.replicate ((a.size + 1) * (b.size + 1)) 0)

/-- The matches from `(i, j)` on.  Where neither side gains, the new list is advanced, so
that the old element stays available. -/
def walk (a b : Array α) (table : Array Nat) (i j : Nat) : List (Nat × Nat) :=
  if i < a.size ∧ j < b.size then
    if same a b i j then (i, j) :: walk a b table (i + 1) (j + 1)
    else if entry table b.size (i + 1) j > entry table b.size i (j + 1) then
      walk a b table (i + 1) j
    else walk a b table i (j + 1)
  else []
termination_by (a.size - i) + (b.size - j)

/-- The matches of two arrays by way of their table. -/
def tableMatches (a b : Array α) : List (Nat × Nat) :=
  walk a b (suffixTable a b) 0 0

/-! ## The common start -/

/-- The length of the common start of two lists. -/
def sharedCount (old new : List α) : Nat :=
  ((old.zip new).takeWhile fun p => p.1 == p.2).length

/-- Move index pairs by the length of a common start. -/
def shift (k : Nat) (pairs : List (Nat × Nat)) : List (Nat × Nat) :=
  pairs.map fun p => (k + p.1, k + p.2)

/-- The pairs of a common start of length `k`. -/
def diagonal (k : Nat) : List (Nat × Nat) :=
  (List.range k).map fun i => (i, i)

end CellReview.Diff
