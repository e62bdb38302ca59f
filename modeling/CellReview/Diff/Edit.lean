/-!
# Edit scripts by divide and conquer

For inputs whose table would be too large, and for patches, two arrays are compared
by looking for a middle snake of a shortest edit script from both ends at once and
splitting there.  Two working rows are shared by the whole comparison and are not
cleared in between, so the choice among equally short scripts depends on what
earlier searches left in them.

This stands for a library that is used as it is.  What is followed is Myers' comparison in linear
space: the common start and the common end of two ranges are taken off, the rest is split at a
middle snake, and where none is found all is deleted and inserted.  Among scripts of one length
the library's choice is followed as well, but no result rests on it: what is proved of a script
holds of every one that pairs equal elements in their order.

* `Edit` — a run of equal, deleted, inserted or replaced elements;
* `middleSnake?` — where to split two ranges;
* `conquer` — the script of two ranges;
* `plainScript` — the script of two arrays.
-/

namespace CellReview.Diff

/-- What a run of an edit script does. -/
inductive EditKind where
  | equal
  | delete
  | insert
  | replace
  deriving DecidableEq, Repr

/-- A run of an edit script: `oldCount` elements from `old` on become `newCount` elements from
`new` on. -/
structure Edit where
  kind : EditKind
  old : Nat
  oldCount : Nat
  new : Nat
  newCount : Nat
  deriving DecidableEq, Repr

namespace Edit

/-- A run of equal elements. -/
def equal (old new count : Nat) : Edit := ⟨.equal, old, count, new, count⟩

/-- A run of deleted elements. -/
def delete (old count new : Nat) : Edit := ⟨.delete, old, count, new, 0⟩

/-- A run of inserted elements. -/
def insert (old new count : Nat) : Edit := ⟨.insert, old, 0, new, count⟩

/-- Whether a run covers no element. -/
def isEmpty (e : Edit) : Bool :=
  e.oldCount == 0 && e.newCount == 0

end Edit

variable {α : Type} [BEq α]

/-! ## Common starts and ends of ranges -/

/-- The number of equal elements from `i` and `j` on, at most `count`. -/
def startCount (a b : Array α) (i j : Nat) : Nat → Nat
  | 0 => 0
  | count + 1 =>
    if h : i < a.size ∧ j < b.size then
      if a[i] == b[j] then startCount a b (i + 1) (j + 1) count + 1 else 0
    else 0

/-- The number of equal elements up to, but not including, `i` and `j`, at most `count`. -/
def endCount (a b : Array α) (i j : Nat) : Nat → Nat
  | 0 => 0
  | count + 1 =>
    if h : 0 < i ∧ 0 < j ∧ i ≤ a.size ∧ j ≤ b.size then
      if a[i - 1] == b[j - 1] then endCount a b (i - 1) (j - 1) count + 1 else 0
    else 0

/-! ## The middle snake -/

/-- A range of an array: its first index and the one after its last. -/
structure Range where
  first : Nat
  past : Nat
  deriving DecidableEq, Repr

/-- The number of elements of a range. -/
def Range.count (r : Range) : Nat :=
  r.past - r.first

/-- A row with an entry for every diagonal; diagonal `k` stands at `k + origin`. -/
structure Row where
  cells : Array Nat
  origin : Nat
  deriving Repr

/-- The entry of a diagonal. -/
def Row.get (r : Row) (k : Int) : Nat :=
  r.cells.getD (k + r.origin).toNat 0

/-- Set the entry of a diagonal. -/
def Row.set (r : Row) (k : Int) (x : Nat) : Row :=
  { r with cells := r.cells.setIfInBounds (k + r.origin).toNat x }

/-- The two working rows, for the search from the start and the one from the end. -/
structure Rows where
  forward : Row
  backward : Row
  deriving Repr

/-- Rows for arrays of the given sizes. -/
def Rows.ofSizes (n m : Nat) : Rows :=
  let reach := (n + m + 1) / 2 + 1
  let row : Row := ⟨Array.replicate (2 * reach) 0, reach⟩
  ⟨row, row⟩

/-- Where the furthest path with `d` changes arrives on diagonal `k`. -/
def Row.arrive (r : Row) (d : Nat) (k : Int) : Nat :=
  if k = -d ∨ (k ≠ d ∧ r.get (k - 1) < r.get (k + 1)) then r.get (k + 1)
  else r.get (k - 1) + 1

/-- The diagonals `d, d - 2, …, -d`. -/
def diagonals (d : Nat) : List Int :=
  (List.range (d + 1)).map fun (i : Nat) => (d : Int) - 2 * (i : Int)

/-- The state of a search: the rows, and the split once it is found. -/
structure Search where
  rows : Rows
  found : Option (Int × Int)

/-- The step of the search from the start on diagonal `k`. -/
def stepForward (a b : Array α) (ra rb : Range) (d : Nat) (s : Search) (k : Int) : Search :=
  if s.found.isSome then s
  else
    let n := ra.count
    let delta : Int := (n : Int) - rb.count
    let x := s.rows.forward.arrive d k
    let y : Int := x - k
    let reach :=
      if x < n ∧ 0 ≤ y ∧ y < rb.count then
        let i := ra.first + x
        let j := rb.first + y.toNat
        x + startCount a b i j (min (ra.past - i) (rb.past - j))
      else x
    let rows := { s.rows with forward := s.rows.forward.set k reach }
    let meets := delta % 2 ≠ 0 ∧ (k - delta).natAbs + 1 ≤ d ∧
      reach + rows.backward.get (-(k - delta)) ≥ n
    ⟨rows, if meets then some (x + ra.first, y + rb.first) else none⟩

/-- The step of the search from the end on diagonal `k`. -/
def stepBackward (a b : Array α) (ra rb : Range) (d : Nat) (s : Search) (k : Int) : Search :=
  if s.found.isSome then s
  else
    let n := ra.count
    let m := rb.count
    let delta : Int := (n : Int) - m
    let x := s.rows.backward.arrive d k
    let y : Int := x - k
    let advance :=
      if x < n ∧ 0 ≤ y ∧ y < m then
        endCount a b (ra.first + n - x) (rb.first + m - y.toNat) (min (n - x) (m - y.toNat))
      else 0
    let reach := x + advance
    let rows := { s.rows with backward := s.rows.backward.set k reach }
    let meets := delta % 2 = 0 ∧ (k - delta).natAbs ≤ d ∧
      reach + rows.forward.get (-(k - delta)) ≥ n
    ⟨rows,
      if meets then some ((n : Int) - reach + ra.first, (m : Int) - (y + advance) + rb.first)
      else none⟩

/-- Search with `d`, `d + 1`, … changes until the two searches meet. -/
def searchFrom (a b : Array α) (ra rb : Range) (s : Search) (d : Nat) : Nat → Search
  | 0 => s
  | rounds + 1 =>
    let s := (diagonals d).foldl (stepForward a b ra rb d) s
    let s := (diagonals d).foldl (stepBackward a b ra rb d) s
    if s.found.isSome then s else searchFrom a b ra rb s (d + 1) rounds

/-- The split of two ranges at the middle of a shortest script, and the rows afterwards. -/
def middleSnake? (a b : Array α) (ra rb : Range) (rows : Rows) : Rows × Option (Nat × Nat) :=
  let rows : Rows := ⟨rows.forward.set 1 0, rows.backward.set 1 0⟩
  let s := searchFrom a b ra rb ⟨rows, none⟩ 0 ((ra.count + rb.count + 1) / 2 + 1)
  (s.rows, s.found.map fun p => (p.1.toNat, p.2.toNat))

/-! ## Divide and conquer -/

/-- The script of two ranges, in order, and the rows afterwards.  A pair of ranges that cannot
be split is deleted and inserted as a whole. -/
def conquer (a b : Array α) : Nat → Rows → Range → Range → Rows × List Edit
  | 0, rows, ra, rb =>
    (rows, [.delete ra.first ra.count rb.first, .insert ra.first rb.first rb.count])
  | fuel + 1, rows, ra, rb =>
    let p := startCount a b ra.first rb.first (min ra.count rb.count)
    let head := if p > 0 then [Edit.equal ra.first rb.first p] else []
    let ra : Range := { ra with first := ra.first + p }
    let rb : Range := { rb with first := rb.first + p }
    let s := endCount a b ra.past rb.past (min ra.count rb.count)
    let tail := if s > 0 then [Edit.equal (ra.past - s) (rb.past - s) s] else []
    let ra : Range := { ra with past := ra.past - s }
    let rb : Range := { rb with past := rb.past - s }
    let (rows, body) :=
      if ra.count = 0 ∧ rb.count = 0 then (rows, [])
      else if rb.count = 0 then (rows, [.delete ra.first ra.count rb.first])
      else if ra.count = 0 then (rows, [.insert ra.first rb.first rb.count])
      else
        match middleSnake? a b ra rb rows with
        | (rows, some (x, y)) =>
          let (rows, left) := conquer a b fuel rows ⟨ra.first, x⟩ ⟨rb.first, y⟩
          let (rows, right) := conquer a b fuel rows ⟨x, ra.past⟩ ⟨y, rb.past⟩
          (rows, left ++ right)
        | (rows, none) =>
          (rows, [.delete ra.first ra.count rb.first, .insert ra.first rb.first rb.count])
    (rows, head ++ body ++ tail)

/-- The plain script of two arrays. -/
def plainScript (a b : Array α) : List Edit :=
  (conquer a b (a.size + b.size + 1) (.ofSizes a.size b.size) ⟨0, a.size⟩ ⟨0, b.size⟩).2

end CellReview.Diff
