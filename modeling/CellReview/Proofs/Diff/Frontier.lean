import CellReview.Proofs.Diff.Script

/-!
# The frontier of a search

A search for a split keeps, on every other diagonal, the furthest old index that a path with
so many changes reaches there.  Far from the middle that index can lie past the end of its
range.  It does not where the two searches can meet, as long as they have not met: there the
next step arrives inside both ranges.

* `Row.Wide` — a row with enough cells;
* `OnRound` — the diagonals of a round;
* `Furthest` — what the entries of a round satisfy, `Furthest.succ` from one to the next;
* `Clear` — no entry of a round has met the other search;
* `Ready.arrive_le` — **where the searches can meet, a step arrives inside both ranges**.
-/

namespace CellReview.Diff

variable {n m c d reach : Nat} {r r' : Row} {k l : Int}

/-! ## Rows -/

/-- A row with a cell for every diagonal less than `reach` away from the middle. -/
structure Row.Wide (reach : Nat) (r : Row) : Prop where
  origin : r.origin = reach
  size : r.cells.size = 2 * reach

namespace Row.Wide

theorem set (h : r.Wide reach) (k : Int) (x : Nat) : (r.set k x).Wide reach :=
  ⟨h.origin, (Array.size_setIfInBounds ..).trans h.size⟩

theorem get_set_self (h : r.Wide reach) (hk : k.natAbs < reach) (x : Nat) :
    (r.set k x).get k = x := by
  have hin : (k + r.origin).toNat < r.cells.size := by
    rw [h.origin, h.size]
    omega
  rw [Row.get, Row.set, Array.getD_eq_getD_getElem?, Array.getElem?_setIfInBounds_self_of_lt hin,
    Option.getD_some]

theorem get_set_of_ne (h : r.Wide reach) (hk : k.natAbs < reach) (hne : l ≠ k) (x : Nat) :
    (r.set k x).get l = r.get l := by
  have hplace : (k + r.origin).toNat ≠ (l + r.origin).toNat := by
    rw [h.origin]
    omega
  rw [Row.get, Row.set, Array.getD_eq_getD_getElem?, Array.getElem?_setIfInBounds_ne hplace,
    Row.get, Array.getD_eq_getD_getElem?]

end Row.Wide

/-! ## Rounds -/

/-- The diagonals of the round with `d` changes. -/
def OnRound (d : Nat) (k : Int) : Prop :=
  k.natAbs ≤ d ∧ (k - d) % 2 = 0

theorem mem_diagonals : k ∈ diagonals d ↔ OnRound d k := by
  rw [diagonals, List.mem_map, OnRound]
  constructor
  · rintro ⟨i, hi, rfl⟩
    rw [List.mem_range] at hi
    omega
  · rintro ⟨hk, hparity⟩
    refine ⟨((d - k) / 2).toNat, ?_, ?_⟩
    · rw [List.mem_range]
      omega
    · omega

/-- The neighbours of a diagonal belong to the rounds before and after. -/
theorem OnRound.not_onRound (hk : OnRound d k) (hl : l = k - 1 ∨ l = k + 1) : ¬ OnRound d l := by
  unfold OnRound at *
  omega

theorem OnRound.prev (hk : OnRound (d + 1) k) (hne : k ≠ -(d + 1 : Nat)) : OnRound d (k - 1) := by
  unfold OnRound at *
  omega

theorem OnRound.next (hk : OnRound (d + 1) k) (hne : k ≠ (d + 1 : Nat)) : OnRound d (k + 1) := by
  unfold OnRound at *
  omega

theorem OnRound.bounds (hk : OnRound d k) : -d ≤ k ∧ k ≤ d := by
  unfold OnRound at hk
  omega

/-! ## Entries -/

/-- A path that arrives at `x` on a diagonal stays there, or goes on inside both ranges. -/
def GoesTo (n m : Nat) (k : Int) (x z : Nat) : Prop :=
  z = x ∨ x ≤ z ∧ z ≤ n ∧ (z : Int) ≤ m + k

/-- The entries of a round.  On diagonal `k` the new index is the entry less `k`; it is never
negative.  Where one of the indices is past its end, the entry on the neighbouring diagonal is
close. -/
structure Furthest (n m d : Nat) (r : Row) : Prop where
  low : ∀ k, OnRound d k → k ≤ r.get k
  new : ∀ k, OnRound d (k - 1) → OnRound d (k + 1) →
    (r.get (k - 1) : Int) ≤ m + (k - 1) ∨ r.get (k - 1) < r.get (k + 1)
  old : ∀ k, OnRound d (k - 1) → OnRound d (k + 1) →
    r.get (k + 1) ≤ n ∨ r.get (k + 1) ≤ r.get (k - 1) + 1
  top : (r.get d : Int) ≤ m + d
  bottom : r.get (-d) ≤ n

theorem GoesTo.le {x z : Nat} (h : GoesTo n m k x z) : x ≤ z := by
  rcases h with rfl | h
  · exact Nat.le_refl z
  · exact h.1

theorem arrive_of_le (h : k = -d ∨ k ≠ d ∧ r.get (k - 1) < r.get (k + 1)) :
    r.arrive d k = r.get (k + 1) :=
  if_pos h

theorem arrive_of_lt (h : ¬ (k = -d ∨ k ≠ d ∧ r.get (k - 1) < r.get (k + 1))) :
    r.arrive d k = r.get (k - 1) + 1 :=
  if_neg h

theorem get_le_arrive (h : k ≠ d) : r.get (k + 1) ≤ r.arrive d k := by
  rw [Row.arrive]
  split <;> omega

theorem get_lt_arrive (h : k ≠ -d) : r.get (k - 1) < r.arrive d k := by
  rw [Row.arrive]
  split <;> omega

/-- No step arrives at a negative new index. -/
theorem Furthest.le_arrive (h : Furthest n m d r) (hk : OnRound (d + 1) k) :
    k ≤ r.arrive (d + 1) k := by
  by_cases htop : k = (d + 1 : Nat)
  · have hlow := h.low (k - 1) (hk.prev (by omega))
    have hlt := get_lt_arrive (r := r) (d := d + 1) (k := k) (by omega)
    omega
  · have hlow := h.low (k + 1) (hk.next htop)
    have hge := get_le_arrive (r := r) (d := d + 1) htop
    omega

/-- What holds of the entries of a round holds of those of the next one. -/
theorem Furthest.succ (h : Furthest n m d r)
    (hnext : ∀ k, OnRound (d + 1) k → GoesTo n m k (r.arrive (d + 1) k) (r'.get k)) :
    Furthest n m (d + 1) r' where
  low k hk := by
    have hlow := h.le_arrive hk
    have hle := (hnext k hk).le
    omega
  new k hk hk' := by
    have hbounds := hk.bounds
    have hbounds' := hk'.bounds
    have hgoes := hnext (k - 1) hk
    have hle := (hnext (k + 1) hk').le
    have hlt := get_lt_arrive (r := r) (d := d + 1) (k := k + 1) (by omega)
    rw [Int.add_sub_cancel] at hlt
    by_cases hfrom : k - 1 = -(d + 1 : Nat) ∨
        k - 1 ≠ (d + 1 : Nat) ∧ r.get (k - 1 - 1) < r.get (k - 1 + 1)
    · rw [arrive_of_le hfrom, Int.sub_add_cancel] at hgoes
      unfold GoesTo at hgoes
      omega
    · -- the path comes from the far side, where the same holds of the entries before
      have hnew := h.new (k - 1) (hk.prev (by omega)) (hk.next (by omega))
      rw [arrive_of_lt hfrom] at hgoes
      rw [Int.sub_add_cancel] at hnew hfrom
      unfold GoesTo at hgoes
      omega
  old k hk hk' := by
    have hbounds := hk.bounds
    have hbounds' := hk'.bounds
    have hgoes := hnext (k + 1) hk'
    have hle := (hnext (k - 1) hk).le
    have hge := get_le_arrive (r := r) (d := d + 1) (k := k - 1) (by omega)
    rw [Int.sub_add_cancel] at hge
    by_cases hfrom : k + 1 = -(d + 1 : Nat) ∨
        k + 1 ≠ (d + 1 : Nat) ∧ r.get (k + 1 - 1) < r.get (k + 1 + 1)
    · have hold := h.old (k + 1) (hk'.prev (by omega)) (hk'.next (by omega))
      rw [arrive_of_le hfrom] at hgoes
      rw [Int.add_sub_cancel] at hold hfrom
      unfold GoesTo at hgoes
      omega
    · rw [arrive_of_lt hfrom, Int.add_sub_cancel] at hgoes
      unfold GoesTo at hgoes
      omega
  top := by
    have hgoes := hnext (d + 1 : Nat) (by unfold OnRound; omega)
    rw [arrive_of_lt (by omega), show ((d + 1 : Nat) : Int) - 1 = d by omega] at hgoes
    have htop := h.top
    unfold GoesTo at hgoes
    omega
  bottom := by
    have hgoes := hnext (-(d + 1 : Nat)) (by unfold OnRound; omega)
    rw [arrive_of_le (.inl rfl), show -((d + 1 : Nat) : Int) + 1 = -d by omega] at hgoes
    have hbottom := h.bottom
    unfold GoesTo at hgoes
    omega

/-! ## Meeting the other search -/

/-- Whether a search can meet the other one on diagonal `k` in the round with `d` changes.  The
search from the start is one round ahead of the other one, and `c` is one for it; the search
from the end has `c` zero. -/
def CanMeet (n m c d : Nat) (k : Int) : Prop :=
  ((n : Int) - m - c) % 2 = 0 ∧ (k - (n - m)).natAbs + c ≤ d

/-- No entry of a round is at an end of its range where the searches can meet. -/
def Clear (n m c d : Nat) (r : Row) : Prop :=
  ∀ k, OnRound d k → CanMeet n m c d k → r.get k < n ∧ (r.get k : Int) < m + k

/-- Where the searches can meet, the entry of the other one is on its round. -/
theorem Furthest.opposite (h : Furthest n m d r) (hk : OnRound (d + c) k)
    (hmeet : CanMeet n m c (d + c) k) : -(k - (n - m)) ≤ r.get (-(k - (n - m))) := by
  refine h.low _ ?_
  unfold CanMeet OnRound at *
  omega

/-- A row before the round with `d` changes. -/
def Ready (n m c : Nat) : Nat → Row → Prop
  | 0, r => r.get 1 = 0
  | d + 1, r => Furthest n m d r ∧ Clear n m c d r

theorem arrive_zero (h : r.get 1 = 0) : r.arrive 0 0 = 0 :=
  (arrive_of_le (.inl rfl)).trans h

/-- The entries of the first round. -/
theorem furthest_zero (h : r.get 1 = 0) (hnext : GoesTo n m 0 (r.arrive 0 0) (r'.get 0)) :
    Furthest n m 0 r' := by
  have harrive := arrive_zero h
  have hround : ∀ k, OnRound 0 k → k = 0 := fun k hk => by
    have := hk.bounds
    omega
  rw [harrive] at hnext
  unfold GoesTo at hnext
  refine ⟨fun k hk => ?_, fun k hk hk' => ?_, fun k hk hk' => ?_, ?_, ?_⟩
  · obtain rfl := hround k hk
    omega
  · have hprev := hround _ hk
    have hnext := hround _ hk'
    omega
  · have hprev := hround _ hk
    have hnext := hround _ hk'
    omega
  · change (r'.get 0 : Int) ≤ m + 0
    omega
  · change r'.get 0 ≤ n
    omega

theorem Ready.furthest (h : Ready n m c d r)
    (hnext : ∀ k, OnRound d k → GoesTo n m k (r.arrive d k) (r'.get k)) :
    Furthest n m d r' := by
  cases d with
  | zero => exact furthest_zero h (hnext 0 (by unfold OnRound; omega))
  | succ d => exact h.1.succ hnext

theorem Ready.le_arrive (h : Ready n m c d r) (hk : OnRound d k) : k ≤ r.arrive d k := by
  cases d with
  | zero =>
    have hbounds := hk.bounds
    omega
  | succ d => exact h.1.le_arrive hk

section Arrival

variable (h : Furthest n m d r) (hclear : Clear n m c d r) (hc : c ≤ 1) (hk : OnRound (d + 1) k)
  (hmeet : CanMeet n m c (d + 1) k)
include h hclear hc hk hmeet

/-- A step from the next diagonal. -/
theorem Furthest.next_le
    (hfrom : k = -(d + 1 : Nat) ∨ k ≠ (d + 1 : Nat) ∧ r.get (k - 1) < r.get (k + 1)) :
    r.get (k + 1) ≤ n ∧ (r.get (k + 1) : Int) ≤ m + k := by
  have hnext := hk.next (by omega)
  by_cases hmeet' : CanMeet n m c d (k + 1)
  · have hin := hclear _ hnext hmeet'
    omega
  by_cases hend : k = -(d + 1 : Nat)
  · have hbottom := h.bottom
    rw [show k + 1 = -d by omega]
    unfold CanMeet OnRound at *
    omega
  · -- the diagonal on the other side is in the middle, and its entry is close
    have hprev := hk.prev hend
    have hin := hclear _ hprev (by unfold CanMeet OnRound at *; omega)
    have hold := h.old k hprev hnext
    unfold CanMeet OnRound at *
    omega

/-- A step from the previous diagonal. -/
theorem Furthest.prev_lt
    (hfrom : ¬ (k = -(d + 1 : Nat) ∨ k ≠ (d + 1 : Nat) ∧ r.get (k - 1) < r.get (k + 1))) :
    r.get (k - 1) < n ∧ (r.get (k - 1) : Int) < m + k := by
  have hprev := hk.prev (by omega)
  by_cases hmeet' : CanMeet n m c d (k - 1)
  · have hin := hclear _ hprev hmeet'
    omega
  by_cases hend : k = (d + 1 : Nat)
  · have htop := h.top
    rw [show k - 1 = d by omega]
    unfold CanMeet OnRound at *
    omega
  · have hnext := hk.next hend
    have hin := hclear _ hnext (by unfold CanMeet OnRound at *; omega)
    have hnew := h.new k hprev hnext
    unfold CanMeet OnRound at *
    omega

end Arrival

/-- **Where the searches can meet, a step arrives inside both ranges.** -/
theorem Ready.arrive_le (h : Ready n m c d r) (hc : c ≤ 1) (hk : OnRound d k)
    (hmeet : CanMeet n m c d k) : r.arrive d k ≤ n ∧ (r.arrive d k : Int) ≤ m + k := by
  cases d with
  | zero =>
    obtain rfl : k = 0 := by
      have := hk.bounds
      omega
    have harrive := arrive_zero h
    unfold CanMeet at hmeet
    omega
  | succ d =>
    obtain ⟨hfurthest, hclear⟩ := h
    by_cases hfrom : k = -(d + 1 : Nat) ∨ k ≠ (d + 1 : Nat) ∧ r.get (k - 1) < r.get (k + 1)
    · rw [arrive_of_le hfrom]
      exact hfurthest.next_le hclear hc hk hmeet hfrom
    · rw [arrive_of_lt hfrom]
      have hlt := hfurthest.prev_lt hclear hc hk hmeet hfrom
      omega

end CellReview.Diff
