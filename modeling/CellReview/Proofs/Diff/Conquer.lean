import CellReview.Proofs.Diff.Snake
import CellReview.Proofs.Diff.Tidy

/-!
# The script of two arrays is sound

The comparison of two ranges takes off their common start and end, splits what is between, and
goes on with both parts.  Its script covers the ranges from their first to their last elements:
the parts do so, as the split lies inside both ranges.

* `Covers` — a sound script of two whole ranges, `Covers.append` for one of two parts;
* `conquerMiddle`, `conquer_succ` — a comparison in two steps;
* `conquer_conquers` — **the script of two ranges covers them**;
* `script_isAlignment` — **the equal runs of a tidy script are an alignment**.
-/

namespace CellReview.Diff

variable {α : Type} [BEq α] {a b : Array α} {ra rb : Range} {i j n x y reach fuel : Nat}
  {left right : List Edit} {rows : Rows}

/-! ## Covering two ranges -/

/-- A sound script of two ranges, from their first to their last elements. -/
structure Covers (a b : Array α) (ra rb : Range) (edits : List Edit) : Prop where
  sound : Sound a b ra.first rb.first edits
  old : ra.first + total Edit.oldCount edits = ra.past
  new : rb.first + total Edit.newCount edits = rb.past

theorem Covers.append {i' j' : Nat} (hleft : Covers a b ⟨i, x⟩ ⟨j, y⟩ left)
    (hright : Covers a b ⟨x, i'⟩ ⟨y, j'⟩ right) : Covers a b ⟨i, i'⟩ ⟨j, j'⟩ (left ++ right) := by
  obtain ⟨hsound, hold, hnew⟩ := hleft
  obtain ⟨hsound', hold', hnew'⟩ := hright
  dsimp only at *
  subst hold hnew
  refine ⟨sound_append.2 ⟨hsound, hsound'⟩, ?_, ?_⟩
  · rw [total_append, ← Nat.add_assoc]
    exact hold'
  · rw [total_append, ← Nat.add_assoc]
    exact hnew'

theorem covers_nil (ha : ra.first = ra.past) (hb : rb.first = rb.past) : Covers a b ra rb [] :=
  ⟨trivial, ha, hb⟩

/-- A run of equal elements, left out if there are none. -/
theorem covers_equal (hagree : Agree a b i j n) :
    Covers a b ⟨i, i + n⟩ ⟨j, j + n⟩ (if n > 0 then [.equal i j n] else []) := by
  split
  · exact ⟨⟨.equal hagree, trivial⟩, rfl, rfl⟩
  · exact covers_nil (by dsimp only; omega) (by dsimp only; omega)

theorem covers_delete (ha : ra.first ≤ ra.past) (hb : rb.first = rb.past) :
    Covers a b ra rb [.delete ra.first ra.count rb.first] :=
  ⟨⟨.delete .., trivial⟩, Nat.add_sub_cancel' ha, hb⟩

theorem covers_insert (ha : ra.first = ra.past) (hb : rb.first ≤ rb.past) :
    Covers a b ra rb [.insert ra.first rb.first rb.count] :=
  ⟨⟨.insert .., trivial⟩, ha, Nat.add_sub_cancel' hb⟩

theorem covers_replace (ha : ra.first ≤ ra.past) (hb : rb.first ≤ rb.past) :
    Covers a b ra rb [.delete ra.first ra.count rb.first, .insert ra.first rb.first rb.count] :=
  ⟨⟨.delete .., .insert .., trivial⟩, Nat.add_sub_cancel' ha, by
    simpa [total, Edit.delete, Edit.insert, Range.count] using Nat.add_sub_cancel' hb⟩

/-! ## Divide and conquer -/

/-- The script of two ranges between their common start and their common end. -/
def conquerMiddle (a b : Array α) (fuel : Nat) (rows : Rows) (ra rb : Range) : Rows × List Edit :=
  if ra.count = 0 ∧ rb.count = 0 then (rows, [])
  else if rb.count = 0 then (rows, [.delete ra.first ra.count rb.first])
  else if ra.count = 0 then (rows, [.insert ra.first rb.first rb.count])
  else
    match middleSnake? a b ra rb rows with
    | (rows, some (x, y)) =>
      let (rows, left) := conquer a b fuel rows ⟨ra.first, x⟩ ⟨rb.first, y⟩
      let (rows, right) := conquer a b fuel rows ⟨x, ra.past⟩ ⟨y, rb.past⟩
      (rows, left ++ right)
    | (rows, none) =>
      (rows, [.delete ra.first ra.count rb.first, .insert ra.first rb.first rb.count])

theorem conquer_succ (a b : Array α) (fuel : Nat) (rows : Rows) (ra rb : Range) :
    conquer a b (fuel + 1) rows ra rb =
      let p := startCount a b ra.first rb.first (min ra.count rb.count)
      let s := endCount a b ra.past rb.past
        (min (ra.past - (ra.first + p)) (rb.past - (rb.first + p)))
      let middle := conquerMiddle a b fuel rows ⟨ra.first + p, ra.past - s⟩
        ⟨rb.first + p, rb.past - s⟩
      (middle.1, (if p > 0 then [Edit.equal ra.first rb.first p] else []) ++ middle.2 ++
        if s > 0 then [Edit.equal (ra.past - s) (rb.past - s) s] else []) :=
  rfl

/-- Whether a comparison of two ranges leaves wide rows and a script that covers both ranges. -/
def Conquers (a b : Array α) (reach : Nat) (ra rb : Range) (r : Rows × List Edit) : Prop :=
  r.1.Wide reach ∧ Covers a b ra rb r.2

theorem conquerMiddle_conquers (ra rb : Range) (hrows : rows.Wide reach)
    (hreach : (ra.count + rb.count + 1) / 2 + 1 ≤ reach) (ha : ra.first ≤ ra.past)
    (hb : rb.first ≤ rb.past)
    (ih : ∀ rows ra rb, rows.Wide reach → (ra.count + rb.count + 1) / 2 + 1 ≤ reach →
      ra.first ≤ ra.past → rb.first ≤ rb.past →
      Conquers a b reach ra rb (conquer a b fuel rows ra rb)) :
    Conquers a b reach ra rb (conquerMiddle a b fuel rows ra rb) := by
  unfold conquerMiddle
  split
  · rename_i hempty
    unfold Range.count at hempty
    exact ⟨hrows, covers_nil (by omega) (by omega)⟩
  split
  · rename_i hempty
    exact ⟨hrows, covers_delete ha (by unfold Range.count at hempty; omega)⟩
  split
  · rename_i hempty
    exact ⟨hrows, covers_insert (by unfold Range.count at hempty; omega) hb⟩
  obtain ⟨hsplitRows, hsplit⟩ := middleSnake?_within a b hrows hreach (by omega) (by omega)
  split
  · rename_i rows x y heq
    rw [heq] at hsplitRows hsplit
    obtain ⟨⟨hx, hx'⟩, hy, hy'⟩ := hsplit x y rfl
    unfold Range.count at hreach
    obtain ⟨hleftRows, hleft⟩ := ih rows ⟨ra.first, x⟩ ⟨rb.first, y⟩ hsplitRows
      (by unfold Range.count; dsimp only; omega) hx hy
    obtain ⟨hrightRows, hright⟩ := ih _ ⟨x, ra.past⟩ ⟨y, rb.past⟩ hleftRows
      (by unfold Range.count; dsimp only; omega) hx' hy'
    exact ⟨hrightRows, hleft.append hright⟩
  · rename_i rows heq
    rw [heq] at hsplitRows
    exact ⟨hsplitRows, covers_replace ha hb⟩

/-- **The script of two ranges covers them**, whatever the working rows hold. -/
theorem conquer_conquers (a b : Array α) (fuel : Nat) (rows : Rows) (ra rb : Range)
    (hrows : rows.Wide reach) (hreach : (ra.count + rb.count + 1) / 2 + 1 ≤ reach)
    (ha : ra.first ≤ ra.past) (hb : rb.first ≤ rb.past) :
    Conquers a b reach ra rb (conquer a b fuel rows ra rb) := by
  induction fuel generalizing rows ra rb with
  | zero => exact ⟨hrows, covers_replace ha hb⟩
  | succ fuel ih =>
    rw [conquer_succ]
    dsimp only
    obtain ⟨hp, hstart⟩ := startCount_agree a b ra.first rb.first (min ra.count rb.count)
    generalize startCount a b ra.first rb.first (min ra.count rb.count) = p at *
    obtain ⟨hs, -, -, hend⟩ := endCount_agree a b ra.past rb.past
      (min (ra.past - (ra.first + p)) (rb.past - (rb.first + p)))
    generalize endCount a b ra.past rb.past
      (min (ra.past - (ra.first + p)) (rb.past - (rb.first + p))) = s at *
    unfold Range.count at hp hreach
    obtain ⟨hmiddleRows, hmiddle⟩ := conquerMiddle_conquers ⟨ra.first + p, ra.past - s⟩
      ⟨rb.first + p, rb.past - s⟩ hrows (by unfold Range.count; dsimp only; omega)
      (by dsimp only; omega) (by dsimp only; omega) ih
    have htail := covers_equal hend
    rw [Nat.sub_add_cancel (by omega), Nat.sub_add_cancel (by omega)] at htail
    exact ⟨hmiddleRows, ((covers_equal hstart).append hmiddle).append htail⟩

/-! ## The script of two arrays -/

theorem plainScript_sound (a b : Array α) : Sound a b 0 0 (plainScript a b) := by
  have hrow : Row.Wide ((a.size + b.size + 1) / 2 + 1) ⟨Array.replicate _ 0, _⟩ :=
    ⟨rfl, Array.size_replicate⟩
  exact (conquer_conquers a b _ (.ofSizes a.size b.size) ⟨0, a.size⟩ ⟨0, b.size⟩ ⟨hrow, hrow⟩
    (Nat.le_refl _) (Nat.zero_le _) (Nat.zero_le _)).2.sound

/-- **The equal runs of a tidy script are an alignment**, of arrays of any size. -/
theorem script_isAlignment (a b : Array α) :
    IsAlignment a.toList b.toList 0 0 (equalPairs (script a b)) :=
  joinRuns_isAlignment waiting_none waiting_none waiting_none
    (compact_sound (plainScript_sound a b))

end CellReview.Diff
