import CellReview.Proofs.Diff.Matches

/-!
# The list along an alignment

Along an alignment the list of a difference has one unchanged line for a pair; the lines of
the old side without a partner are listed as deleted and those of the new side as inserted.
So the three counts of the list follow from the number of pairs alone.

* `run`, `entries_cons` — the list, block after block;
* `countP_run`, `countP_entries_cons` — the kinds in a run of lines and in a block;
* `IsAlignment.countP_unchanged`, `IsAlignment.countP_deleted`,
  `IsAlignment.countP_inserted` — the kinds in the whole list;
* `UnifiedDiff.isUnchanged_iff` — a list without deleted and inserted lines.
-/

namespace CellReview.Diff

variable {old new : List String} {i j p q : Nat} {x y : String} {pairs rest : List (Nat × Nat)}

/-! ## Block after block -/

/-- A run of lines of one kind, with their places from an index on; `deletions` and
`insertions` are such runs. -/
def run (entry : String → Nat → Entry) (i : Nat) (lines : List String) : List Entry :=
  lines.mapIdx fun k s => entry s (i + k)

theorem run_cons (entry : String → Nat → Entry) (i : Nat) (x : String) (lines : List String) :
    run entry i (x :: lines) = entry x i :: run entry (i + 1) lines := by
  rw [run, List.mapIdx_cons, run]
  congr 2
  funext k s
  rw [Nat.add_comm k 1, Nat.add_assoc]

/-- The block that the pair `(p, q)` ends, and the list behind it. -/
theorem entries_cons (hi : i ≤ p) (hj : j ≤ q) (hx : old[p]? = some x) (hy : new[q]? = some y) :
    entries i j (old.drop i) (new.drop j) ((p, q) :: rest) =
      deletions i ((old.drop i).take (p - i)) ++ insertions j ((new.drop j).take (q - j)) ++
        Entry.unchanged x p q ::
          entries (p + 1) (q + 1) (old.drop (p + 1)) (new.drop (q + 1)) rest := by
  have hold : (old.drop i).drop (p - i) = x :: old.drop (p + 1) := by
    rw [List.drop_drop, Nat.add_sub_cancel' hi]
    exact drop_eq_cons_of_getElem? hx
  have hnew : (new.drop j).drop (q - j) = y :: new.drop (q + 1) := by
    rw [List.drop_drop, Nat.add_sub_cancel' hj]
    exact drop_eq_cons_of_getElem? hy
  rw [entries, hold, hnew]

/-! ## The kinds in a block -/

theorem countP_run (entry : String → Nat → Entry) (runKind : LineKind)
    (hentry : ∀ s i, (entry s i).kind = runKind) (kind : LineKind) (i : Nat)
    (lines : List String) :
    (run entry i lines).countP (fun e => e.kind == kind) =
      if kind = runKind then lines.length else 0 := by
  induction lines generalizing i with
  | nil => split <;> rfl
  | cons x lines ih =>
    rw [run_cons, List.countP_cons, ih, hentry]
    cases kind <;> cases runKind <;> rfl

theorem countP_deletions (kind : LineKind) (i : Nat) (lines : List String) :
    (deletions i lines).countP (fun e => e.kind == kind) =
      if kind = .deleted then lines.length else 0 :=
  countP_run Entry.deleted .deleted (fun _ _ => rfl) kind i lines

theorem countP_insertions (kind : LineKind) (j : Nat) (lines : List String) :
    (insertions j lines).countP (fun e => e.kind == kind) =
      if kind = .inserted then lines.length else 0 :=
  countP_run Entry.inserted .inserted (fun _ _ => rfl) kind j lines

/-- The kinds in a block and behind it. -/
theorem countP_entries_cons (kind : LineKind) (rest : List (Nat × Nat)) (hi : i ≤ p) (hj : j ≤ q)
    (hx : old[p]? = some x) (hy : new[q]? = some y) :
    (entries i j (old.drop i) (new.drop j) ((p, q) :: rest)).countP (fun e => e.kind == kind) =
      (if kind = .deleted then p - i else 0) + (if kind = .inserted then q - j else 0) +
        ((entries (p + 1) (q + 1) (old.drop (p + 1)) (new.drop (q + 1)) rest).countP
          (fun e => e.kind == kind) + if kind = .unchanged then 1 else 0) := by
  obtain ⟨hp, -⟩ := List.getElem?_eq_some_iff.1 hx
  obtain ⟨hq, -⟩ := List.getElem?_eq_some_iff.1 hy
  have hdeleted : ((old.drop i).take (p - i)).length = p - i := by
    rw [List.length_take, List.length_drop]
    omega
  have hinserted : ((new.drop j).take (q - j)).length = q - j := by
    rw [List.length_take, List.length_drop]
    omega
  rw [entries_cons hi hj hx hy, List.countP_append, List.countP_append, List.countP_cons,
    countP_deletions, countP_insertions, hdeleted, hinserted]
  cases kind <;> rfl

/-! ## The kinds in the list -/

/-- Every pair of an alignment is one unchanged line. -/
theorem IsAlignment.countP_unchanged (h : IsAlignment old new i j pairs) :
    (entries i j (old.drop i) (new.drop j) pairs).countP (fun e => e.kind == .unchanged) =
      pairs.length := by
  induction h with
  | nil i j => rw [entries, List.countP_append, countP_deletions, countP_insertions]; rfl
  | cons hi hj hx hy same tail ih =>
    rw [countP_entries_cons _ _ hi hj hx hy, ih, List.length_cons]
    exact Nat.zero_add _

/-- The old lines without a partner are listed as deleted. -/
theorem IsAlignment.countP_deleted (h : IsAlignment old new i j pairs) :
    (entries i j (old.drop i) (new.drop j) pairs).countP (fun e => e.kind == .deleted) +
      pairs.length = (old.drop i).length := by
  induction h with
  | nil i j => rw [entries, List.countP_append, countP_deletions, countP_insertions]; rfl
  | @cons i j p q x y rest hi hj hx hy same tail ih =>
    obtain ⟨hp, -⟩ := List.getElem?_eq_some_iff.1 hx
    have hstep := countP_entries_cons .deleted rest hi hj hx hy
    simp only [if_pos, reduceCtorEq, if_false] at hstep
    rw [List.length_drop] at ih ⊢
    rw [List.length_cons, hstep]
    omega

/-- The new lines without a partner are listed as inserted. -/
theorem IsAlignment.countP_inserted (h : IsAlignment old new i j pairs) :
    (entries i j (old.drop i) (new.drop j) pairs).countP (fun e => e.kind == .inserted) +
      pairs.length = (new.drop j).length := by
  induction h with
  | nil i j => rw [entries, List.countP_append, countP_deletions, countP_insertions]; simp
  | @cons i j p q x y rest hi hj hx hy same tail ih =>
    obtain ⟨hq, -⟩ := List.getElem?_eq_some_iff.1 hy
    have hstep := countP_entries_cons .inserted rest hi hj hx hy
    simp only [if_pos, reduceCtorEq, if_false] at hstep
    rw [List.length_drop] at ih ⊢
    rw [List.length_cons, hstep]
    omega

/-! ## The counts of a difference -/

namespace UnifiedDiff

theorem count_eq_countP (d : UnifiedDiff) (kind : LineKind) :
    d.count kind = d.lines.countP fun e => e.kind == kind :=
  (List.countP_eq_length_filter).symm

/-- A list is unchanged when it has no deleted and no inserted line. -/
theorem isUnchanged_iff (d : UnifiedDiff) :
    d.isUnchanged = true ↔ d.deletedCount = 0 ∧ d.insertedCount = 0 := by
  rw [isUnchanged, List.all_eq_true, deletedCount, insertedCount, count_eq_countP, count_eq_countP,
    List.countP_eq_zero, List.countP_eq_zero]
  constructor
  · intro h
    refine ⟨fun e he hkind => ?_, fun e he hkind => ?_⟩
    · exact absurd ((eq_of_beq (h e he)).symm.trans (eq_of_beq hkind)) (by decide)
    · exact absurd ((eq_of_beq (h e he)).symm.trans (eq_of_beq hkind)) (by decide)
  · rintro ⟨hdeleted, hinserted⟩ e he
    have hnotDeleted := hdeleted e he
    have hnotInserted := hinserted e he
    cases hkind : e.kind with
    | unchanged => rfl
    | inserted => exact absurd (by rw [hkind]; rfl) hnotInserted
    | deleted => exact absurd (by rw [hkind]; rfl) hnotDeleted

end UnifiedDiff

end CellReview.Diff
