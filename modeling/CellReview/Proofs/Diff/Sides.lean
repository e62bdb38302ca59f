import CellReview.Proofs.Diff.Listing
import Mathlib.Data.List.Chain

/-!
# The list keeps both sides

Along an alignment the list of a difference loses and invents nothing: the lines with an old
number are the old lines, numbered from one, and those with a new number are the new lines.
A line carries the numbers that its kind says, and in a changed block the deleted lines stand
before the inserted ones.

* `Entry.onOld`, `Entry.onNew` — a line with its number on a side that has it;
* `Entry.Carries` — the numbers that go with a kind;
* `IsAlignment.filterMap_onOld`, `IsAlignment.filterMap_onNew` — **the sides of the list are
  the lines, numbered**;
* `IsAlignment.carries`, `IsAlignment.isChain_inOrder` — the numbers and the order of the kinds;
* `UnifiedDiff.beforeText_eq`, `UnifiedDiff.afterText_eq` — the texts of the sides.
-/

namespace CellReview.Diff

variable {old new : List String} {i j p q : Nat} {x y : String} {pairs rest : List (Nat × Nat)}

/-! ## Sides of a listed line -/

namespace Entry

/-- The content of a line with its number on the old side, if it is there. -/
def onOld (e : Entry) : Option (String × Nat) :=
  e.oldLine.map fun n => (e.content, n)

/-- The content of a line with its number on the new side, if it is there. -/
def onNew (e : Entry) : Option (String × Nat) :=
  e.newLine.map fun n => (e.content, n)

theorem onOld_unchanged (s : String) (i j : Nat) : (unchanged s i j).onOld = some (s, i + 1) := rfl

theorem onOld_deleted (s : String) (i : Nat) : (deleted s i).onOld = some (s, i + 1) := rfl

theorem onOld_inserted (s : String) (j : Nat) : (inserted s j).onOld = none := rfl

theorem onNew_unchanged (s : String) (i j : Nat) : (unchanged s i j).onNew = some (s, j + 1) := rfl

theorem onNew_deleted (s : String) (i : Nat) : (deleted s i).onNew = none := rfl

theorem onNew_inserted (s : String) (j : Nat) : (inserted s j).onNew = some (s, j + 1) := rfl

/-- Whether a line carries the numbers that go with its kind. -/
def Carries (e : Entry) : Prop :=
  match e.kind with
  | .unchanged => e.oldLine.isSome ∧ e.newLine.isSome
  | .deleted => e.oldLine.isSome ∧ e.newLine = none
  | .inserted => e.oldLine = none ∧ e.newLine.isSome

/-- Whether a line may stand directly before another one. -/
def InOrder (e next : Entry) : Prop :=
  e.kind = .inserted → next.kind ≠ .deleted

theorem inOrder_of_left {e : Entry} (h : e.kind ≠ .inserted) (next : Entry) : e.InOrder next :=
  fun hkind => absurd hkind h

theorem inOrder_of_right (e : Entry) {next : Entry} (h : next.kind ≠ .deleted) : e.InOrder next :=
  fun _ => h

theorem Carries.isSome_oldLine {e : Entry} (h : e.Carries) :
    e.oldLine.isSome = (e.kind == .unchanged || e.kind == .deleted) := by
  unfold Carries at h
  cases hkind : e.kind with
  | unchanged =>
    rw [hkind] at h
    exact h.1
  | deleted =>
    rw [hkind] at h
    exact h.1
  | inserted =>
    rw [hkind] at h
    rw [h.1]
    rfl

theorem Carries.isSome_newLine {e : Entry} (h : e.Carries) :
    e.newLine.isSome = (e.kind == .unchanged || e.kind == .inserted) := by
  unfold Carries at h
  cases hkind : e.kind with
  | unchanged =>
    rw [hkind] at h
    exact h.2
  | deleted =>
    rw [hkind] at h
    rw [h.2]
    rfl
  | inserted =>
    rw [hkind] at h
    exact h.2

/-- A line that was not inserted has a number on the old side. -/
theorem Carries.exists_oldLine {e : Entry} (h : e.Carries) (hkind : e.kind ≠ .inserted) :
    ∃ n, e.oldLine = some n := by
  rw [← Option.isSome_iff_exists, h.isSome_oldLine]
  cases hother : e.kind with
  | inserted => exact absurd hother hkind
  | _ => rfl

/-- A line that was not deleted has a number on the new side. -/
theorem Carries.exists_newLine {e : Entry} (h : e.Carries) (hkind : e.kind ≠ .deleted) :
    ∃ n, e.newLine = some n := by
  rw [← Option.isSome_iff_exists, h.isSome_newLine]
  cases hother : e.kind with
  | deleted => exact absurd hother hkind
  | _ => rfl

end Entry

/-! ## Runs and blocks -/

theorem exists_of_mem_run {entry : String → Nat → Entry} {lines : List String} {e : Entry}
    (h : e ∈ run entry i lines) : ∃ s k, e = entry s k := by
  obtain ⟨k, hk, rfl⟩ := List.mem_mapIdx.1 h
  exact ⟨_, _, rfl⟩

theorem filterMap_run {f : Entry → Option (String × Nat)} {entry : String → Nat → Entry}
    (h : ∀ s k, f (entry s k) = some (s, k + 1)) (i : Nat) (lines : List String) :
    (run entry i lines).filterMap f = lines.zipIdx (i + 1) := by
  induction lines generalizing i with
  | nil => rfl
  | cons x lines ih => rw [run_cons, List.filterMap_cons_some (h x i), ih, List.zipIdx_cons]

theorem filterMap_run_of_none {f : Entry → Option (String × Nat)}
    {entry : String → Nat → Entry} (h : ∀ s k, f (entry s k) = none) (i : Nat)
    (lines : List String) : (run entry i lines).filterMap f = [] := by
  rw [List.filterMap_eq_nil_iff]
  intro e he
  obtain ⟨s, k, rfl⟩ := exists_of_mem_run he
  exact h s k

theorem deletions_eq_run (i : Nat) (lines : List String) :
    deletions i lines = run Entry.deleted i lines := rfl

theorem insertions_eq_run (j : Nat) (lines : List String) :
    insertions j lines = run Entry.inserted j lines := rfl

/-- The old side of the changed lines of a block. -/
theorem filterMap_onOld_block (i j : Nat) (olds news : List String) :
    (deletions i olds ++ insertions j news).filterMap Entry.onOld = olds.zipIdx (i + 1) := by
  rw [List.filterMap_append, deletions_eq_run, insertions_eq_run,
    filterMap_run Entry.onOld_deleted, filterMap_run_of_none Entry.onOld_inserted,
    List.append_nil]

/-- The new side of the changed lines of a block. -/
theorem filterMap_onNew_block (i j : Nat) (olds news : List String) :
    (deletions i olds ++ insertions j news).filterMap Entry.onNew = news.zipIdx (j + 1) := by
  rw [List.filterMap_append, deletions_eq_run, insertions_eq_run,
    filterMap_run_of_none Entry.onNew_deleted, filterMap_run Entry.onNew_inserted,
    List.nil_append]

theorem carries_of_mem_block {olds news : List String} {e : Entry}
    (h : e ∈ deletions i olds ++ insertions j news) : e.Carries := by
  rcases List.mem_append.1 h with h | h
  · obtain ⟨s, k, rfl⟩ := exists_of_mem_run h
    exact ⟨rfl, rfl⟩
  · obtain ⟨s, k, rfl⟩ := exists_of_mem_run h
    exact ⟨rfl, rfl⟩

/-- In a block no deleted line stands behind an inserted one. -/
theorem isChain_block (i j : Nat) (olds news : List String) :
    (deletions i olds ++ insertions j news).IsChain Entry.InOrder := by
  refine List.Pairwise.isChain (List.pairwise_append.2 ⟨?_, ?_, ?_⟩)
  · refine List.pairwise_of_forall_mem_list fun e he next _ => ?_
    obtain ⟨s, k, rfl⟩ := exists_of_mem_run he
    exact Entry.inOrder_of_left (by simp [Entry.deleted]) next
  · refine List.pairwise_of_forall_mem_list fun e _ next hnext => ?_
    obtain ⟨s, k, rfl⟩ := exists_of_mem_run hnext
    exact Entry.inOrder_of_right _ (by simp [Entry.inserted])
  · intro e he next _
    obtain ⟨s, k, rfl⟩ := exists_of_mem_run he
    exact Entry.inOrder_of_left (by simp [Entry.deleted]) next

/-! ## Along an alignment -/

theorem drop_eq_take_append {l : List String} (hi : i ≤ p) (hx : l[p]? = some x) :
    l.drop i = (l.drop i).take (p - i) ++ x :: l.drop (p + 1) := by
  rw [← drop_eq_cons_of_getElem? hx, ← Nat.add_sub_cancel' hi, ← List.drop_drop,
    Nat.add_sub_cancel_left, List.take_append_drop]

/-- The numbers of a list go on behind the lines in front of one of them. -/
theorem zipIdx_drop {l : List String} (hi : i ≤ p) (hx : l[p]? = some x) :
    (l.drop i).zipIdx (i + 1) =
      ((l.drop i).take (p - i)).zipIdx (i + 1) ++
        (x, p + 1) :: (l.drop (p + 1)).zipIdx (p + 2) := by
  obtain ⟨hp, -⟩ := List.getElem?_eq_some_iff.1 hx
  have hlength : i + 1 + ((l.drop i).take (p - i)).length = p + 1 := by
    rw [List.length_take, List.length_drop]
    omega
  conv_lhs => rw [drop_eq_take_append hi hx]
  rw [List.zipIdx_append, hlength, List.zipIdx_cons]

namespace IsAlignment

/-- **The old side of the list is the old lines, numbered.** -/
theorem filterMap_onOld (h : IsAlignment old new i j pairs) :
    (entries i j (old.drop i) (new.drop j) pairs).filterMap Entry.onOld =
      (old.drop i).zipIdx (i + 1) := by
  induction h with
  | nil i j => exact filterMap_onOld_block i j _ _
  | cons hi hj hx hy same tail ih =>
    rw [entries_cons hi hj hx hy, List.filterMap_append, filterMap_onOld_block,
      List.filterMap_cons_some (Entry.onOld_unchanged _ _ _), ih, zipIdx_drop hi hx]

/-- **The new side of the list is the new lines, numbered.**  An unchanged line has the content
of its old partner, and that is the same. -/
theorem filterMap_onNew (h : IsAlignment old new i j pairs) :
    (entries i j (old.drop i) (new.drop j) pairs).filterMap Entry.onNew =
      (new.drop j).zipIdx (j + 1) := by
  induction h with
  | nil i j => exact filterMap_onNew_block i j _ _
  | cons hi hj hx hy same tail ih =>
    rw [entries_cons hi hj hx hy, List.filterMap_append, filterMap_onNew_block,
      List.filterMap_cons_some (Entry.onNew_unchanged _ _ _), ih, zipIdx_drop hj hy,
      eq_of_beq same]

/-- Every line of the list carries the numbers that go with its kind. -/
theorem carries (h : IsAlignment old new i j pairs) :
    ∀ e ∈ entries i j (old.drop i) (new.drop j) pairs, e.Carries := by
  induction h with
  | nil i j => exact fun e he => carries_of_mem_block he
  | cons hi hj hx hy same tail ih =>
    intro e he
    rw [entries_cons hi hj hx hy] at he
    rcases List.mem_append.1 he with he | he
    · exact carries_of_mem_block he
    · rcases List.mem_cons.1 he with rfl | he
      · exact ⟨rfl, rfl⟩
      · exact ih e he

/-- No inserted line of the list stands directly before a deleted one. -/
theorem isChain_inOrder (h : IsAlignment old new i j pairs) :
    (entries i j (old.drop i) (new.drop j) pairs).IsChain Entry.InOrder := by
  induction h with
  | nil i j => exact isChain_block i j _ _
  | @cons i j p q x y rest hi hj hx hy same tail ih =>
    rw [entries_cons hi hj hx hy]
    -- the unchanged line keeps the block apart from what follows
    refine (isChain_block i j _ _).append (ih.cons fun next _ => ?_) fun e _ next hnext => ?_
    · exact Entry.inOrder_of_left (by simp [Entry.unchanged]) next
    · obtain rfl : Entry.unchanged x p q = next := by simpa using hnext
      exact Entry.inOrder_of_right _ (by simp [Entry.unchanged])

end IsAlignment

/-! ## The texts of the sides -/

/-- The contents of the lines that are on a side are the first components of the side. -/
theorem map_content_filter (number : Entry → Option Nat) (lines : List Entry) :
    (lines.filter fun e => (number e).isSome).map Entry.content =
      (lines.filterMap fun e => (number e).map fun n => (e.content, n)).map Prod.fst := by
  induction lines with
  | nil => rfl
  | cons e lines ih =>
    cases hnumber : number e with
    | none => simp [hnumber, ih]
    | some n => simp [hnumber, ih]

namespace UnifiedDiff

variable {d : UnifiedDiff} (hcarries : ∀ e ∈ d.lines, e.Carries)
include hcarries

/-- The old side is the text of the lines with an old number. -/
theorem beforeText_eq :
    d.beforeText = Text.joinLines ((d.lines.filterMap Entry.onOld).map Prod.fst) := by
  have hfilter : (d.lines.filter fun e => e.kind == .unchanged || e.kind == .deleted) =
      d.lines.filter fun e => e.oldLine.isSome :=
    List.filter_congr fun e he => (hcarries e he).isSome_oldLine.symm
  rw [beforeText, side, hfilter, map_content_filter Entry.oldLine]
  rfl

/-- The new side is the text of the lines with a new number. -/
theorem afterText_eq :
    d.afterText = Text.joinLines ((d.lines.filterMap Entry.onNew).map Prod.fst) := by
  have hfilter : (d.lines.filter fun e => e.kind == .unchanged || e.kind == .inserted) =
      d.lines.filter fun e => e.newLine.isSome :=
    List.filter_congr fun e he => (hcarries e he).isSome_newLine.symm
  rw [afterText, side, hfilter, map_content_filter Entry.newLine]
  rfl

end UnifiedDiff

end CellReview.Diff
