import CellReview.Diff.Compact
import CellReview.Proofs.Diff.Matches

/-!
# Sound edit scripts

A script is sound when its runs stand one behind the other: an equal run is where the runs
before it end and pairs equal elements, and an inserted run takes the new elements that are
due.  The equal runs of a sound script are an alignment.

* `Agree` — as many elements of two arrays agree from two indices on;
* `startCount_agree`, `endCount_agree` — the counts of equal elements at both ends;
* `Stands`, `Sound` — a run at its place, and a script;
* `sound_append`, `Sound.exchange` — a script in parts;
* `Sound.append_isAlignment` — **the equal runs of a sound script are an alignment**.
-/

namespace CellReview.Diff

variable {α : Type} [BEq α] {a b : Array α} {i j m n : Nat}

/-! ## Elements that agree -/

/-- The `n` elements from `i` and from `j` on are equal, pair by pair. -/
def Agree (a b : Array α) (i j n : Nat) : Prop :=
  ∀ k < n, same a b (i + k) (j + k) = true

theorem agree_zero : Agree a b i j 0 :=
  fun k hk => absurd hk (Nat.not_lt_zero k)

theorem agree_add : Agree a b i j (m + n) ↔ Agree a b i j m ∧ Agree a b (i + m) (j + m) n := by
  constructor
  · intro h
    refine ⟨fun k hk => h k (by omega), fun k hk => ?_⟩
    rw [Nat.add_assoc, Nat.add_assoc]
    exact h (m + k) (by omega)
  · rintro ⟨hfirst, hsecond⟩ k hk
    by_cases hm : k < m
    · exact hfirst k hm
    · obtain ⟨l, rfl⟩ := Nat.exists_eq_add_of_le (Nat.not_lt.1 hm)
      rw [← Nat.add_assoc, ← Nat.add_assoc]
      exact hsecond l (by omega)

theorem agree_one : Agree a b i j 1 ↔ same a b i j = true := by
  refine ⟨fun h => h 0 Nat.one_pos, fun h k hk => ?_⟩
  obtain rfl : k = 0 := by omega
  exact h

theorem Agree.mono (h : Agree a b i j n) (hm : m ≤ n) : Agree a b i j m :=
  fun k hk => h k (Nat.lt_of_lt_of_le hk hm)

theorem startCount_zero (a b : Array α) (i j : Nat) : startCount a b i j 0 = 0 := rfl

/-- The count goes on as long as elements are the same. -/
theorem startCount_succ (a b : Array α) (i j count : Nat) :
    startCount a b i j (count + 1) =
      if same a b i j = true then startCount a b (i + 1) (j + 1) count + 1 else 0 := by
  by_cases hin : i < a.size ∧ j < b.size
  · rw [same_eq hin.1 hin.2]
    exact dif_pos hin
  · rw [same, dif_neg hin]
    exact dif_neg hin

/-- The elements that are counted from two indices on agree. -/
theorem startCount_agree (a b : Array α) (i j count : Nat) :
    startCount a b i j count ≤ count ∧ Agree a b i j (startCount a b i j count) := by
  induction count generalizing i j with
  | zero => exact ⟨Nat.le_refl 0, agree_zero⟩
  | succ count ih =>
    rw [startCount_succ]
    split
    · rename_i hsame
      obtain ⟨hcount, hagree⟩ := ih (i + 1) (j + 1)
      rw [Nat.add_comm _ 1]
      exact ⟨by omega, agree_add.2 ⟨agree_one.2 hsame, hagree⟩⟩
    · exact ⟨Nat.zero_le _, agree_zero⟩

/-- The elements that are counted up to two indices agree. -/
theorem endCount_agree (a b : Array α) (i j count : Nat) :
    let n := endCount a b i j count
    n ≤ count ∧ n ≤ i ∧ n ≤ j ∧ Agree a b (i - n) (j - n) n := by
  fun_induction endCount a b i j count with
  | case1 i j => exact ⟨Nat.le_refl 0, Nat.zero_le i, Nat.zero_le j, agree_zero⟩
  | case2 i j count hin heq ih =>
    obtain ⟨hcount, hi, hj, hagree⟩ := ih
    obtain ⟨hi0, hj0, hia, hjb⟩ := hin
    refine ⟨by omega, by omega, by omega, agree_add.2 ⟨?_, ?_⟩⟩
    · rwa [Nat.sub_sub, Nat.sub_sub, Nat.add_comm 1] at hagree
    · have hlast : same a b (i - 1) (j - 1) = true := by
        rw [same_eq (by omega) (by omega), heq]
      refine agree_one.2 ?_
      rwa [Nat.sub_add_eq, Nat.sub_right_comm, Nat.sub_add_cancel hi, Nat.sub_add_eq,
        Nat.sub_right_comm, Nat.sub_add_cancel hj]
  | case3 i j count hin hne => exact ⟨Nat.zero_le _, Nat.zero_le i, Nat.zero_le j, agree_zero⟩
  | case4 i j count hout => exact ⟨Nat.zero_le _, Nat.zero_le i, Nat.zero_le j, agree_zero⟩

/-! ## Runs at their places -/

/-- A run at its place `(i, j)`.  Where a deleted run stands in the old array, and an inserted
one, is not asked: it does not matter for what is equal. -/
inductive Stands (a b : Array α) (i j : Nat) : Edit → Prop where
  | equal {n : Nat} (hagree : Agree a b i j n) : Stands a b i j (.equal i j n)
  | delete (old count new : Nat) : Stands a b i j (.delete old count new)
  | insert (old count : Nat) : Stands a b i j (.insert old j count)

theorem stands_equal_iff {p q : Nat} :
    Stands a b i j (.equal p q n) ↔ p = i ∧ q = j ∧ Agree a b i j n := by
  constructor
  · intro h
    cases h with
    | equal hagree => exact ⟨rfl, rfl, hagree⟩
  · rintro ⟨rfl, rfl, hagree⟩
    exact .equal hagree

theorem stands_insert_iff {q : Nat} : Stands a b i j (.insert m q n) ↔ q = j := by
  constructor
  · intro h
    cases h with
    | insert => rfl
  · rintro rfl
    exact .insert m n

/-- A run of equal elements is known by its kind. -/
theorem Stands.eq_equal {e : Edit} (h : Stands a b i j e) (hkind : e.kind = .equal) :
    ∃ n, e = .equal i j n ∧ Agree a b i j n := by
  cases h with
  | equal hagree => exact ⟨_, rfl, hagree⟩
  | delete => cases hkind
  | insert => cases hkind

/-- Two runs of one kind, one behind the other, are a run of that kind. -/
theorem Stands.absorb {e next : Edit} (h : Stands a b i j e)
    (hnext : Stands a b (i + e.oldCount) (j + e.newCount) next) (hkind : e.kind = next.kind) :
    Stands a b i j (e.absorb next) := by
  cases h with
  | equal hagree =>
    cases hnext with
    | equal hagree' => exact .equal (agree_add.2 ⟨hagree, hagree'⟩)
    | delete => cases hkind
    | insert => cases hkind
  | delete old count new =>
    cases hnext with
    | equal => cases hkind
    | delete _ count' => exact .delete old (count + count') new
    | insert => cases hkind
  | insert old count =>
    cases hnext with
    | equal => cases hkind
    | delete => cases hkind
    | insert _ count' => exact .insert old (count + count')

/-- The runs of a script stand one behind the other, the first one at `(i, j)`. -/
def Sound (a b : Array α) : Nat → Nat → List Edit → Prop
  | _, _, [] => True
  | i, j, e :: rest => Stands a b i j e ∧ Sound a b (i + e.oldCount) (j + e.newCount) rest

theorem sound_equal_cons {p q : Nat} {rest : List Edit} :
    Sound a b i j (.equal p q n :: rest) ↔
      p = i ∧ q = j ∧ Agree a b i j n ∧ Sound a b (i + n) (j + n) rest := by
  rw [Sound, stands_equal_iff, and_assoc, and_assoc]
  rfl

theorem sound_insert_cons {q : Nat} {rest : List Edit} :
    Sound a b i j (.insert m q n :: rest) ↔ q = j ∧ Sound a b i (j + n) rest := by
  rw [Sound, stands_insert_iff]
  rfl

/-- The sum of a count over the runs of a script: of the old elements that they cover, or of the
new ones. -/
def total (count : Edit → Nat) : List Edit → Nat
  | [] => 0
  | e :: rest => count e + total count rest

theorem total_append (count : Edit → Nat) (first second : List Edit) :
    total count (first ++ second) = total count first + total count second := by
  induction first with
  | nil => exact (Nat.zero_add _).symm
  | cons e first ih => rw [List.cons_append, total, total, ih, Nat.add_assoc]

theorem sound_append {first second : List Edit} :
    Sound a b i j (first ++ second) ↔
      Sound a b i j first ∧
        Sound a b (i + total Edit.oldCount first) (j + total Edit.newCount first) second := by
  induction first generalizing i j with
  | nil => simp [Sound, total]
  | cons e first ih =>
    simp only [List.cons_append, Sound, ih, total, Nat.add_assoc, and_assoc]

/-- The end of a script may be exchanged for one that is sound at the same place. -/
theorem Sound.exchange (first : List Edit) {second second' : List Edit}
    (h : Sound a b i j (first ++ second))
    (hsecond : ∀ i j, Sound a b i j second → Sound a b i j second') :
    Sound a b i j (first ++ second') := by
  obtain ⟨hfirst, hrest⟩ := sound_append.1 h
  exact sound_append.2 ⟨hfirst, hsecond _ _ hrest⟩

/-! ## The equal runs -/

/-- The pairs of equal elements stand in front of an alignment behind these. -/
theorem IsAlignment.agree_append {pairs : List (Nat × Nat)}
    (h : IsAlignment a.toList b.toList (i + n) (j + n) pairs) (hagree : Agree a b i j n) :
    IsAlignment a.toList b.toList i j
      ((List.range n).map (fun k => (i + k, j + k)) ++ pairs) := by
  induction n generalizing pairs with
  | zero => exact h
  | succ n ih =>
    obtain ⟨x, y, hx, hy, hxy⟩ := same_iff.1 (hagree n (Nat.lt_succ_self n))
    rw [List.range_succ, List.map_append, List.append_assoc]
    exact ih (.cons (Nat.le_refl _) (Nat.le_refl _) hx hy hxy h)
      (hagree.mono (Nat.le_succ n))

theorem equalPairs_append (first second : List Edit) :
    equalPairs (first ++ second) = equalPairs first ++ equalPairs second :=
  List.flatMap_append

/-- **The equal runs of a sound script are an alignment**, with any alignment behind it. -/
theorem Sound.append_isAlignment {edits : List Edit} {pairs : List (Nat × Nat)}
    (h : Sound a b i j edits)
    (hpairs : IsAlignment a.toList b.toList (i + total Edit.oldCount edits)
      (j + total Edit.newCount edits) pairs) :
    IsAlignment a.toList b.toList i j (equalPairs edits ++ pairs) := by
  induction edits generalizing i j with
  | nil => exact hpairs
  | cons e rest ih =>
    obtain ⟨hstands, hrest⟩ := h
    have htail := ih hrest (by simpa only [total, Nat.add_assoc] using hpairs)
    rw [equalPairs, List.flatMap_cons, List.append_assoc]
    cases hstands with
    | equal hagree => exact htail.agree_append hagree
    | delete old count new => exact htail.mono (Nat.le_add_right ..) (Nat.le_add_right ..)
    | insert old count => exact htail.mono (Nat.le_add_right ..) (Nat.le_add_right ..)

end CellReview.Diff
