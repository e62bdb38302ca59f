import CellReview.Diff.Alignment

/-!
# Longest common subsequences

The length of a longest common subsequence by recursion on the heads of two lists, and
what it stands for.

* `LongestCommon` — a length that a common subsequence has and none exceeds;
* `commonLength` — the recursion;
* `length_le_commonLength` — **no common subsequence is longer**;
* `commonLength_append_left` — a common start counts in full.
-/

namespace CellReview.Diff

variable {α : Type}

/-- `n` is the length of a longest common subsequence of two lists. -/
structure LongestCommon (a b : List α) (n : Nat) : Prop where
  attained : ∃ c : List α, c.Sublist a ∧ c.Sublist b ∧ c.length = n
  greatest : ∀ c : List α, c.Sublist a → c.Sublist b → c.length ≤ n

theorem LongestCommon.symm {a b : List α} {n : Nat} (h : LongestCommon a b n) :
    LongestCommon b a n where
  attained := by
    obtain ⟨c, ha, hb, hlength⟩ := h.attained
    exact ⟨c, hb, ha, hlength⟩
  greatest c hb ha := h.greatest c ha hb

/-- Two lists have one length of longest common subsequences. -/
theorem LongestCommon.unique {a b : List α} {m n : Nat} (hm : LongestCommon a b m)
    (hn : LongestCommon a b n) : m = n := by
  obtain ⟨c, hca, hcb, hc⟩ := hm.attained
  obtain ⟨d, hda, hdb, hd⟩ := hn.attained
  have hmn := hn.greatest c hca hcb
  have hnm := hm.greatest d hda hdb
  omega

/-- A longest common subsequence that leaves nothing out makes the lists equal. -/
theorem LongestCommon.eq_of_length {a b : List α} {n : Nat} (h : LongestCommon a b n)
    (ha : a.length = n) (hb : b.length = n) : a = b := by
  obtain ⟨c, hca, hcb, hlength⟩ := h.attained
  rw [← hca.eq_of_length (hlength.trans ha.symm), ← hcb.eq_of_length (hlength.trans hb.symm)]

variable [BEq α]

/-- The length of a longest common subsequence. -/
def commonLength : List α → List α → Nat
  | [], _ => 0
  | _ :: _, [] => 0
  | x :: a, y :: b =>
    if x == y then commonLength a b + 1
    else max (commonLength a (y :: b)) (commonLength (x :: a) b)
termination_by a b => a.length + b.length

theorem commonLength_nil_left (b : List α) : commonLength [] b = 0 := by
  rw [commonLength]

theorem commonLength_nil_right (a : List α) : commonLength a [] = 0 := by
  cases a with
  | nil => rw [commonLength]
  | cons x a => rw [commonLength]

theorem commonLength_cons_of_eq {x y : α} (h : (x == y) = true) (a b : List α) :
    commonLength (x :: a) (y :: b) = commonLength a b + 1 := by
  rw [commonLength, if_pos h]

theorem commonLength_cons_of_ne {x y : α} (h : (x == y) = false) (a b : List α) :
    commonLength (x :: a) (y :: b) =
      max (commonLength a (y :: b)) (commonLength (x :: a) b) := by
  rw [commonLength, if_neg (by simp [h])]

variable [LawfulBEq α]

/-- A common start counts in full. -/
theorem commonLength_append_left (start a b : List α) :
    commonLength (start ++ a) (start ++ b) = start.length + commonLength a b := by
  induction start with
  | nil => simp
  | cons x start ih =>
    rw [List.cons_append, List.cons_append, commonLength_cons_of_eq (beq_self_eq_true x), ih,
      List.length_cons]
    omega

/-- No common subsequence is longer. -/
theorem length_le_commonLength (a b : List α) :
    ∀ c : List α, c.Sublist a → c.Sublist b → c.length ≤ commonLength a b := by
  fun_induction commonLength a b with
  | case1 b =>
    intro c ha _
    rw [List.sublist_nil.1 ha]
    exact Nat.le_refl 0
  | case2 x a =>
    intro c _ hb
    rw [List.sublist_nil.1 hb]
    exact Nat.le_refl 0
  | case3 x a y b hxy ih =>
    intro c ha hb
    -- without its head, the subsequence is one of both tails
    have htail := ih c.tail ha.tail hb.tail
    rw [List.length_tail] at htail
    omega
  | case4 x a y b hxy ihleft ihright =>
    intro c ha hb
    cases ha with
    | cons _ ha => exact Nat.le_trans (ihleft c ha hb) (Nat.le_max_left ..)
    | cons_cons _ ha =>
      cases hb with
      | cons _ hb => exact Nat.le_trans (ihright _ (ha.cons_cons x) hb) (Nat.le_max_right ..)
      | cons_cons _ hb => exact absurd (beq_self_eq_true x) hxy

end CellReview.Diff
