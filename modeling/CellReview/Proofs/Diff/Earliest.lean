import CellReview.Proofs.Diff.Matches
import Mathlib.Data.List.Forall2

/-!
# The earliest of the longest alignments

Two texts can have several longest alignments.  Where neither side gains, the walk through
the table advances in the new list, so that the old element stays available; by an exchange
argument no longest alignment then matches any of its old elements earlier.

* `Earlier` — one list of pairs matches its old elements no later than another;
* `IsAlignment.exchange` — two alignments of one length, the second of which begins further
  on in the new list: it can be made as early as the first one, or a longer one exists;
* `walk_earlier` — **the walk is as early as every longest alignment from where it starts**;
* `IsAlignment.exists_unshift` — an alignment behind a common start;
* `lineMatches_earliest` — **the matches of two texts are the earliest of the longest**.
-/

namespace CellReview.Diff

/-- Every pair of the first list has an old index no greater than its partner in the second. -/
abbrev Earlier (pairs other : List (Nat × Nat)) : Prop :=
  List.Forall₂ (fun p q => p.1 ≤ q.1) pairs other

theorem Earlier.refl (pairs : List (Nat × Nat)) : Earlier pairs pairs :=
  List.forall₂_same.2 fun p _ => Nat.le_refl p.1

theorem Earlier.trans {first second third : List (Nat × Nat)} (h : Earlier first second)
    (h' : Earlier second third) : Earlier first third := by
  induction h generalizing third with
  | nil => exact h'
  | cons hle _ ih =>
    cases h' with
    | cons hle' tail => exact .cons (Nat.le_trans hle hle') (ih tail)

theorem Earlier.shift {pairs other : List (Nat × Nat)} (h : Earlier pairs other) (k : Nat) :
    Earlier (shift k pairs) (shift k other) := by
  rw [Earlier, Diff.shift, Diff.shift, List.forall₂_map_left_iff, List.forall₂_map_right_iff]
  exact h.imp fun p q hle => Nat.add_le_add_left hle k

theorem Earlier.fst_le {pairs other : List (Nat × Nat)} (h : Earlier pairs other) {r : Nat}
    {p q : Nat × Nat} (hp : pairs[r]? = some p) (hq : other[r]? = some q) : p.1 ≤ q.1 := by
  obtain ⟨hpairs, rfl⟩ := List.getElem?_eq_some_iff.1 hp
  obtain ⟨hother, rfl⟩ := List.getElem?_eq_some_iff.1 hq
  exact h.get hpairs hother

section Exchange

variable {α : Type} [BEq α] {old new : List α} {i j : Nat} {pairs : List (Nat × Nat)}

/-! ## Exchanging ends of alignments -/

/-- Take two alignments of one length, the second of which may begin further back in the old
list and begins further on in the new one.  Either an alignment from where the second begins
is as early as the first one, or one from where the first begins is longer. -/
theorem IsAlignment.exchange {first second : List (Nat × Nat)} {i' j' : Nat}
    (hfirst : IsAlignment old new i j first) (hsecond : IsAlignment old new i' j' second)
    (hi : i' ≤ i) (hj : j ≤ j') (hlength : second.length = first.length) :
    (∃ early, IsAlignment old new i' j' early ∧ Earlier early first) ∨
      ∃ longer, IsAlignment old new i j longer ∧ longer.length = first.length + 1 := by
  induction hfirst generalizing i' j' second with
  | nil i j => exact .inl ⟨[], .nil i' j', .nil⟩
  | @cons i j p q x y rest hip hjq hx hy same tail ih =>
    by_cases hq : j' ≤ q
    · exact .inl ⟨_, .cons (Nat.le_trans hi hip) hq hx hy same tail, Earlier.refl _⟩
    cases hsecond with
    | nil => exact absurd hlength (by simp)
    | @cons _ _ u v _ _ rest' hiu hjv hu hv same' tail' =>
      by_cases hu' : u ≤ p
      · -- the second one keeps its pair, and the rest is exchanged
        rcases ih tail' (Nat.succ_le_succ hu') (by omega) (by simpa using hlength) with
          ⟨early, hearly, hle⟩ | ⟨longer, hlonger, hlen⟩
        · exact .inl ⟨_, .cons hiu hjv hu hv same' hearly, .cons hu' hle⟩
        · exact .inr ⟨_, .cons hip hjq hx hy same hlonger, by simp [hlen]⟩
      · -- the first pair stands in front of the whole second one
        have hbehind := IsAlignment.cons (i := p + 1) (j := q + 1) (by omega) (by omega) hu hv
          same' tail'
        exact .inr ⟨_, .cons hip hjq hx hy same hbehind, by simpa using hlength⟩

/-! ## The walk -/

/-- No alignment of two arrays is longer than a longest common subsequence. -/
theorem IsAlignment.length_le_suffixLength [LawfulBEq α] {a b : Array α}
    (h : IsAlignment a.toList b.toList i j pairs) : pairs.length ≤ suffixLength a b i j := by
  obtain ⟨c, hold, hnew, hlength⟩ := h.exists_common
  rw [← hlength]
  exact length_le_commonLength _ _ c hold hnew

/-- **The walk is as early as every longest alignment** from where it starts. -/
theorem walk_earlier [LawfulBEq α] (a b : Array α) (i j : Nat) :
    ∀ other, IsAlignment a.toList b.toList i j other → other.length = suffixLength a b i j →
      Earlier (walk a b (suffixTable a b) i j) other := by
  fun_induction walk a b (suffixTable a b) i j with
  | case1 i j hin hsame ih =>
    intro other hother hlength
    rw [suffixLength_of_same hin.1 hin.2 hsame] at hlength
    cases hother with
    | nil => exact absurd hlength (by simp)
    | cons hip hjq hx hy same tail =>
      refine .cons hip (ih _ (tail.mono (Nat.succ_le_succ hip) (Nat.succ_le_succ hjq)) ?_)
      simpa using hlength
  | case2 i j hin hsame hgain ih =>
    intro other hother hlength
    rw [entry_suffixTable hin.1 (Nat.le_of_lt hin.2),
      entry_suffixTable (j := j + 1) (Nat.le_of_lt hin.1) hin.2] at hgain
    rw [suffixLength_of_not_same hin.1 hin.2 (by simpa using hsame),
      Nat.max_eq_left (Nat.le_of_lt hgain)] at hlength
    refine ih other ?_ hlength
    cases hother with
    | nil => exact .nil _ _
    | @cons _ _ p q x y rest hip hjq hx hy hxy tail =>
      -- with the old element in use, too few pairs would be left
      have hp : p ≠ i := by
        rintro rfl
        have hq : q ≠ j := fun hq => hsame (same_iff.2 ⟨x, y, hx, hq ▸ hy, hxy⟩)
        have hbehind : IsAlignment a.toList b.toList p (j + 1) ((p, q) :: rest) :=
          .cons hip (by omega) hx hy hxy tail
        have hbound := hbehind.length_le_suffixLength
        omega
      exact .cons (by omega) hjq hx hy hxy tail
  | case3 i j hin hsame hgain ih =>
    intro other hother hlength
    rw [entry_suffixTable hin.1 (Nat.le_of_lt hin.2),
      entry_suffixTable (j := j + 1) (Nat.le_of_lt hin.1) hin.2] at hgain
    have hmax : suffixLength a b i j = suffixLength a b i (j + 1) := by
      rw [suffixLength_of_not_same hin.1 hin.2 (by simpa using hsame),
        Nat.max_eq_right (Nat.le_of_not_lt hgain)]
    have hwalk := length_walk a b i (j + 1)
    rcases hother.exchange (walk_isAlignment a b (suffixTable a b) i (j + 1)) (Nat.le_refl i)
        (Nat.le_succ j) (by omega) with ⟨early, hearly, hle⟩ | ⟨longer, hlonger, hlen⟩
    · exact (ih early hearly (by rw [hle.length_eq, hlength, hmax])).trans hle
    · have hbound := hlonger.length_le_suffixLength
      omega
  | case4 i j hout =>
    intro other hother hlength
    have hzero : suffixLength a b i j = 0 := by
      by_cases hi : a.size ≤ i
      · exact suffixLength_of_size_le_left hi j
      · exact suffixLength_of_size_le_right i (by omega)
    rw [hzero, List.length_eq_zero_iff] at hlength
    rw [hlength]
    exact .nil

/-! ## Behind a common start -/

/-- Without its first pairs an alignment begins further on. -/
theorem IsAlignment.drop (h : IsAlignment old new i j pairs) (n : Nat) :
    IsAlignment old new (i + n) (j + n) (pairs.drop n) := by
  induction n generalizing i j pairs with
  | zero => exact h
  | succ n ih =>
    cases h with
    | nil => exact .nil _ _
    | cons hip hjq hx hy same tail => exact (ih tail).mono (by omega) (by omega)

/-- The pair with a number is at least that far from the start. -/
theorem IsAlignment.le_fst (h : IsAlignment old new i j pairs) {r : Nat} {p : Nat × Nat}
    (hp : pairs[r]? = some p) : i + r ≤ p.1 := by
  have hdrop := h.drop r
  rw [drop_eq_cons_of_getElem? hp] at hdrop
  cases hdrop with
  | cons hip => exact hip

/-- An alignment that begins behind a common start is one of what follows that start. -/
theorem IsAlignment.exists_unshift {k : Nat} (h : IsAlignment old new i j pairs) (hi : k ≤ i)
    (hj : k ≤ j) :
    ∃ rest, pairs = Diff.shift k rest ∧
      IsAlignment (old.drop k) (new.drop k) (i - k) (j - k) rest := by
  induction h with
  | nil i j => exact ⟨[], rfl, .nil _ _⟩
  | @cons i j p q x y rest hip hjq hx hy same tail ih =>
    obtain ⟨rest, rfl, htail⟩ := ih (by omega) (by omega)
    refine ⟨(p - k, q - k) :: rest, ?_, ?_⟩
    · rw [Diff.shift, Diff.shift, List.map_cons, Nat.add_sub_cancel' (Nat.le_trans hi hip),
        Nat.add_sub_cancel' (Nat.le_trans hj hjq)]
    · refine .cons (Nat.sub_le_sub_right hip k) (Nat.sub_le_sub_right hjq k) ?_ ?_ same
        (htail.mono (by omega) (by omega))
      · rw [List.getElem?_drop, Nat.add_sub_cancel' (Nat.le_trans hi hip), hx]
      · rw [List.getElem?_drop, Nat.add_sub_cancel' (Nat.le_trans hj hjq), hy]

end Exchange

/-! ## The matches of two texts -/

variable {old new : List String}

/-- What a longest alignment has behind the common start is no earlier than the walk there. -/
theorem exists_rest_of_longest {other : List (Nat × Nat)} (h : Fits old new)
    (hother : IsAlignment old new 0 0 other)
    (hlength : other.length = (lineMatches old new).length) :
    ∃ rest, other.drop (sharedCount old new) = shift (sharedCount old new) rest ∧
      Earlier (tableMatches (old.drop (sharedCount old new)).toArray
        (new.drop (sharedCount old new)).toArray) rest := by
  rw [lineMatches_of_fits h, List.length_append, diagonal, List.length_map, List.length_range,
    shift, List.length_map, tableMatches, length_walk] at hlength
  generalize sharedCount old new = k at hlength ⊢
  obtain ⟨rest, heq, hrest⟩ := (hother.drop k).exists_unshift (Nat.le_add_left k 0)
    (Nat.le_add_left k 0)
  have hcount := congrArg List.length heq
  rw [List.length_drop, shift, List.length_map] at hcount
  exact ⟨rest, heq, walk_earlier _ _ 0 0 rest (hrest.mono (Nat.zero_le _) (Nat.zero_le _))
    (by omega)⟩

/-- **The matches of two texts are the earliest of the longest.**  When what follows the
common start fits the table, the matches are an alignment; no alignment has more pairs, and
one with as many pairs matches none of its old lines earlier than the matches do the line of
the same number. -/
theorem lineMatches_earliest (h : Fits old new) :
    IsAlignment old new 0 0 (lineMatches old new) ∧
      ∀ other, IsAlignment old new 0 0 other →
        other.length ≤ (lineMatches old new).length ∧
        (other.length = (lineMatches old new).length →
          ∀ (r : Nat) (p q : Nat × Nat), (lineMatches old new)[r]? = some p →
            other[r]? = some q → p.1 ≤ q.1) := by
  refine ⟨lineMatches_isAlignment h, fun other hother => ⟨?_, fun hlength r p q hp hq => ?_⟩⟩
  · obtain ⟨c, hold, hnew, hc⟩ := hother.exists_common
    rw [← hc]
    exact (longestCommon_lineMatches h).greatest c hold hnew
  · rw [lineMatches_of_fits h] at hp
    by_cases hr : r < sharedCount old new
    · -- in the common start the index is the number of the pair
      rw [List.getElem?_append_left (by simpa [diagonal] using hr), diagonal, List.getElem?_map,
        List.getElem?_range hr] at hp
      obtain rfl : (r, r) = p := by simpa using hp
      have hle := hother.le_fst hq
      omega
    · -- behind it the walk is compared with what the other alignment has there
      obtain ⟨rest, heq, hearlier⟩ := exists_rest_of_longest h hother hlength
      have hcount : (diagonal (sharedCount old new)).length = sharedCount old new := by
        rw [diagonal, List.length_map, List.length_range]
      rw [List.getElem?_append_right (by omega), hcount] at hp
      refine (hearlier.shift _).fst_le hp ?_
      rw [← heq, List.getElem?_drop, Nat.add_sub_cancel' (Nat.not_lt.1 hr)]
      exact hq

/-- A line that stands at two places of the old text is matched at the first one. -/
theorem lineMatches_earliest_repeated :
    Fits ["a", "x", "a"] ["y", "a"] ∧ IsAlignment ["a", "x", "a"] ["y", "a"] 0 0 [(2, 1)] ∧
      ∃ p, (lineMatches ["a", "x", "a"] ["y", "a"])[0]? = some p ∧ p.1 ≤ 2 := by
  have hfits : Fits ["a", "x", "a"] ["y", "a"] := by
    rw [Fits]
    decide
  have hother : IsAlignment ["a", "x", "a"] ["y", "a"] 0 0 [(2, 1)] :=
    .cons (Nat.zero_le 2) (Nat.zero_le 1) rfl rfl rfl (.nil 3 2)
  have hfound : lineMatches ["a", "x", "a"] ["y", "a"] = [(0, 1)] := by
    decide +kernel
  obtain ⟨-, h⟩ := lineMatches_earliest hfits
  refine ⟨hfits, hother, (0, 1), by rw [hfound]; rfl, ?_⟩
  exact (h [(2, 1)] hother).2 (by rw [hfound]; rfl) 0 (0, 1) (2, 1) (by rw [hfound]; rfl) rfl

end CellReview.Diff
