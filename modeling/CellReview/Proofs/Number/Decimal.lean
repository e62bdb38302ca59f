import CellReview.Number.Digits
import CellReview.Text.Blank
import Mathlib.Algebra.Group.Nat.Defs
import Mathlib.Data.List.Basic
import Mathlib.Data.List.Induction

/-!
# The decimal digits of a number

* `all_isDigit_decimal`, `exists_decimal_cons` — a number is written in digits only, and in one at
  least;
* `decimal_eq_cons` — no zero stands in front of the others;
* `length_decimal_le_iff` — how many digits a number has;
* `ofDigits_decimal` — **the digits of a number say which number it is**;
* `exists_zeros_decimal`, `ofDigits_zeros_decimal` — digits are those of a number behind zeros.
-/

namespace CellReview

theorem isDigit_digit : ∀ d < 10, isDigit (digit d) = true := by
  decide

theorem digitValue_digit : ∀ d < 10, digitValue (digit d) = d := by
  decide

theorem isBlank_of_isDigit {c : Char} (h : isDigit c = true) : isBlank c = false := by
  simp only [isDigit, Bool.and_eq_true, decide_eq_true_eq] at h
  have hlow : '0'.toNat ≤ c.toNat := h.1
  have hhigh : c.toNat ≤ '9'.toNat := h.2
  have hvalues : '0'.toNat = 48 ∧ '9'.toNat = 57 := by decide
  simp [isBlank]
  omega

theorem all_isDigit_decimal (n : Nat) : ∀ c ∈ decimal n, isDigit c = true := by
  induction n using decimal.induct with
  | case1 n hsmall =>
    rw [decimal, if_pos hsmall, List.forall_mem_singleton]
    exact isDigit_digit n hsmall
  | case2 n hlarge ih =>
    rw [decimal, if_neg hlarge, List.forall_mem_append, List.forall_mem_singleton]
    exact ⟨ih, isDigit_digit _ (by omega)⟩

theorem exists_decimal_cons (n : Nat) : ∃ c cs, decimal n = c :: cs ∧ isDigit c = true := by
  cases h : decimal n with
  | nil =>
    rw [decimal] at h
    split at h <;> simp at h
  | cons c cs => exact ⟨c, cs, rfl, all_isDigit_decimal n c (h ▸ List.mem_cons_self)⟩

theorem decimal_eq_cons {n : Nat} (h : 0 < n) :
    ∃ d cs, 0 < d ∧ d < 10 ∧ decimal n = digit d :: cs := by
  induction n using decimal.induct with
  | case1 n hsmall =>
    rw [decimal, if_pos hsmall]
    exact ⟨n, [], h, hsmall, rfl⟩
  | case2 n hlarge ih =>
    obtain ⟨d, cs, hpos, hlt, heq⟩ := ih (by omega)
    rw [decimal, if_neg hlarge, heq]
    exact ⟨d, cs ++ [digit (n % 10)], hpos, hlt, rfl⟩

theorem length_decimal_le_iff {n width : Nat} (hwidth : 0 < width) :
    (decimal n).length ≤ width ↔ n < 10 ^ width := by
  induction n using decimal.induct generalizing width with
  | case1 n hsmall =>
    have hpow : 10 ^ 1 ≤ 10 ^ width := Nat.pow_le_pow_right (by decide) hwidth
    rw [decimal, if_pos hsmall, List.length_singleton]
    omega
  | case2 n hlarge ih =>
    obtain ⟨w, rfl⟩ := Nat.exists_eq_succ_of_ne_zero (Nat.pos_iff_ne_zero.1 hwidth)
    rw [decimal, if_neg hlarge, List.length_append, List.length_singleton, Nat.succ_le_succ_iff]
    rcases Nat.eq_zero_or_pos w with rfl | hw
    · obtain ⟨c, cs, hcons, -⟩ := exists_decimal_cons (n / 10)
      simp [hcons]
      omega
    · rw [ih hw, Nat.succ_eq_add_one, Nat.pow_succ]
      omega

theorem ofDigits_concat (ds : List Nat) (d : Nat) :
    ofDigits (ds ++ [d]) = 10 * ofDigits ds + d :=
  List.foldl_concat ..

/-- The digits of a number say which number it is. -/
theorem ofDigits_decimal (n : Nat) : ofDigits ((decimal n).map digitValue) = n := by
  induction n using decimal.induct with
  | case1 n hsmall =>
    rw [decimal, if_pos hsmall, List.map_singleton, digitValue_digit n hsmall]
    simp [ofDigits]
  | case2 n hlarge ih =>
    rw [decimal, if_neg hlarge, List.map_append, List.map_singleton, ofDigits_concat, ih,
      digitValue_digit _ (Nat.mod_lt n (by decide)), Nat.div_add_mod]

/-! ## Leading zeros -/

theorem digit_digitValue {c : Char} (h : isDigit c = true) : digit (digitValue c) = c := by
  have hrange : 48 ≤ c.toNat ∧ c.toNat ≤ 57 := by
    simpa [isDigit, Char.le_def, UInt32.le_iff_toNat_le] using h
  have hdigit : ∀ n < 10, digit n = Char.ofNat (n + 48) := by decide
  show digit (c.toNat - 48) = c
  rw [hdigit _ (by omega), Nat.sub_add_cancel hrange.1, Char.ofNat_toNat]

theorem digitValue_lt {c : Char} (h : isDigit c = true) : digitValue c < 10 := by
  have hrange : 48 ≤ c.toNat ∧ c.toNat ≤ 57 := by
    simpa [isDigit, Char.le_def, UInt32.le_iff_toNat_le] using h
  show c.toNat - 48 < 10
  omega

/-- Digits are those of the number that they say, behind zeros. -/
theorem exists_zeros_decimal {ds : List Char} (hne : ds ≠ []) (h : ∀ c ∈ ds, isDigit c = true) :
    ∃ zeros, ds = List.replicate zeros '0' ++ decimal (ofDigits (ds.map digitValue)) := by
  induction ds using List.reverseRecOn with
  | nil => exact absurd rfl hne
  | append_singleton ds c ih =>
    rw [List.forall_mem_append, List.forall_mem_singleton] at h
    obtain ⟨hds, hc⟩ := h
    have hlt := digitValue_lt hc
    have hlast : decimal (digitValue c) = [c] := by
      rw [decimal, if_pos hlt, digit_digitValue hc]
    rw [List.map_append, List.map_singleton, ofDigits_concat]
    rcases eq_or_ne ds [] with rfl | hne
    · exact ⟨0, by simp [ofDigits, hlast]⟩
    obtain ⟨zeros, heq⟩ := ih hne hds
    generalize ofDigits (ds.map digitValue) = n at heq ⊢
    rcases Nat.eq_zero_or_pos n with rfl | hpos
    · -- there was nothing but zeros
      refine ⟨zeros + 1, ?_⟩
      rw [Nat.mul_zero, Nat.zero_add, hlast, heq, List.replicate_succ', decimal, if_pos (by decide)]
      rfl
    · refine ⟨zeros, ?_⟩
      rw [decimal, if_neg (by omega), Nat.mul_add_mod, Nat.mod_eq_of_lt hlt, digit_digitValue hc,
        show (10 * n + digitValue c) / 10 = n by omega, ← List.append_assoc, ← heq]

theorem all_isDigit_zeros (n : Nat) : ∀ c ∈ List.replicate n '0', isDigit c = true := by
  intro c hc
  rw [List.eq_of_mem_replicate hc]
  decide

theorem ofDigits_zeros_decimal (zeros n : Nat) :
    ofDigits ((List.replicate zeros '0' ++ decimal n).map digitValue) = n := by
  induction zeros with
  | zero => exact ofDigits_decimal n
  | succ zeros ih => exact ih

end CellReview
