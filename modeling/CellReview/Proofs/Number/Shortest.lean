import CellReview.Number.Shortest
import CellReview.Proofs.Number.Bounds
import CellReview.Proofs.Number.Decimal
import Mathlib.Tactic.GCongr

/-!
# How large the shortest digits are

The shortest digits of a number stand for a number that rounds to it.  So they are not all zero,
and their first digit stands no higher than that of a number beyond the format.

* `Interval.around_bounds` — the ends of the numbers that round to a given one;
* `Interval.holds_bounds` — digits that stand for one of them;
* `dropZeros_eq` — trailing zeros move into the power of ten;
* `Binary.shortest_bounds`, `Binary.exponent_shortest_le` — **the shortest digits and their
  exponent**.
-/

namespace CellReview

open Binary (pow_toNat)

variable {f : Format} {m : Nat} {q : Int}

/-! ## Digits in an interval -/

/-- The numbers that round to a given one are positive, and not beyond the format. -/
theorem Interval.around_bounds (hm : 0 < m) (hlt : m < 2 ^ f.bits) (hq : q ≤ f.greatest) :
    0 < (around f m q).low ∧
      ((around f m q).high : ℚ) ≤ (around f m q).unit * 2 ^ (f.greatest + f.bits) := by
  constructor
  · have hscale : 0 < 2 ^ (q - 2).toNat := Nat.two_pow_pos _
    have hbelow : 0 < 4 * m - (if m = Nat.pow 2 (f.bits - 1) ∧ q > f.least then 1 else 2) := by
      split <;> omega
    exact Nat.mul_pos hbelow hscale
  · have hunit : (-(q - 2)).toNat = (2 - q).toNat := by rw [neg_sub]
    have hsize : ((4 * m + 2 : Nat) : ℚ) ≤ 2 ^ ((f.bits : Int) + 2) := by
      have hnat : 4 * m + 2 ≤ 2 ^ (f.bits + 2) := by
        rw [pow_add]
        omega
      exact_mod_cast hnat
    show (((4 * m + 2) * 2 ^ (q - 2).toNat : Nat) : ℚ) ≤ ((2 ^ (2 - q).toNat : Nat) : ℚ) * _
    rw [Nat.cast_mul, Nat.cast_pow, Nat.cast_pow, Nat.cast_ofNat, pow_toNat (by norm_num), hunit]
    calc ((4 * m + 2 : Nat) : ℚ) * (2 ^ (q - 2) * 2 ^ (2 - q).toNat)
        = 2 ^ (2 - q).toNat * (((4 * m + 2 : Nat) : ℚ) * 2 ^ (q - 2)) := by ring
      _ ≤ 2 ^ (2 - q).toNat * (2 ^ ((f.bits : Int) + 2) * 2 ^ (q - 2)) := by gcongr
      _ = 2 ^ (2 - q).toNat * 2 ^ ((f.bits : Int) + q) := by
          rw [← zpow_add₀ (by norm_num)]
          congr 2
          ring
      _ ≤ 2 ^ (2 - q).toNat * 2 ^ (f.greatest + f.bits) :=
          mul_le_mul_of_nonneg_left (zpow_le_zpow_right₀ (by norm_num) (by omega)) (by positivity)

/-- Digits that stand for a number of an interval of positive numbers. -/
theorem Interval.holds_bounds {i : Interval} {c : Nat} {s : Int} {top : ℚ} (h : i.holds c s = true)
    (hlow : 0 < i.low) (hunit : 0 < i.unit) (hhigh : (i.high : ℚ) ≤ i.unit * top) :
    0 < c ∧ (c : ℚ) * 10 ^ s ≤ top := by
  have hends : i.low * 10 ^ (-s).toNat ≤ c * i.unit * 10 ^ s.toNat ∧
      c * i.unit * 10 ^ s.toNat ≤ i.high * 10 ^ (-s).toNat := by
    simp only [holds] at h
    split at h
    · simpa using h
    · have hlt : i.low * 10 ^ (-s).toNat < c * i.unit * 10 ^ s.toNat ∧
          c * i.unit * 10 ^ s.toNat < i.high * 10 ^ (-s).toNat := by simpa using h
      exact ⟨hlt.1.le, hlt.2.le⟩
  constructor
  · have hpos : 0 < i.low * 10 ^ (-s).toNat := by positivity
    rcases Nat.eq_zero_or_pos c with rfl | hc
    · rw [Nat.zero_mul, Nat.zero_mul] at hends
      omega
    · exact hc
  · have hcast : (c : ℚ) * i.unit * 10 ^ s.toNat ≤ i.high * 10 ^ (-s).toNat := by
      exact_mod_cast hends.2
    have hden : (0 : ℚ) < i.unit * 10 ^ (-s).toNat := by positivity
    rw [pow_toNat (by norm_num)] at hcast
    refine le_of_mul_le_mul_right ?_ hden
    calc (c : ℚ) * 10 ^ s * (i.unit * 10 ^ (-s).toNat)
        = c * i.unit * (10 ^ s * 10 ^ (-s).toNat) := by ring
      _ ≤ i.high * 10 ^ (-s).toNat := hcast
      _ ≤ i.unit * top * 10 ^ (-s).toNat := by gcongr
      _ = top * (i.unit * 10 ^ (-s).toNat) := by ring

/-- The nearest digits are in the interval. -/
theorem Interval.holds_of_nearest? {i : Interval} {s : Int} {c : Nat} (h : i.nearest? s = some c) :
    i.holds c s = true := by
  unfold nearest? at h
  dsimp only at h
  split at h
  · rename_i hbelow habove
    obtain rfl := Option.some.inj h
    rcases roundHalfEven_cases (i.value * Nat.pow 10 (-s).toNat) (i.unit * Nat.pow 10 s.toNat)
      with heq | heq
    · rwa [heq]
    · rwa [heq]
  · exact Option.some.inj h ▸ ‹_›
  · exact Option.some.inj h ▸ ‹_›
  · exact absurd h (by simp)

/-! ## Trailing zeros -/

/-- Moving trailing zeros into the power of ten does not change the number. -/
theorem dropZeros_eq (fuel c : Nat) (s : Int) (hc : 0 < c) :
    0 < (dropZeros fuel c s).1 ∧
      ((dropZeros fuel c s).1 : ℚ) * 10 ^ (dropZeros fuel c s).2 = c * 10 ^ s := by
  induction fuel generalizing c s with
  | zero => exact ⟨hc, rfl⟩
  | succ fuel ih =>
    rw [dropZeros]
    split
    · rename_i hzero
      obtain ⟨k, rfl⟩ : 10 ∣ c := Nat.dvd_of_mod_eq_zero hzero.1
      have hk : 10 * k / 10 = k := Nat.mul_div_cancel_left k (by decide)
      obtain ⟨hpos, heq⟩ := ih k (s + 1) (by omega)
      rw [hk]
      refine ⟨hpos, heq.trans ?_⟩
      rw [zpow_add₀ (by norm_num), zpow_one]
      push_cast
      ring
    · exact ⟨hc, rfl⟩

/-! ## The shortest digits -/

/-- **The shortest digits** are not all zero and stand for no number beyond the format. -/
theorem Binary.shortest_bounds (hm : 0 < m) (hlt : m < 2 ^ f.bits) (hq : q ≤ f.greatest)
    (hgreatest : 2 ≤ f.greatest) :
    0 < (shortest f m q).1 ∧
      ((shortest f m q).1 : ℚ) * 10 ^ (shortest f m q).2 ≤ 2 ^ (f.greatest + f.bits) := by
  obtain ⟨hlow, hhigh⟩ := Interval.around_bounds hm hlt hq
  have hunit : 0 < (Interval.around f m q).unit := Nat.two_pow_pos _
  have hfound : ∃ (c : Nat) (s : Int), 0 < c ∧ (c : ℚ) * 10 ^ s ≤ 2 ^ (f.greatest + f.bits) ∧
      shortest f m q = dropZeros 18 c s := by
    unfold shortest
    dsimp only
    cases hsome : (List.range 17).findSome? _ with
    | some found =>
      obtain ⟨n, -, hn⟩ := List.exists_of_findSome?_eq_some hsome
      obtain ⟨c, hc, rfl⟩ := Option.map_eq_some_iff.1 hn
      obtain ⟨hpos, hle⟩ :=
        Interval.holds_bounds (Interval.holds_of_nearest? hc) hlow hunit hhigh
      exact ⟨c, _, hpos, hle, rfl⟩
    | none =>
      refine ⟨(Interval.around f m q).value, 0, ?_, ?_, rfl⟩
      · exact Nat.mul_pos (by omega) (Nat.two_pow_pos _)
      · have hnat : 4 * m * 2 ^ (q - 2).toNat ≤ 2 ^ (f.bits + 2 + (f.greatest - 2).toNat) := by
          rw [pow_add]
          refine Nat.mul_le_mul ?_ (Nat.pow_le_pow_right (by decide) (by omega))
          rw [pow_add]
          omega
        have hexponent : ((f.bits + 2 + (f.greatest - 2).toNat : Nat) : Int) =
            f.greatest + f.bits := by omega
        rw [zpow_zero, mul_one, ← hexponent, zpow_natCast]
        exact_mod_cast hnat
  obtain ⟨c, s, hc, hle, heq⟩ := hfound
  obtain ⟨hpos, hvalue⟩ := dropZeros_eq 18 c s hc
  rw [heq]
  exact ⟨hpos, hvalue ▸ hle⟩

/-- The first of the shortest digits of a number in single width stands at `10 ^ 38` at most. -/
theorem Binary.exponent_shortest_le (hm : 0 < m) (hlt : m < 2 ^ 24) (hq : q ≤ 104) :
    (shortest .single m q).2 + (decimal (shortest .single m q).1).length - 1 ≤ 38 := by
  obtain ⟨hc, hle⟩ := shortest_bounds (f := .single) hm hlt hq (by decide)
  generalize (shortest .single m q).1 = c at hc hle ⊢
  generalize (shortest .single m q).2 = s at hle ⊢
  have hlength : 10 ^ ((decimal c).length - 1) ≤ c := by
    rcases Nat.lt_or_ge 1 (decimal c).length with hlong | hshort
    · refine Nat.not_lt.1 fun hlt => ?_
      have := (length_decimal_le_iff (by omega)).2 hlt
      omega
    · rw [show (decimal c).length - 1 = 0 by omega]
      exact hc
  have hten : (10 : ℚ) ^ ((((decimal c).length - 1 : Nat) : Int) + s) < 10 ^ (39 : Int) := by
    calc (10 : ℚ) ^ ((((decimal c).length - 1 : Nat) : Int) + s)
        = 10 ^ ((decimal c).length - 1) * 10 ^ s := by
          rw [zpow_add₀ (by norm_num), zpow_natCast]
      _ ≤ c * 10 ^ s := by
          gcongr
          exact_mod_cast hlength
      _ ≤ 2 ^ (Format.single.greatest + Format.single.bits) := hle
      _ < 10 ^ (39 : Int) := by norm_num [Format.single]
  have := (zpow_lt_zpow_iff_right₀ (by norm_num : (1 : ℚ) < 10)).1 hten
  omega

end CellReview
