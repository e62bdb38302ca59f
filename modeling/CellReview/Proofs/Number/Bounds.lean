import CellReview.Number.Literal
import Mathlib.Algebra.Order.Field.Power
import Mathlib.Data.Rat.Cast.Order
import Mathlib.Tactic.Linarith
import Mathlib.Tactic.Positivity
import Mathlib.Tactic.Ring

/-!
# How large a rounded number is

Rounding counts a quotient in a unit that leaves at most `bits` binary digits.  So the result is
a number of its format, it is infinite only if the quotient is beyond the format, and the number
of a literal that does not shift its digits far is never too large.

* `Binary.InFormat` — numbers whose multiple and power are those of their format;
* `Binary.ofRatio_eq` — the unit and the multiple that rounding finds;
* `Binary.inFormat_ofRatio` — **rounding stays in the format**;
* `Binary.exists_ofRatio` — what is not beyond the format is rounded to a finite number;
* `Literal.isSome_value?` — **the number of a literal of moderate size**.
-/

namespace CellReview

/-- The natural number nearest to a quotient is the one below it or the next. -/
theorem roundHalfEven_cases (n d : Nat) :
    roundHalfEven n d = n / d ∨ roundHalfEven n d = n / d + 1 := by
  rw [roundHalfEven]
  split
  · exact .inr rfl
  · exact .inl rfl

namespace Binary

variable {f : Format} {n d : Nat}

/-- Whether the multiple and the power of a finite number are those of its format. -/
def InFormat : Binary f → Prop
  | .finite _ m q => m < Nat.pow 2 f.bits ∧ f.least ≤ q ∧ q ≤ f.greatest
  | .infinite _ => True
  | .nan => True

/-! ## Counting in units -/

/-- A power, as a whole power over another. -/
theorem pow_toNat {b : ℚ} (hb : b ≠ 0) (q : Int) : b ^ q.toNat = b ^ q * b ^ (-q).toNat := by
  rw [← zpow_natCast, ← zpow_natCast, ← zpow_add₀ hb]
  congr 1
  omega

theorem two_zpow_pos (q : Int) : (0 : ℚ) < 2 ^ q :=
  zpow_pos (by norm_num) q

theorem div_inUnits_lt_iff (hd : 0 < d) (q : Int) (bits : Nat) :
    (inUnits n d q).1 / (inUnits n d q).2 < Nat.pow 2 bits ↔ (n : ℚ) < d * 2 ^ (q + bits) := by
  have hpos : (0 : ℚ) < 2 ^ (-q).toNat := by positivity
  have hunits : 0 < d * 2 ^ q.toNat := by positivity
  have hsplit : (2 : ℚ) ^ (q + bits) = 2 ^ q * 2 ^ bits := by
    rw [zpow_add₀ (by norm_num), zpow_natCast]
  show n * 2 ^ (-q).toNat / (d * 2 ^ q.toNat) < 2 ^ bits ↔ _
  rw [Nat.div_lt_iff_lt_mul hunits, ← Nat.cast_lt (α := ℚ), hsplit]
  have hcount : (2 : ℚ) ^ bits * (d * 2 ^ q.toNat) = d * (2 ^ q * 2 ^ bits) * 2 ^ (-q).toNat := by
    rw [pow_toNat (by norm_num) q]
    ring
  push_cast
  rw [hcount]
  exact mul_lt_mul_iff_left₀ hpos

/-- A quotient is below the power of two behind its binary digits. -/
theorem lt_two_zpow_log2 (hd : 0 < d) : (n : ℚ) < d * 2 ^ ((n.log2 : Int) - d.log2 + 1) := by
  have hn : (n : ℚ) < 2 ^ (n.log2 + 1) := by exact_mod_cast Nat.lt_log2_self (n := n)
  have hd : (2 : ℚ) ^ d.log2 ≤ d := by exact_mod_cast Nat.log2_self_le hd.ne'
  calc (n : ℚ) < 2 ^ (n.log2 + 1) := hn
    _ = 2 ^ d.log2 * 2 ^ ((n.log2 : Int) - d.log2 + 1) := by
      rw [← zpow_natCast, ← zpow_natCast, ← zpow_add₀ (by norm_num)]
      congr 1
      push_cast
      ring
    _ ≤ d * 2 ^ ((n.log2 : Int) - d.log2 + 1) :=
      mul_le_mul_of_nonneg_right hd (two_zpow_pos _).le

theorem log2_sub_log2_le (hn : n ≠ 0) {k : Int} (h : (n : ℚ) < d * 2 ^ k) :
    (n.log2 : Int) - d.log2 ≤ k := by
  have hlow : (2 : ℚ) ^ n.log2 ≤ n := by exact_mod_cast Nat.log2_self_le hn
  have hhigh : (d : ℚ) < 2 ^ (d.log2 + 1) := by exact_mod_cast Nat.lt_log2_self (n := d)
  have hpow : (2 : ℚ) ^ (n.log2 : Int) < 2 ^ ((d.log2 : Int) + 1 + k) := by
    calc (2 : ℚ) ^ (n.log2 : Int) = 2 ^ n.log2 := zpow_natCast _ _
      _ ≤ n := hlow
      _ < d * 2 ^ k := h
      _ ≤ 2 ^ (d.log2 + 1) * 2 ^ k := mul_le_mul_of_nonneg_right hhigh.le (two_zpow_pos k).le
      _ = 2 ^ ((d.log2 : Int) + 1 + k) := by
        rw [← zpow_natCast, ← zpow_add₀ (by norm_num)]
        push_cast
        rfl
  have := (zpow_lt_zpow_iff_right₀ (by norm_num : (1 : ℚ) < 2)).1 hpow
  omega

/-! ## What rounding finds -/

/-- The least unit in which a quotient is counted. -/
def lowUnit (f : Format) (n d : Nat) : Int :=
  max ((n.log2 : Int) - d.log2 - f.bits) f.least

/-- A quotient is counted in its least unit or in one of the next two, by a multiple of the
format. -/
theorem ofRatio_eq (negative : Bool) (hbits : 0 < f.bits) (hn : n ≠ 0) (hd : 0 < d) :
    ∃ m q, m < Nat.pow 2 f.bits ∧ lowUnit f n d ≤ q ∧ q ≤ lowUnit f n d + 2 ∧
      ofRatio f negative n d = if q > f.greatest then .infinite negative
        else .finite negative m q := by
  have hunit : ∃ q, lowUnit f n d ≤ q ∧ q ≤ lowUnit f n d + 1 ∧
      (inUnits n d q).1 / (inUnits n d q).2 < Nat.pow 2 f.bits ∧
      (if (inUnits n d (lowUnit f n d)).1 / (inUnits n d (lowUnit f n d)).2 ≥ Nat.pow 2 f.bits
        then lowUnit f n d + 1 else lowUnit f n d) = q := by
    by_cases hlarge : (inUnits n d (lowUnit f n d)).1 / (inUnits n d (lowUnit f n d)).2 ≥
        Nat.pow 2 f.bits
    · refine ⟨_, by omega, le_refl _, ?_, if_pos hlarge⟩
      -- twice the least unit is enough, as it has all binary digits but `bits` of them
      rw [div_inUnits_lt_iff hd]
      refine (lt_two_zpow_log2 hd).trans_le (mul_le_mul_of_nonneg_left ?_ (Nat.cast_nonneg d))
      refine zpow_le_zpow_right₀ (by norm_num) ?_
      have := le_max_left ((n.log2 : Int) - d.log2 - f.bits) f.least
      rw [lowUnit]
      omega
    · exact ⟨_, le_refl _, by omega, Nat.not_le.1 hlarge, if_neg hlarge⟩
  obtain ⟨q, hlow, hhigh, hlt, hq⟩ := hunit
  have hround : roundHalfEven (inUnits n d q).1 (inUnits n d q).2 ≤ Nat.pow 2 f.bits := by
    rcases roundHalfEven_cases (inUnits n d q).1 (inUnits n d q).2 with h | h <;> omega
  have hvalue : ofRatio f negative n d =
      (let carried := if roundHalfEven (inUnits n d q).1 (inUnits n d q).2 = Nat.pow 2 f.bits
        then (Nat.pow 2 (f.bits - 1), q + 1)
        else (roundHalfEven (inUnits n d q).1 (inUnits n d q).2, q)
      if carried.2 > f.greatest then .infinite negative
        else .finite negative carried.1 carried.2) := by
    rw [← hq, ofRatio, if_neg hn]
    rfl
  by_cases hcarry : roundHalfEven (inUnits n d q).1 (inUnits n d q).2 = Nat.pow 2 f.bits
  · refine ⟨Nat.pow 2 (f.bits - 1), q + 1, ?_, by omega, by omega, ?_⟩
    · exact Nat.pow_lt_pow_right (by decide) (by omega)
    · rw [hvalue, if_pos hcarry]
  · refine ⟨_, q, lt_of_le_of_ne hround hcarry, hlow, by omega, ?_⟩
    rw [hvalue, if_neg hcarry]

/-- **Rounding stays in the format.** -/
theorem inFormat_ofRatio (negative : Bool) (hbits : 0 < f.bits) (hrange : f.least ≤ f.greatest)
    (hd : 0 < d) : (ofRatio f negative n d).InFormat := by
  by_cases hn : n = 0
  · rw [ofRatio, if_pos hn]
    exact ⟨Nat.two_pow_pos _, le_refl _, hrange⟩
  obtain ⟨m, q, hm, hlow, -, heq⟩ := ofRatio_eq negative hbits hn hd
  rw [heq]
  split
  · trivial
  · exact ⟨hm, (le_max_right _ _).trans hlow, not_lt.1 ‹_›⟩

/-- What is not beyond the format is rounded to a finite number. -/
theorem exists_ofRatio (negative : Bool) {k : Int} (hbits : 0 < f.bits) (hd : 0 < d)
    (h : (n : ℚ) < d * 2 ^ k) (hleast : f.least + f.bits ≤ k)
    (hgreatest : k + 2 ≤ f.greatest + f.bits) :
    ∃ m q, ofRatio f negative n d = .finite negative m q ∧ (m : ℚ) * 2 ^ q < 2 ^ (k + 2) := by
  by_cases hn : n = 0
  · refine ⟨0, f.least, by rw [ofRatio, if_pos hn, zero], ?_⟩
    rw [Nat.cast_zero, zero_mul]
    exact two_zpow_pos _
  obtain ⟨m, q, hm, -, hhigh, heq⟩ := ofRatio_eq negative hbits hn hd
  have hlog := log2_sub_log2_le hn h
  have hlow : lowUnit f n d ≤ k - f.bits := max_le (by omega) (by omega)
  refine ⟨m, q, by rw [heq, if_neg (by omega)], ?_⟩
  have hm : (m : ℚ) < 2 ^ f.bits := by exact_mod_cast hm
  calc (m : ℚ) * 2 ^ q < 2 ^ f.bits * 2 ^ q := mul_lt_mul_of_pos_right hm (two_zpow_pos q)
    _ = 2 ^ ((f.bits : Int) + q) := by rw [zpow_add₀ (by norm_num), zpow_natCast]
    _ ≤ 2 ^ (k + 2) := zpow_le_zpow_right₀ (by norm_num) (by omega)

/-- The numerator and the denominator of a finite number say how large it is. -/
theorem ratio_eq (m : Nat) (q : Int) :
    ((ratio m q).1 : ℚ) = (ratio m q).2 * (m * 2 ^ q) ∧ 0 < (ratio m q).2 := by
  constructor
  · show ((m * 2 ^ q.toNat : Nat) : ℚ) = ((2 ^ (-q).toNat : Nat) : ℚ) * _
    push_cast
    rw [pow_toNat (by norm_num) q]
    ring
  · exact Nat.two_pow_pos _

end Binary

/-! ## Literals -/

namespace Literal

open Binary

/-- Digits that are gathered are below the limit, and none is left over that was not there. -/
theorem gather_bounds (start : Nat) (hstart : start < wordLimit) (ds : List Nat) :
    (gather start ds).1 < wordLimit ∧ (gather start ds).2.length ≤ ds.length := by
  induction ds generalizing start with
  | nil => exact ⟨hstart, le_refl _⟩
  | cons d ds ih =>
    rw [gather]
    split
    · obtain ⟨hlt, hlength⟩ := ih _ ‹_›
      exact ⟨hlt, hlength.trans (Nat.le_succ _)⟩
    · exact ⟨hstart, le_refl _⟩

/-- The greatest shift of digits for which no number is ever too large. -/
def safeShift : Nat := 200

theorem isSome_scale? {m : Nat} (hm : m < wordLimit) {e : Int} (he : e ≤ safeShift) :
    (scale? m e).isSome = true := by
  rw [scale?]
  dsimp only
  split
  · rfl
  split
  · rfl
  rename_i hnonneg _
  rw [if_neg (by rw [safeShift] at he; omega)]
  obtain ⟨k, rfl⟩ : ∃ k : Nat, e = k := ⟨e.toNat, by omega⟩
  have hk : (k : Int) ≤ 200 := he
  have hm : (m : ℚ) < (1 : Nat) * 2 ^ (64 : Int) := by
    rw [Nat.cast_one, one_mul]
    exact_mod_cast hm
  have hpower : ((10 ^ k : Nat) : ℚ) < (1 : Nat) * 2 ^ (4 * k + 1 : Int) := by
    have hsixteen : (10 : ℚ) ^ k ≤ 16 ^ k := pow_le_pow_left₀ (by norm_num) (by norm_num) k
    have htwo : (16 : ℚ) ^ k = 2 ^ (4 * k : Int) := by
      rw [zpow_mul, zpow_natCast]
      norm_num
    have hlt : (2 : ℚ) ^ (4 * k : Int) < 2 ^ (4 * k + 1 : Int) :=
      zpow_lt_zpow_right₀ (by norm_num) (by omega)
    push_cast
    linarith
  obtain ⟨a, q, ha, halt⟩ :=
    exists_ofRatio (f := .double) (decide ((m : Int) < 0)) (by decide) one_pos hm (by decide)
      (by decide)
  obtain ⟨b, r, hb, hblt⟩ :=
    exists_ofRatio (f := .double) false (by decide) one_pos hpower
      (by simp only [Format.double]; omega) (by simp only [Format.double]; omega)
  obtain ⟨han, had⟩ := ratio_eq a q
  obtain ⟨hbn, hbd⟩ := ratio_eq b r
  have hproduct : (((ratio a q).1 * (ratio b r).1 : Nat) : ℚ) <
      (((ratio a q).2 * (ratio b r).2 : Nat) : ℚ) * 2 ^ (4 * k + 69 : Int) := by
    have hmul : ((a : ℚ) * 2 ^ q) * (b * 2 ^ r) < 2 ^ (4 * k + 69 : Int) := by
      calc ((a : ℚ) * 2 ^ q) * (b * 2 ^ r)
          < 2 ^ ((64 : Int) + 2) * 2 ^ ((4 * k + 1 : Int) + 2) :=
            mul_lt_mul'' halt hblt (by positivity) (by positivity)
        _ = 2 ^ (4 * k + 69 : Int) := by
            rw [← zpow_add₀ (by norm_num)]
            congr 1
            ring
    have hden : (0 : ℚ) < (ratio a q).2 * (ratio b r).2 := by positivity
    push_cast
    rw [han, hbn]
    calc ((ratio a q).2 : ℚ) * (a * 2 ^ q) * ((ratio b r).2 * (b * 2 ^ r))
        = (ratio a q).2 * (ratio b r).2 * ((a * 2 ^ q) * (b * 2 ^ r)) := by ring
      _ < (ratio a q).2 * (ratio b r).2 * 2 ^ (4 * k + 69 : Int) :=
          mul_lt_mul_of_pos_left hmul hden
  obtain ⟨c, s, hc, -⟩ :=
    exists_ofRatio (f := .double) (decide ((m : Int) < 0) != false) (by decide)
      (Nat.mul_pos had hbd) hproduct
      (by simp only [Format.double]; omega) (by simp only [Format.double]; omega)
  have hx : ofInt .double m = .finite (decide ((m : Int) < 0)) a q := ha
  have hp : powerOfTen .double (Int.toNat k) = .finite false b r := hb
  have hy : (finite (decide ((m : Int) < 0)) a q).mul (finite false b r) =
      finite (f := .double) (decide ((m : Int) < 0) != false) c s := hc
  rw [hx, hp, hy]
  rfl

/-- How far the exponent of a literal shifts its digits up. -/
def upward (l : Literal) : Nat :=
  match l.exponent with
  | some (false, ds) => ofDigits ds
  | _ => 0

/-- **The number of a literal of moderate size**: a literal always has one if its digits before
the point and its exponent do not shift it far up. -/
theorem isSome_value? {l : Literal} (h : l.whole.length + l.upward ≤ safeShift) :
    l.value?.isSome = true := by
  have hstart : 0 < wordLimit := by decide
  obtain ⟨hm, hleft⟩ := gather_bounds 0 hstart l.whole
  have hdouble : ∀ m (e : Int), m < wordLimit → e ≤ l.whole.length →
      (l.toDouble? m e).isSome = true := by
    intro m e hm he
    rw [toDouble?, Option.isSome_map]
    unfold upward at h
    split
    · exact isSome_scale? hm (by omega)
    · rename_i down ds hexponent
      rw [hexponent] at h
      dsimp only
      split
      · cases down with
        | true =>
          refine isSome_scale? hm ?_
          rw [if_pos rfl]
          omega
        | false =>
          refine isSome_scale? hm ?_
          rw [if_neg (by decide)]
          simp only at h
          omega
      · rename_i hhuge
        cases down with
        | true => simp
        | false =>
          have : exponentLimit ≤ ofDigits ds := not_lt.1 hhuge
          have hlimit : safeShift < exponentLimit := by decide
          simp only at h
          omega
  rw [value?]
  rcases hgather : gather 0 l.whole with ⟨m, left⟩
  rw [hgather] at hm hleft
  dsimp only at hm hleft ⊢
  split
  · split
    · rfl
    split
    · rfl
    · rfl
  · rename_i fraction _ _ _
    obtain ⟨hm', hleft'⟩ := gather_bounds m hm (l.fraction.getD [])
    rw [Option.isSome_map]
    exact hdouble _ _ hm' (by omega)

end Literal

end CellReview
