import CellReview.Proofs.Json.Legible
import CellReview.Proofs.Number.Shortest

/-!
# The texts of numbers in single width

A finite number in single width is laid out as digits with a point, or as digits with an exponent.
Either is a literal, and one that is never too large, so that it is read back as some number.

* `IsWhole`, `IsFraction`, `IsExponent` — the parts of a literal;
* `Scan.unsigned?_parts` — parts that follow each other are read as a literal;
* `Parts`, `FloatStyle.parts_layout` — every layout consists of such parts;
* `Number.legible_single` — **the text of a finite number is read back**.
-/

namespace CellReview

open Scan

/-! ## The parts of a literal -/

/-- Digits of a whole number: no zero stands in front of others. -/
structure IsWhole (w : List Char) : Prop where
  digits : ∀ c ∈ w, isDigit c = true
  first : w = ['0'] ∨ ∃ c rest, w = c :: rest ∧ digitValue c ≠ 0

/-- A point with digits behind it, or nothing. -/
inductive IsFraction : List Char → Option (List Nat) → Prop where
  | none : IsFraction [] none
  | some {ds : List Char} (hne : ds ≠ []) (hdigits : ∀ c ∈ ds, isDigit c = true) :
      IsFraction ('.' :: ds) (some (ds.map digitValue))

/-- An exponent with its sign, or nothing. -/
inductive IsExponent : List Char → Option (Bool × List Nat) → Prop where
  | none : IsExponent [] none
  | some (down : Bool) (n : Nat) :
      IsExponent ('e' :: (if down then '-' else '+') :: decimal n)
        (some (down, (decimal n).map digitValue))

namespace Scan

theorem digits_of_head {ds rest : List Char} (hds : ∀ c ∈ ds, isDigit c = true)
    (hrest : ∀ c ∈ rest.head?, isDigit c = false) :
    digits (ds ++ rest) = (ds.map digitValue, rest) := by
  have hstop : rest.takeWhile isDigit = [] ∧ rest.dropWhile isDigit = rest := by
    cases rest with
    | nil => exact ⟨rfl, rfl⟩
    | cons c rest =>
      have hc := hrest c rfl
      exact ⟨by simp [hc], by simp [hc]⟩
  rw [digits, List.takeWhile_append_of_pos hds, List.dropWhile_append_of_pos hds, hstop.1,
    hstop.2, List.append_nil]

theorem whole?_append {w rest : List Char} (hw : IsWhole w)
    (hrest : ∀ c ∈ rest.head?, isDigit c = false) :
    whole? (w ++ rest) = some (w.map digitValue, rest) := by
  rw [whole?, digits_of_head hw.digits hrest]
  rcases hw.first with rfl | ⟨c, tail, rfl, hc⟩
  · rfl
  · obtain ⟨d, hd⟩ := Nat.exists_eq_succ_of_ne_zero hc
    rw [List.map_cons, hd]
    rfl

theorem fraction?_append {point rest : List Char} {fraction : Option (List Nat)}
    (hpoint : IsFraction point fraction)
    (hrest : ∀ c ∈ rest.head?, isDigit c = false ∧ c ≠ '.') :
    fraction? (point ++ rest) = some (fraction, rest) := by
  cases hpoint with
  | none =>
    unfold fraction?
    split
    · next heq => exact absurd rfl (hrest '.' (by rw [← List.nil_append rest, heq]; rfl)).2
    · rfl
  | @some ds hne hdigits =>
    obtain ⟨d, rest', hcons⟩ := List.exists_cons_of_ne_nil (mt List.map_eq_nil_iff.1 hne)
    rw [List.cons_append, fraction?, digits_of_head hdigits fun c hc => (hrest c hc).1, hcons]

theorem exponent?_eq_some {text : List Char} {exponent : Option (Bool × List Nat)}
    (h : IsExponent text exponent) : exponent? text = some (exponent, []) := by
  cases h with
  | none => rfl
  | some down n =>
    have hdigits := digits_append (all_isDigit_decimal n) stops_nil
    obtain ⟨c, cs, hcons, -⟩ := exists_decimal_cons n
    rw [List.append_nil, hcons] at hdigits
    cases down <;> simp [exponent?, hdigits, hcons]

theorem head_fraction {point : List Char} {fraction : Option (List Nat)}
    (h : IsFraction point fraction) : ∀ c ∈ point.head?, c = '.' := by
  cases h with
  | none => exact fun c hc => absurd hc (by simp)
  | some hne hdigits => exact fun c hc => (Option.some.inj hc).symm

theorem head_exponent {text : List Char} {exponent : Option (Bool × List Nat)}
    (h : IsExponent text exponent) : ∀ c ∈ text.head?, c = 'e' := by
  cases h with
  | none => exact fun c hc => absurd hc (by simp)
  | some down n => exact fun c hc => (Option.some.inj hc).symm

/-- Parts that follow each other are read as a literal. -/
theorem unsigned?_parts (negative : Bool) {w point text : List Char} {fraction : Option (List Nat)}
    {exponent : Option (Bool × List Nat)} (hw : IsWhole w) (hpoint : IsFraction point fraction)
    (htext : IsExponent text exponent) :
    unsigned? negative (w ++ (point ++ text)) =
      some (⟨negative, w.map digitValue, fraction, exponent⟩, []) := by
  have hexponent : ∀ c ∈ text.head?, isDigit c = false ∧ c ≠ '.' := by
    intro c hc
    rw [head_exponent htext c hc]
    decide
  have hfraction : ∀ c ∈ (point ++ text).head?, isDigit c = false := by
    intro c hc
    rw [List.head?_append] at hc
    rcases Option.or_eq_some_iff.1 hc with hc | ⟨-, hc⟩
    · rw [head_fraction hpoint c hc]
      decide
    · exact (hexponent c hc).1
  simp [unsigned?, whole?_append hw hfraction, fraction?_append hpoint hexponent,
    exponent?_eq_some htext]

end Scan

/-! ## Layouts -/

/-- A text in the parts of a literal that does not shift its digits far. -/
def Parts (cs : List Char) : Prop :=
  ∃ w point text fraction exponent, IsWhole w ∧ IsFraction point fraction ∧
    IsExponent text exponent ∧ cs = w ++ (point ++ text) ∧
      w.length + (Literal.mk false (w.map digitValue) fraction exponent).upward ≤ Literal.safeShift

theorem isWhole_zero : IsWhole ['0'] :=
  ⟨List.forall_mem_singleton.2 rfl, .inl rfl⟩

theorem parts_zero : Parts ['0', '.', '0'] :=
  ⟨['0'], ['.', '0'], [], _, none, isWhole_zero, .some (by simp) isWhole_zero.digits, .none, rfl,
    by decide⟩

theorem digitValue_digit_ne_zero {d : Nat} (hpos : 0 < d) (hlt : d < 10) :
    digitValue (digit d) ≠ 0 := by
  rw [digitValue_digit d hlt]
  omega

/-- Every layout of digits that do not stand far up is in the parts of a literal. -/
theorem FloatStyle.parts_layout (style : FloatStyle) {c : Nat} (hc : 0 < c) {e : Int}
    (he : e ≤ 100) : Parts (style.layout (decimal c) e) := by
  have hdigits := all_isDigit_decimal c
  obtain ⟨d, rest, hpos, hlt, hcons⟩ := decimal_eq_cons hc
  have hfirst := digitValue_digit_ne_zero hpos hlt
  unfold layout
  split
  · split
    · -- a point and zeros before the digits
      refine ⟨['0'], '.' :: (List.replicate (-e - 1).toNat '0' ++ decimal c), [], _, none,
        isWhole_zero, .some (by simp [hcons]) ?_, .none, by simp, by simp [Literal.upward,
          Literal.safeShift]⟩
      exact List.forall_mem_append.2 ⟨all_isDigit_zeros _, hdigits⟩
    · -- a point among the digits, or behind them and zeros
      refine ⟨(decimal c).take (e.toNat + 1) ++
          List.replicate (e.toNat + 1 - (decimal c).length) '0',
        '.' :: (if ((decimal c).drop (e.toNat + 1)).isEmpty then ['0']
          else (decimal c).drop (e.toNat + 1)), [], _, none, ⟨?digits, ?first⟩,
        .some ?solid ?fraction, .none, by simp, ?size⟩
      case digits =>
        exact List.forall_mem_append.2
          ⟨fun x hx => hdigits x (List.mem_of_mem_take hx), all_isDigit_zeros _⟩
      case first =>
        rw [hcons, List.take_succ_cons, List.cons_append]
        exact .inr ⟨_, _, rfl, hfirst⟩
      case solid =>
        split
        · simp
        · rename_i hne
          exact mt List.isEmpty_iff.2 hne
      case fraction =>
        split
        · exact isWhole_zero.digits
        · exact fun x hx => hdigits x (List.mem_of_mem_drop hx)
      case size =>
        simp only [Literal.upward, Literal.safeShift, List.length_append, List.length_take,
          List.length_replicate]
        omega
  · -- an exponent behind the first digit and a point
    have hexponent : IsExponent ('e' :: (if e < 0 then '-' else '+') :: decimal e.natAbs)
        (some (decide (e < 0), (decimal e.natAbs).map digitValue)) := by
      simpa using IsExponent.some (decide (e < 0)) e.natAbs
    have hwhole : IsWhole [digit d] :=
      ⟨List.forall_mem_singleton.2 (isDigit_digit d hlt), .inr ⟨_, _, rfl, hfirst⟩⟩
    have hsize : ∀ fraction, [digit d].length +
        (Literal.mk false ([digit d].map digitValue) fraction
          (some (decide (e < 0), (decimal e.natAbs).map digitValue))).upward ≤
            Literal.safeShift := by
      intro fraction
      simp only [Literal.upward, Literal.safeShift, List.length_singleton]
      by_cases hneg : e < 0
      · simp [hneg]
      · simp only [hneg, decide_false, ofDigits_decimal]
        omega
    rw [hcons] at hdigits ⊢
    cases rest with
    | nil =>
      exact ⟨[digit d], [], _, none, _, hwhole, .none, hexponent, rfl, hsize _⟩
    | cons x rest =>
      refine ⟨[digit d], '.' :: x :: rest, _, _, _, hwhole, .some (by simp) ?_, hexponent, ?_,
        hsize _⟩
      · exact (List.forall_mem_cons.1 hdigits).2
      · simp

/-! ## Numbers -/

/-- A text in parts, with a sign or without, is a literal that has a number. -/
theorem exists_literal_of_parts {cs : List Char} (h : Parts cs) (negative : Bool) :
    ∃ l, literal? (if negative then '-' :: cs else cs) = some (l, []) ∧
      (numberOf? l).isSome = true := by
  obtain ⟨w, point, text, fraction, exponent, hw, hpoint, htext, rfl, hsize⟩ := h
  refine ⟨⟨negative, w.map digitValue, fraction, exponent⟩, ?_, ?_⟩
  · have hparts := unsigned?_parts negative hw hpoint htext
    cases negative with
    | true => exact hparts
    | false =>
      obtain ⟨c, rest, hcons, hc⟩ : ∃ c rest, w ++ (point ++ text) = c :: rest ∧ c ≠ '-' := by
        have hsign : ∀ c, isDigit c = true → c ≠ '-' := by
          rintro c hc rfl
          exact absurd hc (by decide)
        rcases hw.first with rfl | ⟨c, rest, rfl, -⟩
        · exact ⟨_, _, rfl, by decide⟩
        · exact ⟨c, _, rfl, hsign c (hw.digits c List.mem_cons_self)⟩
      rw [if_neg (by decide)]
      rw [hcons] at hparts ⊢
      rw [← hparts]
      simp [literal?, unsigned?, hc]
  · rw [numberOf?, Option.isSome_map]
    refine Literal.isSome_value? ?_
    rw [List.length_map]
    exact hsize

/-- **The text of a finite number in single width is read back**, as some number, whatever
follows it. -/
theorem Number.legible_single {x : Binary .single} (hfinite : x.isFinite = true)
    (hformat : x.InFormat) :
    (Number.single x).Legible ∧ ∃ n, (Number.single x).reread = some n := by
  cases x with
  | infinite s => exact absurd hfinite (by simp [Binary.isFinite])
  | nan => exact absurd hfinite (by simp [Binary.isFinite])
  | finite s m q =>
    obtain ⟨hlt, -, hq⟩ := hformat
    have hparts : Parts (if m = 0 then ['0', '.', '0']
        else singleStyle.layout (decimal (Binary.shortest .single m q).1)
          ((Binary.shortest .single m q).2 +
            (decimal (Binary.shortest .single m q).1).length - 1)) := by
      split
      · exact parts_zero
      · have hm : 0 < m := Nat.pos_of_ne_zero ‹_›
        have hexponent := Binary.exponent_shortest_le hm hlt hq
        exact singleStyle.parts_layout
          (Binary.shortest_bounds (f := .single) hm hlt hq (by decide)).1 (by omega)
    obtain ⟨l, hliteral, hnumber⟩ := exists_literal_of_parts hparts s
    have hchars : literal? (Json.numberChars (.single (.finite s m q))) = some (l, []) := by
      rw [← hliteral, Json.numberChars, FloatStyle.render, Option.getD_some, String.toList_ofList]
    obtain ⟨-, hlocal⟩ := local_literal? _ _ _ hchars
    obtain ⟨n, hn⟩ := Option.isSome_iff_exists.1 hnumber
    exact ⟨⟨l, hlocal⟩, n, by rw [Number.reread, hchars, Option.bind_some, hn]⟩

end CellReview
