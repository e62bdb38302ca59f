import CellReview.Observe.SessionId
import CellReview.Proofs.Text.Blank
import Mathlib.Algebra.Ring.Nat

/-!
# Written session identifiers

The groups of an identifier hold its digits in order, and no digit is a hyphen.

* `SessionId.digit?_digitChar` — a digit is read back;
* `SessionId.length_cut`, `SessionId.flatten_cut` — cutting into groups loses nothing;
* `SessionId.parse?_text` — **an identifier is read back from its text**.
-/

namespace CellReview.Observe.SessionId

/-! ## Digits -/

theorem digit?_digitChar : ∀ d : Fin 16, digit? (Nat.digitChar d.val) = some d := by
  decide

theorem digitChar_ne_mark : ∀ d : Fin 16, Nat.digitChar d.val ≠ '-' ∧
    Nat.digitChar d.val ≠ '\x7b' ∧ (Nat.digitChar d.val).toLower ≠ 'u' := by
  decide

theorem mapM_digit? (ds : List (Fin 16)) :
    (ds.map fun d => Nat.digitChar d.val).mapM digit? = some ds := by
  induction ds with
  | nil => rfl
  | cons d ds ih => simp [digit?_digitChar, ih]

theorem ofDigits?_digits (id : SessionId) :
    ofDigits? (id.digits.map fun d => Nat.digitChar d.val) = some id := by
  rw [ofDigits?, mapM_digit?]
  exact dif_pos id.size

/-! ## Groups -/

variable {α : Type}

theorem length_cut (sizes : List Nat) {xs : List α} (h : sizes.sum ≤ xs.length) :
    (cut sizes xs).map List.length = sizes := by
  induction sizes generalizing xs with
  | nil => rfl
  | cons n sizes ih =>
    rw [List.sum_cons] at h
    rw [cut, List.map_cons, List.length_take, ih (by rw [List.length_drop]; omega)]
    rw [Nat.min_eq_left (by omega)]

theorem flatten_cut (sizes : List Nat) {xs : List α} (h : xs.length ≤ sizes.sum) :
    (cut sizes xs).flatten = xs := by
  induction sizes generalizing xs with
  | nil => exact (List.length_eq_zero_iff.1 (Nat.le_zero.1 h)).symm
  | cons n sizes ih =>
    rw [List.sum_cons] at h
    rw [cut, List.flatten_cons, ih (by rw [List.length_drop]; omega), List.take_append_drop]

theorem mem_of_mem_cut {sizes : List Nat} {xs part : List α} (h : part ∈ cut sizes xs) :
    ∀ x ∈ part, x ∈ xs := by
  induction sizes generalizing xs with
  | nil => exact absurd h List.not_mem_nil
  | cons n sizes ih =>
    rcases List.mem_cons.1 h with rfl | h
    · exact fun x hx => List.mem_of_mem_take hx
    · exact fun x hx => List.mem_of_mem_drop (ih h x hx)

/-! ## The text -/

/-- The groups of digits are told apart again. -/
theorem ofGroups?_text (id : SessionId) : ofGroups? id.text.toList = some id := by
  have hlength : (id.digits.map fun d => Nat.digitChar d.val).length = groups.sum := by
    rw [List.length_map, id.size]
    rfl
  have hparts : Chars.splitWhere (· == '-') id.text.toList =
      cut groups (id.digits.map fun d => Nat.digitChar d.val) := by
    rw [text, String.toList_ofList]
    refine Chars.splitWhere_intercalate (by simp [groups, cut]) fun part hpart hhyphen => ?_
    obtain ⟨d, -, hd⟩ := List.mem_map.1 (mem_of_mem_cut hpart _ hhyphen)
    exact (digitChar_ne_mark d).1 hd
  simp only [ofGroups?, hparts]
  rw [if_pos (length_cut groups hlength.ge), flatten_cut groups hlength.le, ofDigits?_digits]

/-- An identifier has four hyphens besides its digits. -/
theorem length_text (id : SessionId) : id.text.toList.length = 36 := by
  simp [text, groups, cut, List.intercalate, List.intersperse, id.size]

theorem exists_text_cons (id : SessionId) :
    ∃ (d : Fin 16) (rest : List Char), id.text.toList = Nat.digitChar d.val :: rest := by
  obtain ⟨digits, size⟩ := id
  cases digits with
  | nil => exact absurd size (by decide)
  | cons d digits =>
    rw [text, String.toList_ofList]
    exact ⟨d, _, rfl⟩

/-- An identifier begins with a digit, so it is not wrapped. -/
theorem unwrapped_text (id : SessionId) : unwrapped id.text.toList = id.text.toList := by
  obtain ⟨d, rest, htext⟩ := id.exists_text_cons
  obtain ⟨-, hbrace, hscheme⟩ := digitChar_ne_mark d
  rw [htext, unwrapped, if_neg, if_neg]
  · intro h
    exact hscheme (List.cons.inj h).1
  · rintro ⟨h, -⟩
    exact hbrace (Option.some.inj h)

/-- **An identifier is read back from its text.** -/
theorem parse?_text (id : SessionId) : parse? id.text = some id := by
  rw [parse?, length_text, if_neg (by decide), unwrapped_text, ofGroups?_text]

end CellReview.Observe.SessionId
