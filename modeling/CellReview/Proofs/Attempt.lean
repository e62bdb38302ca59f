import Mathlib.Logic.Basic

/-!
# Attempts that succeed

Most functions here are attempts that are made one after the other, and the first that fails ends
them.  So when the whole of them succeeds, each of them does.

* `bind_eq_ok_iff` — an attempt and what is attempted with its result;
* `map_eq_ok_iff` — a result that is changed afterwards;
* `exists_of_mem_mapM` — a list of attempts.
-/

namespace CellReview

variable {ε α β : Type} {x : Except ε α} {b : β}

/-- An attempt and another with its result succeed when both do. -/
theorem bind_eq_ok_iff {f : α → Except ε β} : x >>= f = .ok b ↔ ∃ a, x = .ok a ∧ f a = .ok b := by
  cases x <;> simp [bind, Except.bind]

theorem map_eq_ok_iff {f : α → β} : x.map f = .ok b ↔ ∃ a, x = .ok a ∧ f a = b := by
  cases x <;> simp [Except.map]

/-- What is collected from a list of attempts came from one of them. -/
theorem exists_of_mem_mapM {f : α → Except ε β} {xs : List α} {ys : List β}
    (h : xs.mapM f = .ok ys) {y : β} (hy : y ∈ ys) : ∃ x ∈ xs, f x = .ok y := by
  induction xs generalizing ys with
  | nil =>
    cases h
    exact absurd hy List.not_mem_nil
  | cons x xs ih =>
    rw [List.mapM_cons] at h
    obtain ⟨z, hz, h⟩ := bind_eq_ok_iff.1 h
    obtain ⟨zs, hzs, hcons⟩ := bind_eq_ok_iff.1 h
    obtain rfl : z :: zs = ys := Except.ok.inj hcons
    rcases List.mem_cons.1 hy with rfl | hy
    · exact ⟨x, List.mem_cons_self, hz⟩
    · obtain ⟨w, hw, hfw⟩ := ih hzs hy
      exact ⟨w, List.mem_cons_of_mem _ hw, hfw⟩

end CellReview
