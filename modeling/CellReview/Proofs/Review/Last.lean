import Mathlib.Data.List.Induction

/-!
# The last entry of two kinds

Of a list whose entries set something, or switch it on and off, only the last one of them counts.

* `lastOf` — what the last entry that sets something sets it to;
* `EndsOn` — the last entry of two kinds is of the first kind;
* `endsOn_concat_iff`, `endsOn_iff` — one entry more, and reading the entries in order.
-/

namespace CellReview.Review

variable {α β : Type} (on off : α → Bool)

/-- What the last entry that sets something sets it to. -/
def lastOf (sets? : α → Option β) (first : β) (entries : List α) : β :=
  (entries.filterMap sets?).getLast?.getD first

theorem lastOf_concat (sets? : α → Option β) (first : β) (entries : List α) (e : α) :
    lastOf sets? first (entries ++ [e]) = (sets? e).getD (lastOf sets? first entries) := by
  rw [lastOf, lastOf, List.filterMap_append]
  cases he : sets? e with
  | none => simp [he]
  | some value => simp [he]

/-- Some entry is of the kind `on`, and behind the last one of them none is of the kind `off`. -/
def EndsOn (entries : List α) : Prop :=
  ∃ before e after, entries = before ++ e :: after ∧ on e = true ∧
    ∀ a ∈ after, on a = false ∧ off a = false

/-- One more entry, read after it was known whether those before it end on the kind `on`. -/
def endsWith (before : Bool) (e : α) : Bool :=
  on e || (before && !off e)

theorem endsOn_concat_iff (entries : List α) (e : α) :
    EndsOn on off (entries ++ [e]) ↔ on e = true ∨ EndsOn on off entries ∧ off e = false := by
  constructor
  · rintro ⟨before, x, after, heq, hx, hafter⟩
    cases after using List.reverseRecOn with
    | nil =>
      obtain rfl := List.singleton_inj.1 (List.append_inj_right' heq rfl)
      exact .inl hx
    | append_singleton after y =>
      rw [← List.cons_append, ← List.append_assoc] at heq
      obtain ⟨hentries, hy⟩ := List.append_inj' heq rfl
      obtain rfl := List.singleton_inj.1 hy
      have hlast := hafter e (List.mem_append_right _ (List.mem_singleton_self e))
      refine .inr ⟨⟨before, x, after, hentries, hx, fun a ha => ?_⟩, hlast.2⟩
      exact hafter a (List.mem_append_left _ ha)
  · rintro (he | ⟨⟨before, x, after, rfl, hx, hafter⟩, he⟩)
    · exact ⟨entries, e, [], rfl, he, fun _ ha => absurd ha List.not_mem_nil⟩
    · by_cases hon : on e = true
      · exact ⟨_, e, [], rfl, hon, fun _ ha => absurd ha List.not_mem_nil⟩
      · refine ⟨before, x, after ++ [e], by simp, hx, fun a ha => ?_⟩
        rcases List.mem_append.1 ha with ha | ha
        · exact hafter a ha
        · rw [List.mem_singleton.1 ha]
          exact ⟨Bool.eq_false_iff.2 hon, he⟩

/-- Whether entries end on a kind is found out by reading them one after the other. -/
theorem endsOn_iff (entries : List α) :
    EndsOn on off entries ↔ entries.foldl (endsWith on off) false = true := by
  induction entries using List.reverseRecOn with
  | nil =>
    refine ⟨?_, fun h => absurd h Bool.false_ne_true⟩
    rintro ⟨before, e, after, heq, -⟩
    exact absurd heq (by simp)
  | append_singleton entries e ih =>
    rw [endsOn_concat_iff, ih, List.foldl_append, List.foldl_cons, List.foldl_nil, endsWith]
    simp

end CellReview.Review
