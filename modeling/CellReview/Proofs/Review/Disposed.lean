import CellReview.Proofs.Review.Exclusive

/-!
# A deleted cell comes back only by a rendering in it

A notebook forgets a deleted cell, but it stays the active one if it was.  So it is tracked again
as soon as a difference is shown before the notebook turns to another cell, and it keeps these
stripes until it is deleted once more.

* `NotebookChange.renders`, `Revived` — a rendering before any other cell is turned to;
* `Notebook.mem_names_change` — the tracked cells after a change;
* `Notebook.Forgotten` — the invariant: a deleted cell is unknown, and tracked only if revived;
* `disposed_stays_forgotten` — **when a deleted cell is tracked again**;
* `disposed_active_returns` — the active cell does return.
-/

namespace CellReview.Review

open Diff (Entry)

/-! ## Renderings in a deleted cell -/

/-- Whether a change shows a difference, or none. -/
def NotebookChange.renders : NotebookChange → Bool
  | render _ => true
  | _ => false

open NotebookChange

/-- Among some changes there is a rendering before the notebook turns to a cell, and the given
cell is not deleted behind it. -/
def Revived (cell : String) (changes : List NotebookChange) : Prop :=
  ∃ before c after, changes = before ++ c :: after ∧ c.renders = true ∧
    (∀ b ∈ before, b.activated? = none) ∧ ∀ a ∈ after, a.disposed? ≠ some cell

theorem not_revived_nil (cell : String) : ¬ Revived cell [] := by
  rintro ⟨before, c, after, heq, -⟩
  exact absurd heq (by simp)

theorem revived_concat_iff {cell : String} {changes : List NotebookChange} {c : NotebookChange} :
    Revived cell (changes ++ [c]) ↔
      (c.renders = true ∧ ∀ b ∈ changes, b.activated? = none) ∨
        Revived cell changes ∧ c.disposed? ≠ some cell := by
  constructor
  · rintro ⟨before, x, after, heq, hx, hbefore, hafter⟩
    cases after using List.reverseRecOn with
    | nil =>
      obtain ⟨rfl, hlast⟩ := List.append_inj' heq rfl
      obtain rfl := List.singleton_inj.1 hlast
      exact .inl ⟨hx, hbefore⟩
    | append_singleton after y =>
      rw [← List.cons_append, ← List.append_assoc] at heq
      obtain ⟨rfl, hy⟩ := List.append_inj' heq rfl
      obtain rfl := List.singleton_inj.1 hy
      obtain ⟨hafter, hlast⟩ := List.forall_mem_append.1 hafter
      exact .inr ⟨⟨before, x, after, rfl, hx, hbefore, hafter⟩,
        hlast c (List.mem_singleton_self c)⟩
  · rintro (⟨hrenders, hquiet⟩ | ⟨⟨before, x, after, rfl, hx, hbefore, hafter⟩, hkept⟩)
    · exact ⟨changes, c, [], rfl, hrenders, hquiet, fun _ ha => absurd ha List.not_mem_nil⟩
    · refine ⟨before, x, after ++ [c], by simp, hx, hbefore, ?_⟩
      exact List.forall_mem_append.2 ⟨hafter, List.forall_mem_singleton.2 hkept⟩

/-- As long as no cell is turned to, the active cell stays the same. -/
theorem activeAfter_eq_iff {active cell : String} {changes : List NotebookChange}
    (h : ∀ c ∈ changes, c.activated? ≠ some cell) :
    activeAfter active changes = cell ↔ active = cell ∧ ∀ c ∈ changes, c.activated? = none := by
  induction changes using List.reverseRecOn with
  | nil => simp [activeAfter, lastOf]
  | append_singleton changes c ih =>
    obtain ⟨hbefore, hlast⟩ := List.forall_mem_append.1 h
    rw [activeAfter, lastOf_concat, List.forall_mem_append, List.forall_mem_singleton]
    cases hc : c.activated? with
    | none => simpa [activeAfter] using ih hbefore
    | some other =>
      have hother : other ≠ cell := fun heq =>
        hlast c (List.mem_singleton_self c) (hc.trans (congrArg some heq))
      simp [hother]

/-! ## Tracked cells -/

namespace Notebook

variable {n : Notebook}

/-- A change tracks the cells that it renders and no longer one that it deletes. -/
theorem mem_names_change {c : NotebookChange} {cell : String} :
    cell ∈ (n.change c).registry.names ↔
      (c.renders = true ∧ (cell = n.active ∨ cell ∈ n.cells)) ∨
        cell ∈ n.registry.names ∧ c.disposed? ≠ some cell := by
  cases c with
  | render lines =>
    show cell ∈ (n.registry.sync n.active n.cells lines).names ↔ _
    rw [Registry.sync_eq, Registry.mem_names_set, Registry.mem_names_clear]
    simp [renders, disposed?, or_assoc]
  | activate other => simp [change, setActive, renders, disposed?]
  | preview mode =>
    show cell ∈ n.registry.names ↔ _
    simp [renders, disposed?]
  | dispose other =>
    show cell ∈ (n.registry.dispose other).names ↔ _
    rw [Registry.names_dispose, List.mem_filter, bne_iff_ne, disposed?, ne_comm]
    simp [renders]

/-- What some changes behind the deletion of a cell have made of a notebook, as long as none of
them turns to the cell. -/
structure Forgotten (cell active : String) (changes : List NotebookChange) (n : Notebook) :
    Prop where
  active_eq : n.active = activeAfter active changes
  unknown : cell ∉ n.cells
  tracked_iff : cell ∈ n.registry.names ↔ active = cell ∧ Revived cell changes

variable {cell active : String} {changes : List NotebookChange}

theorem Forgotten.dispose (n : Notebook) (cell : String) :
    (n.dispose cell).Forgotten cell n.active [] where
  active_eq := rfl
  unknown hmem := by simp [Notebook.dispose] at hmem
  tracked_iff := by
    show cell ∈ (n.registry.dispose cell).names ↔ _
    rw [Registry.names_dispose]
    simp [not_revived_nil]

/-- A change that does not turn to the deleted cell tracks it only by a rendering, and only if it
is still the active one. -/
theorem Forgotten.change (h : n.Forgotten cell active changes)
    (hbefore : ∀ c ∈ changes, c.activated? ≠ some cell) {c : NotebookChange}
    (hc : c.activated? ≠ some cell) : (n.change c).Forgotten cell active (changes ++ [c]) where
  active_eq := by
    rw [active_change, h.active_eq, activeAfter, activeAfter, lastOf_concat]
  unknown := by
    rw [mem_cells_change]
    exact fun hmem => hmem.elim hc fun hknown => h.unknown hknown.1
  tracked_iff := by
    have hactive : cell = n.active ↔ active = cell ∧ ∀ c ∈ changes, c.activated? = none := by
      rw [h.active_eq, eq_comm, activeAfter_eq_iff hbefore]
    rw [mem_names_change, or_iff_left h.unknown, hactive, h.tracked_iff, revived_concat_iff]
    tauto

theorem forgotten_changeAll (n : Notebook) (cell : String)
    (h : ∀ c ∈ changes, c.activated? ≠ some cell) :
    ((n.dispose cell).changeAll changes).Forgotten cell n.active changes := by
  induction changes using List.reverseRecOn with
  | nil => exact .dispose n cell
  | append_singleton changes c ih =>
    obtain ⟨hbefore, hlast⟩ := List.forall_mem_append.1 h
    rw [changeAll, List.foldl_concat]
    exact (ih hbefore).change hbefore (hlast c (List.mem_singleton_self c))

end Notebook

/-- **A deleted cell stays forgotten unless a rendering revives it.**  A cell of a notebook is
deleted; then differences are shown, other cells are turned to, modes are chosen and cells are
deleted, in any order.  The cell is unknown to the notebook, and as long as it is not tracked it
has no stripes.  It is tracked exactly if it was the active one and a difference, or none, was
shown before the notebook turned to another cell, and if it was not deleted again since. -/
theorem disposed_stays_forgotten (n : Notebook) (cell : String) (changes : List NotebookChange)
    (hquiet : ∀ c ∈ changes, c.activated? ≠ some cell) :
    let later := (n.dispose cell).changeAll changes
    cell ∉ later.cells ∧
    (later.registry.tracks cell = true ↔ n.active = cell ∧ Revived cell changes) ∧
    (later.registry.tracks cell = false → later.registry.stripesOf cell = []) := by
  intro later
  have h : later.Forgotten cell n.active changes := Notebook.forgotten_changeAll n cell hquiet
  refine ⟨h.unknown, later.registry.tracks_iff.trans h.tracked_iff, fun huntracked => ?_⟩
  refine later.registry.stripesOf_of_not_mem fun hmem => ?_
  exact absurd (later.registry.tracks_iff.2 hmem) (by simp [huntracked])

/-- The active cell is deleted in the middle of a review, but the notebook turns to another cell
before the next difference is shown. -/
theorem disposed_stays_forgotten_turned :
    let difference : List Entry := (Diff.UnifiedDiff.compute "x = 1" "x = 2").lines
    let notebook := (Notebook.start "a" ["a", "b"]).render (some difference)
    let changes : List NotebookChange :=
      [.preview .unified, .activate "b", .render (some difference), .dispose "c", .render none]
    let later := (notebook.dispose "a").changeAll changes
    notebook.registry.tracks "a" = true ∧ later.registry.tracks "a" = false ∧
      later.registry.stripesOf "a" = [] := by
  intro difference notebook changes later
  obtain ⟨-, -, hclear⟩ := disposed_stays_forgotten notebook "a" changes (by decide +kernel)
  have huntracked : later.registry.tracks "a" = false := by decide +kernel
  exact ⟨by decide +kernel, huntracked, hclear huntracked⟩

/-- The active cell is deleted and the next difference is shown in it all the same; it keeps its
stripes when the notebook turns to another cell. -/
theorem disposed_active_returns :
    ∃ (n : Notebook) (cell : String) (changes : List NotebookChange),
      (∀ c ∈ changes, c.activated? ≠ some cell) ∧
      ((n.dispose cell).changeAll changes).registry.tracks cell = true ∧
      ((n.dispose cell).changeAll changes).registry.stripesOf cell ≠ [] := by
  let difference : List Entry := (Diff.UnifiedDiff.compute "x = 1" "x = 2").lines
  refine ⟨.start "a" ["a", "b"], "a",
    [.render (some difference), .activate "b", .render (some difference)], ?_, ?_, ?_⟩ <;>
    decide +kernel

end CellReview.Review
