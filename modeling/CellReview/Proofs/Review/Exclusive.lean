import CellReview.Proofs.Review.Last
import CellReview.Proofs.Review.Stripes
import Mathlib.Data.List.Dedup

/-!
# Only the active cell is striped

A rendering clears the cells that the notebook knows and stripes the active one.  That leaves no
other cell striped because every tracked cell is a known one, and it tracks exactly the known
cells because the active cell is one of them; both survive as long as the active cell is not
disposed.

* `Registry.names` — the tracked cells; `mem_names_set`, `stripesOf_set_of_ne`,
  `mem_names_clear`, `stripesOf_clear` — setting one cell and clearing many;
* `NotebookChange`, `Notebook.changeAll` — what is done to a notebook;
* `activeAfter`, `modeAfter`, `Known` — the active cell, the mode of previews and the known cells
  by the changes alone;
* `Notebook.Tidy` — the invariant;
* `only_active_striped` — **after every rendering only the active cell is striped**.
-/

namespace CellReview.Review

open Diff (Entry)

/-! ## Registries -/

namespace Registry

variable (r : Registry)

/-- The tracked cells. -/
def names : List String :=
  r.cells.map Prod.fst

theorem tracks_iff {cell : String} : r.tracks cell = true ↔ cell ∈ r.names := by
  simp [tracks, names]

theorem stripesOf_of_not_mem {cell : String} (h : cell ∉ r.names) : r.stripesOf cell = [] := by
  have hnone : r.cells.find? (fun entry => entry.1 == cell) = none := by
    rw [List.find?_eq_none]
    intro entry hentry hname
    exact h (List.mem_map.2 ⟨entry, hentry, beq_iff_eq.1 hname⟩)
  rw [stripesOf, hnone]
  rfl

theorem names_set (cell : String) (striped : List Stripe) :
    (r.set cell striped).names = if cell ∈ r.names then r.names else r.names ++ [cell] := by
  rw [set]
  by_cases htracked : r.tracks cell = true
  · rw [if_pos htracked, if_pos (r.tracks_iff.1 htracked), names, names, List.map_map]
    refine List.map_congr_left fun entry _ => ?_
    show (if (entry.1 == cell) = true then (cell, striped) else entry).1 = entry.1
    split
    · rename_i hentry
      exact (beq_iff_eq.1 hentry).symm
    · rfl
  · rw [if_neg htracked, if_neg fun hmem => htracked (r.tracks_iff.2 hmem)]
    simp [names]

theorem mem_names_set {cell other : String} {striped : List Stripe} :
    other ∈ (r.set cell striped).names ↔ other = cell ∨ other ∈ r.names := by
  rw [names_set]
  split
  · rename_i hcell
    exact ⟨.inr, fun h => h.elim (fun heq => heq ▸ hcell) id⟩
  · rw [List.mem_append, List.mem_singleton, or_comm]

theorem nodup_names_set {r : Registry} (h : r.names.Nodup) (cell : String)
    (striped : List Stripe) : (r.set cell striped).names.Nodup := by
  rw [names_set]
  split
  · exact h
  · rename_i hcell
    exact h.append (List.nodup_singleton cell) (List.disjoint_singleton.2 hcell)

theorem find?_replaced_of_ne {cell other : String} (h : other ≠ cell) (striped : List Stripe)
    (cells : List (String × List Stripe)) :
    (cells.map fun entry => if entry.1 == cell then (cell, striped) else entry).find?
      (fun entry => entry.1 == other) = cells.find? fun entry => entry.1 == other := by
  have hcell : (cell == other) = false := beq_false_of_ne h.symm
  induction cells with
  | nil => rfl
  | cons entry cells ih =>
    rw [List.map_cons, List.find?_cons, List.find?_cons, ih]
    by_cases hentry : (entry.1 == cell) = true
    · have hother : (entry.1 == other) = false := by
        rw [beq_iff_eq.1 hentry]
        exact hcell
      simp only [if_pos hentry, hcell, hother]
    · rw [if_neg hentry]

theorem stripesOf_set_of_ne {cell other : String} (h : other ≠ cell) (striped : List Stripe) :
    (r.set cell striped).stripesOf other = r.stripesOf other := by
  rw [stripesOf, stripesOf, set]
  split
  · rw [find?_replaced_of_ne h]
  · rw [List.find?_append, List.find?_cons_of_neg (by simpa using h.symm), List.find?_nil,
      Option.or_none]

/-- A registry in which some cells were cleared. -/
def clear (cells : List String) : Registry :=
  cells.foldl (fun r cell => r.set cell []) r

theorem mem_names_clear {cells : List String} {cell : String} :
    cell ∈ (r.clear cells).names ↔ cell ∈ cells ∨ cell ∈ r.names := by
  induction cells generalizing r with
  | nil => simp [clear]
  | cons first cells ih =>
    rw [clear, List.foldl_cons, ← clear, ih, mem_names_set, List.mem_cons]
    exact or_left_comm.trans or_assoc.symm

theorem nodup_names_clear {r : Registry} (h : r.names.Nodup) (cells : List String) :
    (r.clear cells).names.Nodup := by
  induction cells generalizing r with
  | nil => exact h
  | cons first cells ih => exact ih (nodup_names_set h first [])

theorem stripesOf_clear (cells : List String) (cell : String) :
    (r.clear cells).stripesOf cell = if cell ∈ cells then [] else r.stripesOf cell := by
  induction cells generalizing r with
  | nil => rfl
  | cons first cells ih =>
    rw [clear, List.foldl_cons, ← clear, ih]
    by_cases hlater : cell ∈ cells
    · rw [if_pos hlater, if_pos (List.mem_cons_of_mem first hlater)]
    · rw [if_neg hlater]
      by_cases hfirst : cell = first
      · rw [if_pos (List.mem_cons.2 (.inl hfirst)), hfirst, stripesOf_set]
      · rw [if_neg (by simp [hfirst, hlater]), stripesOf_set_of_ne r hfirst]

theorem sync_eq (active : String) (cells : List String) (lines : Option (List Entry)) :
    r.sync active cells lines =
      (r.clear cells).set active ((lines.map (stripes r.preview)).getD []) := rfl

theorem names_dispose (cell : String) :
    (r.dispose cell).names = r.names.filter (· != cell) := by
  rw [names, names, dispose, List.filter_map]
  rfl

end Registry

/-! ## Changes of a notebook -/

/-- Something done to a notebook. -/
inductive NotebookChange where
  /-- A difference is shown in the active cell, or none. -/
  | render (lines : Option (List Entry))
  /-- The notebook turns to a cell, maybe a new one. -/
  | activate (cell : String)
  /-- What previews show is chosen. -/
  | preview (mode : PreviewMode)
  /-- A cell is deleted. -/
  | dispose (cell : String)

namespace NotebookChange

/-- The cell that a change turns to. -/
def activated? : NotebookChange → Option String
  | activate cell => some cell
  | _ => none

/-- The mode of previews that a change chooses. -/
def mode? : NotebookChange → Option PreviewMode
  | preview mode => some mode
  | _ => none

/-- The cell that a change deletes. -/
def disposed? : NotebookChange → Option String
  | dispose cell => some cell
  | _ => none

/-- Whether a change turns to a cell. -/
def activates (cell : String) (c : NotebookChange) : Bool :=
  c.activated? == some cell

/-- Whether a change deletes a cell. -/
def disposes (cell : String) (c : NotebookChange) : Bool :=
  c.disposed? == some cell

theorem activates_iff {cell : String} {c : NotebookChange} :
    c.activates cell = true ↔ c.activated? = some cell :=
  beq_iff_eq

theorem disposes_eq_false_iff {cell : String} {c : NotebookChange} :
    c.disposes cell = false ↔ c.disposed? ≠ some cell :=
  beq_eq_false_iff_ne

end NotebookChange

open NotebookChange

/-- Change a notebook. -/
def Notebook.change (n : Notebook) : NotebookChange → Notebook
  | .render lines => n.render lines
  | .activate cell => n.setActive cell
  | .preview mode => n.setPreview mode
  | .dispose cell => n.dispose cell

/-- Change a notebook several times. -/
def Notebook.changeAll (n : Notebook) (changes : List NotebookChange) : Notebook :=
  changes.foldl change n

/-- The active cell after some changes: the last one that was turned to. -/
def activeAfter (active : String) (changes : List NotebookChange) : String :=
  lastOf activated? active changes

/-- What previews show after some changes: the mode that was chosen last. -/
def modeAfter (changes : List NotebookChange) : PreviewMode :=
  lastOf mode? .proposed changes

/-- A cell is known if it was turned to, or there from the start, and not deleted since. -/
def Known (cells : List String) (changes : List NotebookChange) (cell : String) : Prop :=
  EndsOn (activates cell) (disposes cell) changes ∨
    cell ∈ cells ∧ ∀ c ∈ changes, c.disposes cell = false

theorem known_concat_iff {cells : List String} {changes : List NotebookChange}
    {c : NotebookChange} {cell : String} :
    Known cells (changes ++ [c]) cell ↔
      c.activated? = some cell ∨ Known cells changes cell ∧ c.disposed? ≠ some cell := by
  rw [Known, endsOn_concat_iff, List.forall_mem_append, List.forall_mem_singleton, Known,
    activates_iff, disposes_eq_false_iff, or_and_right, or_assoc, and_assoc]

/-! ## The invariant -/

/-- What some changes have made of a notebook that began with the given cells: the active cell is
a known one, every tracked cell is, and no cell is tracked twice. -/
structure Notebook.Tidy (active : String) (cells : List String) (changes : List NotebookChange)
    (n : Notebook) : Prop where
  active_eq : n.active = activeAfter active changes
  preview_eq : n.registry.preview = modeAfter changes
  mem_cells_iff : ∀ cell, cell ∈ n.cells ↔ Known cells changes cell
  active_mem : n.active ∈ n.cells
  tracked_mem : ∀ cell ∈ n.registry.names, cell ∈ n.cells
  nodup : n.registry.names.Nodup

namespace Notebook

variable {active : String} {cells : List String} {changes : List NotebookChange} {n : Notebook}

theorem active_change (c : NotebookChange) :
    (n.change c).active = c.activated?.getD n.active := by
  cases c <;> rfl

theorem preview_change (c : NotebookChange) :
    (n.change c).registry.preview = c.mode?.getD n.registry.preview := by
  cases c with
  | render lines => exact n.preview_render lines
  | _ => rfl

theorem mem_cells_change {c : NotebookChange} {cell : String} :
    cell ∈ (n.change c).cells ↔
      c.activated? = some cell ∨ cell ∈ n.cells ∧ c.disposed? ≠ some cell := by
  cases c with
  | render lines => simp [change, render, activated?, disposed?]
  | preview mode => simp [change, setPreview, activated?, disposed?]
  | activate other =>
    show cell ∈ (if n.cells.contains other then n.cells else n.cells ++ [other]) ↔ _
    rw [activated?, Option.some_inj, and_iff_left (by simp [disposed?])]
    split
    · rename_i hother
      rw [List.contains_iff_mem] at hother
      exact ⟨.inr, fun h => h.elim (fun heq => heq ▸ hother) id⟩
    · rw [List.mem_append, List.mem_singleton, or_comm, eq_comm]
  | dispose other =>
    show cell ∈ n.cells.filter (· != other) ↔ _
    rw [List.mem_filter, bne_iff_ne, disposed?, ne_comm]
    simp [activated?]

/-- A rendering of a tidy notebook tracks the known cells and no others. -/
theorem Tidy.mem_names_render (h : n.Tidy active cells changes) (lines : Option (List Entry))
    (cell : String) : cell ∈ (n.render lines).registry.names ↔ cell ∈ n.cells := by
  show cell ∈ (n.registry.sync n.active n.cells lines).names ↔ _
  rw [Registry.sync_eq, Registry.mem_names_set, Registry.mem_names_clear]
  constructor
  · rintro (rfl | hcell | hcell)
    · exact h.active_mem
    · exact hcell
    · exact h.tracked_mem cell hcell
  · exact fun hcell => .inr (.inl hcell)

theorem Tidy.nodup_names_render (h : n.Tidy active cells changes)
    (lines : Option (List Entry)) : (n.render lines).registry.names.Nodup :=
  Registry.nodup_names_set (Registry.nodup_names_clear h.nodup n.cells) n.active _

/-- A rendering of a tidy notebook leaves no stripes beside the other cells: the known ones are
cleared, and the others are not tracked. -/
theorem Tidy.stripesOf_render (h : n.Tidy active cells changes) (lines : Option (List Entry))
    {cell : String} (hcell : cell ≠ n.active) :
    (n.render lines).registry.stripesOf cell = [] := by
  show (n.registry.sync n.active n.cells lines).stripesOf cell = []
  rw [Registry.sync_eq, Registry.stripesOf_set_of_ne _ hcell, Registry.stripesOf_clear]
  split
  · rfl
  · rename_i hunknown
    exact n.registry.stripesOf_of_not_mem fun htracked =>
      hunknown (h.tracked_mem cell htracked)

theorem Tidy.start (hactive : active ∈ cells) :
    (Notebook.start active cells).Tidy active cells [] where
  active_eq := rfl
  preview_eq := rfl
  mem_cells_iff cell := by
    refine ⟨fun hcell => .inr ⟨hcell, fun _ hc => absurd hc List.not_mem_nil⟩, ?_⟩
    rintro (⟨before, c, after, heq, -⟩ | ⟨hcell, -⟩)
    · exact absurd heq (by simp)
    · exact hcell
  active_mem := hactive
  tracked_mem _ hcell := absurd hcell List.not_mem_nil
  nodup := List.nodup_nil

/-- A change keeps a notebook tidy unless it deletes the active cell. -/
theorem Tidy.change (h : n.Tidy active cells changes) {c : NotebookChange}
    (hspared : c.disposed? ≠ some n.active) :
    (n.change c).Tidy active cells (changes ++ [c]) where
  active_eq := by
    rw [active_change, activeAfter, lastOf_concat, h.active_eq, activeAfter]
  preview_eq := by
    rw [preview_change, modeAfter, lastOf_concat, h.preview_eq, modeAfter]
  mem_cells_iff cell := by
    rw [mem_cells_change, known_concat_iff, h.mem_cells_iff]
  active_mem := by
    rw [mem_cells_change, active_change]
    cases c.activated? with
    | some cell => exact .inl rfl
    | none => exact .inr ⟨h.active_mem, hspared⟩
  tracked_mem cell htracked := by
    rw [mem_cells_change]
    cases c with
    | render lines => exact .inr ⟨(h.mem_names_render lines cell).1 htracked, by simp [disposed?]⟩
    | activate other => exact .inr ⟨h.tracked_mem cell htracked, by simp [disposed?]⟩
    | preview mode => exact .inr ⟨h.tracked_mem cell htracked, by simp [disposed?]⟩
    | dispose other =>
      change cell ∈ (n.registry.dispose other).names at htracked
      rw [Registry.names_dispose, List.mem_filter, bne_iff_ne] at htracked
      exact .inr ⟨h.tracked_mem cell htracked.1, fun heq => htracked.2 (Option.some.inj heq).symm⟩
  nodup := by
    cases c with
    | render lines => exact h.nodup_names_render lines
    | activate other => exact h.nodup
    | preview mode => exact h.nodup
    | dispose other =>
      show (n.registry.dispose other).names.Nodup
      rw [Registry.names_dispose]
      exact h.nodup.filter _

/-- Changes that never delete the cell active at that moment keep a notebook tidy. -/
theorem tidy_changeAll (hactive : active ∈ cells)
    (hspared : ∀ i (hi : i < changes.length),
      changes[i].disposed? ≠ some (activeAfter active (changes.take i))) :
    ((Notebook.start active cells).changeAll changes).Tidy active cells changes := by
  induction changes using List.reverseRecOn with
  | nil => exact .start hactive
  | append_singleton changes c ih =>
    have hbefore := ih fun i hi => by
      have := hspared i (by simp; omega)
      rwa [List.getElem_append_left hi, List.take_append_of_le_length hi.le] at this
    have hlast := hspared changes.length (by simp)
    rw [List.getElem_concat_length rfl, List.take_left' rfl, ← hbefore.active_eq] at hlast
    rw [changeAll, List.foldl_concat]
    exact hbefore.change hlast

end Notebook

/-- **Only the active cell is striped.**  A notebook begins with an active cell among its cells;
then differences are shown, cells are turned to, modes are chosen and cells other than the one
active at that moment are deleted, in any order.  After every rendering no cell but the active one
has stripes, and that one has those of the difference in the mode chosen last, or none; the
tracked cells are the known ones, each once. -/
theorem only_active_striped (active : String) (cells : List String) (hactive : active ∈ cells)
    (changes : List NotebookChange)
    (hspared : ∀ i (hi : i < changes.length),
      changes[i].disposed? ≠ some (activeAfter active (changes.take i)))
    (lines : Option (List Entry)) :
    let later := ((Notebook.start active cells).changeAll changes).render lines
    later.active = activeAfter active changes ∧
    (∀ cell, cell ≠ later.active → later.registry.stripesOf cell = []) ∧
    later.activeStripes = (lines.map (stripes (modeAfter changes))).getD [] ∧
    later.registry.names.Perm later.cells.dedup ∧
    ∀ cell, cell ∈ later.cells ↔ Known cells changes cell := by
  intro later
  have h := Notebook.tidy_changeAll hactive hspared
  refine ⟨h.active_eq, fun cell => h.stripesOf_render lines, ?_, ?_, h.mem_cells_iff⟩
  · rw [← h.preview_eq]
    exact Registry.stripesOf_set ..
  · rw [List.perm_ext_iff_of_nodup (h.nodup_names_render lines) (List.nodup_dedup _)]
    intro cell
    rw [List.mem_dedup]
    exact h.mem_names_render lines cell

/-- A difference is shown, the notebook turns to a new cell and an old one is deleted: the next
difference stripes the new cell only. -/
theorem only_active_striped_new :
    let difference : List Entry := (Diff.UnifiedDiff.compute "x = 1" "x = 2").lines
    let changes : List NotebookChange :=
      [.render (some difference), .activate "c", .preview .unified, .dispose "b"]
    let later := ((Notebook.start "a" ["a", "b"]).changeAll changes).render (some difference)
    later.activeStripes = [⟨1, .deleted⟩, ⟨2, .inserted⟩] ∧
    later.registry.stripesOf "a" = [] ∧ later.registry.stripesOf "b" = [] ∧
    later.registry.names.Perm ["a", "c"] := by
  intro difference changes later
  obtain ⟨hactive, hclear, hstriped, htracked, -⟩ := only_active_striped "a" ["a", "b"]
    (by decide) changes (by decide +kernel) (some difference)
  have hcells : later.cells.dedup = ["a", "c"] := by decide +kernel
  refine ⟨hstriped.trans (by decide +kernel), hclear "a" ?_, hclear "b" ?_, hcells ▸ htracked⟩
  · rw [hactive]
    decide
  · rw [hactive]
    decide

end CellReview.Review
