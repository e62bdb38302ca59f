import CellReview.Proofs.Review.Chain
import CellReview.Proofs.Review.Display
import CellReview.Proofs.Review.Marks

/-!
# The stripes beside the active cell match the preview in it

A notebook is told once, at the beginning of a review, what previews show.  Whatever happens
to the review and to the notebook afterwards, a proposal stripes the cell that is active then,
and the stripes are those of its difference in that mode.

* `Registry.stripesOf_set`, `Notebook.activeStripes_render` — the stripes after a rendering;
* `Happening`, `Session.live` — operations mixed with changes of the notebook;
* `Previews` — the invariant: review and notebook agree on what previews show;
* `stripes_match_preview` — **the stripes of a proposal match its preview**.
-/

namespace CellReview.Review

open Completion (Reply)
open Diff (Entry)

/-! ## Registries and notebooks -/

namespace Registry

variable (r : Registry) (cell : String) (striped : List Stripe)

theorem preview_set : (r.set cell striped).preview = r.preview := by
  rw [set]
  split <;> rfl

theorem preview_sync (active : String) (cells : List String) (lines : Option (List Entry)) :
    (r.sync active cells lines).preview = r.preview := by
  rw [sync, preview_set]
  induction cells generalizing r with
  | nil => rfl
  | cons cell cells ih => rw [List.foldl_cons, ih, preview_set]

theorem find?_replaced {cells : List (String × List Stripe)}
    (h : (cells.any fun entry => entry.1 == cell) = true) :
    (cells.map fun entry => if entry.1 == cell then (cell, striped) else entry).find?
      (fun entry => entry.1 == cell) = some (cell, striped) := by
  induction cells with
  | nil => cases h
  | cons entry cells ih =>
    rw [List.map_cons]
    by_cases hentry : (entry.1 == cell) = true
    · rw [if_pos hentry]
      exact List.find?_cons_of_pos (beq_self_eq_true cell)
    · rw [List.any_cons, Bool.or_eq_true] at h
      rw [if_neg hentry]
      exact (List.find?_cons_of_neg (by simpa using hentry)).trans (ih (h.resolve_left hentry))

/-- A cell that was given stripes has them. -/
theorem stripesOf_set : (r.set cell striped).stripesOf cell = striped := by
  rw [stripesOf, set]
  split
  · rename_i htracked
    rw [find?_replaced cell striped htracked]
    rfl
  · rename_i hfresh
    rw [tracks, Bool.not_eq_true, List.any_eq_false] at hfresh
    rw [List.find?_append, List.find?_eq_none.2 hfresh]
    simp

end Registry

namespace Notebook

theorem preview_render (n : Notebook) (lines : Option (List Entry)) :
    (n.render lines).registry.preview = n.registry.preview :=
  n.registry.preview_sync _ _ _

/-- The active cell shows the stripes of the difference. -/
theorem activeStripes_render (n : Notebook) (lines : List Entry) :
    (n.render (some lines)).activeStripes = stripes n.registry.preview lines :=
  Registry.stripesOf_set _ _ _

end Notebook

/-! ## Runs with a notebook -/

/-- A bench whose notebook was told what previews show. -/
def Bench.previewing (b : Bench) (mode : PreviewMode) : Bench :=
  { b with notebook := b.notebook.setPreview mode }

/-- Something that happens at a bench: an operation, or a change of the notebook. -/
inductive Happening where
  | operation (op : Operation)
  /-- The notebook turns to a cell, maybe a new one. -/
  | activate (cell : String)
  /-- A cell is deleted. -/
  | dispose (cell : String)

namespace Session

/-- Let something happen. -/
def happen (s : Session) : Happening → Session
  | .operation op => (s.step op).1
  | .activate cell => s.onBench fun b => { b with notebook := b.notebook.setActive cell }
  | .dispose cell => s.onBench fun b => { b with notebook := b.notebook.dispose cell }

/-- Let several things happen in order. -/
def live (s : Session) (events : List Happening) : Session :=
  events.foldl happen s

/-- The notebook follows the frames that an operation shows. -/
theorem after_notebook (s : Session) (op : Operation) (t : Transition Result) :
    (s.after op t).seat.host.notebook =
      (t.effects.filterMap Effect.frame?).foldl Notebook.render s.seat.host.notebook := by
  rw [after, Bench.notebook_performAll]
  cases op <;> rfl

end Session

/-- The review and the notebook agree on what previews show. -/
structure Previews (settings : ChatSettings) (now : Session) : Prop where
  settings_eq : now.seat.state.settings = settings
  preview_eq : now.seat.host.notebook.registry.preview = settings.preview

namespace Previews

variable {settings : ChatSettings} {now : Session}

theorem start (bench : Bench) (settings : ChatSettings) :
    Previews settings (.start (bench.previewing settings.preview) settings) :=
  ⟨rfl, rfl⟩

theorem step (h : Previews settings now) (op : Operation) :
    Previews settings (now.step op).1 := by
  obtain ⟨t, hmove, hstep⟩ := now.exists_move op
  rw [hstep]
  refine ⟨hmove.settings_eq.trans h.settings_eq, ?_⟩
  rw [now.after_notebook, ← h.preview_eq]
  generalize t.effects.filterMap Effect.frame? = frames
  generalize now.seat.host.notebook = notebook
  induction frames generalizing notebook with
  | nil => rfl
  | cons lines frames ih => rw [List.foldl_cons, ih, Notebook.preview_render]

theorem happen (h : Previews settings now) (event : Happening) :
    Previews settings (now.happen event) := by
  cases event with
  | operation op => exact h.step op
  | activate cell => exact ⟨h.settings_eq, h.preview_eq⟩
  | dispose cell => exact ⟨h.settings_eq, h.preview_eq⟩

theorem live (h : Previews settings now) (events : List Happening) :
    Previews settings (now.live events) := by
  induction events generalizing now with
  | nil => exact h
  | cons event events ih => exact ih (h.happen event)

end Previews

/-! ## The stripes of a proposal -/

/-- What a proposal leaves behind: the open proposal, its preview in the cell, and its
difference shown by the notebook. -/
theorem step_proposed_shown {now : Session} {op : Operation} {superseded : Bool}
    {inserted deleted : Nat}
    (h : (now.step op).2 = .resolved (.proposed superseded inserted deleted)) :
    ∃ p, (now.step op).1.seat.state.proposal = some p ∧
      p.diff = .compute p.base p.proposed ∧
      (now.step op).1.seat.cell =
        some (State.previewText now.seat.state.settings.preview p.proposed p.diff) ∧
      (now.step op).1.seat.host.notebook = now.seat.host.notebook.render (some p.diff.lines) := by
  obtain ⟨t, hmove, hstep⟩ := now.exists_move op
  rw [hstep] at h ⊢
  change t.answer = _ at h
  obtain ⟨write, frame, hleaves, hwrite, hframe⟩ := hmove.leaves
  have hnotebook := now.after_notebook op t
  rw [h] at hleaves
  cases hmove.proposalChange with
  | propose reply p hop hcode hbase hdiff hopen hanswer =>
    subst hop
    cases hleaves with
    | proposed hcode' hopen' =>
      obtain rfl := Option.some.inj (hopen.symm.trans hopen')
      rw [hframe] at hnotebook
      refine ⟨p, hopen, hdiff, ?_, hnotebook⟩
      show (now.after _ t).seat.host.cell.code = _
      rw [now.after_cell_of_write _ hwrite]
      rfl
    | silent hsilent hkept => exact absurd hsilent Bool.false_ne_true
  | close hanswer =>
    rw [h] at hanswer
    exact absurd hanswer (by simp [Result.isProposed])
  | keep hanswer =>
    rw [h] at hanswer
    exact absurd hanswer (by simp [Result.isProposed])

/-- **The stripes of a proposal match its preview.**  A review begins at a bench whose notebook
was told what previews show; then operations and changes of the notebook happen in any order.
When a code is proposed, the cell holds the preview of the open proposal, and the active cell
has one stripe for every changed line of its difference, in order and of that kind, each right
about its line of the preview.  The stripes ascend, strictly where the whole difference is
shown. -/
theorem stripes_match_preview (bench : Bench) (settings : ChatSettings)
    (events : List Happening) (op : Operation) (superseded : Bool) (inserted deleted : Nat) :
    let now := (Session.start (bench.previewing settings.preview) settings).live events
    let later := (now.step op).1
    (now.step op).2 = .resolved (.proposed superseded inserted deleted) →
      ∃ p preview, later.seat.state.proposal = some p ∧
        preview = State.previewText settings.preview p.proposed p.diff ∧
        later.seat.cell = some preview ∧
        List.Forall₂ (Marks settings.preview preview p.diff.lines)
          later.seat.host.notebook.activeStripes (changedLines p.diff.lines) ∧
        later.seat.host.notebook.activeStripes.Pairwise (fun s s' => s.line ≤ s'.line) ∧
        (settings.preview = .unified →
          later.seat.host.notebook.activeStripes.Pairwise fun s s' => s.line < s'.line) := by
  intro now later hproposed
  have hpreviews : Previews settings now := (Previews.start bench settings).live events
  obtain ⟨p, hopen, hdiff, hcell, hnotebook⟩ := step_proposed_shown hproposed
  have hstripes : later.seat.host.notebook.activeStripes =
      stripes settings.preview p.diff.lines := by
    rw [hnotebook, Notebook.activeStripes_render, hpreviews.preview_eq]
  rw [hpreviews.settings_eq] at hcell
  obtain ⟨hascend, hstrict⟩ := stripes_ascend settings.preview p.diff.lines
  rw [hstripes]
  refine ⟨p, _, hopen, rfl, hcell, ?_, hascend, hstrict⟩
  rw [hdiff]
  exact stripes_marks p.base p.proposed settings.preview

/-- The notebook turns to another cell before the reply arrives: that cell is striped, with a
deleted line behind the first line of the proposed code and an inserted one at the second. -/
theorem stripes_match_preview_activated :
    let bench := Bench.start (some "x = 1\ny = 2") .proposed "a" ["a", "b"]
    let op : Operation := .resolve 0 (.ok (.ofText "```\nx = 1\ny = 3\n```"))
    let now := (Session.start bench .standard).live [.operation (.send "y is 3"), .activate "b"]
    let later := (now.step op).1
    (now.step op).2 = .resolved (.proposed false 1 1) ∧
      later.seat.host.notebook.active = "b" ∧
      later.seat.host.notebook.activeStripes = [⟨1, .deleted⟩, ⟨2, .inserted⟩] ∧
      ∃ (p : Proposal) (preview : String), later.seat.cell = some preview ∧
        List.Forall₂ (Marks .proposed preview p.diff.lines)
          later.seat.host.notebook.activeStripes (changedLines p.diff.lines) := by
  intro bench op now later
  have hproposed : (now.step op).2 = .resolved (.proposed false 1 1) := by
    decide +kernel
  have hstripes : later.seat.host.notebook.activeStripes = [⟨1, .deleted⟩, ⟨2, .inserted⟩] := by
    decide +kernel
  obtain ⟨p, preview, -, -, hcell, hmarks, -⟩ :=
    stripes_match_preview bench .standard _ op false 1 1 hproposed
  exact ⟨hproposed, rfl, hstripes, p, preview, hcell, hmarks⟩

end CellReview.Review
