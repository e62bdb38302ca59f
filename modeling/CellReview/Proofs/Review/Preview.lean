import CellReview.Proofs.Digest.Fingerprint
import CellReview.Proofs.Review.Display

/-!
# The preview that was last written

A proposal remembers the fingerprint of the preview that it put into the cell.  As long as no
two texts of the cell have the same hash, the fingerprint tells exactly whether the cell still
holds that preview.

* `cellTexts`, `CollisionFree` — the texts that the cell held during a run, and that their
  hashes differ;
* `Previewed` — the text that the latest proposal wrote into the cell;
* `Pictured` — the invariant: the fingerprint of the open proposal is that of this text;
* `Pictured.print_eq_iff` — **the fingerprint of the cell is the remembered one exactly if the
  cell holds the preview**;
* `Session.closed_run` — without a proposal no review is opened.
-/

namespace CellReview.Review

open Completion (Reply)

/-! ## The texts of a run -/

/-- The texts that the cell held, one for each moment and the last one now; a cell that cannot
be read counts as empty. -/
def cellTexts (past : List Moment) (now : Session) : List String :=
  past.map (fun m => m.before.seat.cell.getD "") ++ [now.seat.cell.getD ""]

/-- No two different texts of the cell have the same hash. -/
def CollisionFree (past : List Moment) (now : Session) : Prop :=
  ∀ a ∈ cellTexts past now, ∀ b ∈ cellTexts past now,
    Digest.digest a.toUTF8 = Digest.digest b.toUTF8 → a = b

theorem cellTexts_concat (past : List Moment) (now later : Session) (op : Operation)
    (result : Result) :
    cellTexts (past ++ [⟨now, op, result⟩]) later =
      cellTexts past now ++ [later.seat.cell.getD ""] := by
  simp [cellTexts]

theorem mem_cellTexts_now (past : List Moment) (now : Session) :
    now.seat.cell.getD "" ∈ cellTexts past now :=
  List.mem_append_right _ (List.mem_singleton_self _)

/-- Two texts with different hashes are free of collisions, however often the cell held them. -/
theorem collisionFree_of_two {past : List Moment} {now : Session} {a b : String}
    (hne : Digest.digest a.toUTF8 ≠ Digest.digest b.toUTF8)
    (htexts : ∀ text ∈ cellTexts past now, text = a ∨ text = b) : CollisionFree past now := by
  intro c hc d hd heq
  rcases htexts c hc with rfl | rfl
  · rcases htexts d hd with rfl | rfl
    · rfl
    · exact absurd heq hne
  · rcases htexts d hd with rfl | rfl
    · exact absurd heq.symm hne
    · rfl

/-- A line and the preview that shows it over another one have different hashes. -/
theorem digest_ne_unified :
    Digest.digest "x = 1".toUTF8 ≠ Digest.digest "x = 1\nx = 2".toUTF8 := by
  decide +kernel

/-- The session after the operation of a moment. -/
def Moment.after (m : Moment) : Session :=
  (m.before.step m.op).1

/-- The latest proposal wrote a text into the cell as its preview. -/
def Previewed (past : List Moment) (text : String) : Prop :=
  ∃ m, latest Moment.proposes past = some m ∧
    m.after.seat.host.cell = m.before.seat.host.cell.write text false

theorem Previewed.unique {past : List Moment} {a b : String} (ha : Previewed past a)
    (hb : Previewed past b) : a = b := by
  obtain ⟨m, hm, hwrite⟩ := ha
  obtain ⟨n, hn, hwrite'⟩ := hb
  obtain rfl : m = n := Option.some.inj (hm.symm.trans hn)
  have hcell := congrArg MemoryCell.code (hwrite.symm.trans hwrite')
  exact Option.some.inj hcell

/-- A moment without a proposal writes no preview. -/
theorem Previewed.concat {past : List Moment} {text : String} (h : Previewed past text)
    {m : Moment} (hm : m.result.isProposed = false) : Previewed (past ++ [m]) text := by
  rw [Previewed, latest_concat, Moment.proposes, hm]
  exact h

/-! ## What a move does to the preview -/

/-- The text that a proposal puts into the cell. -/
def Proposal.preview (mode : PreviewMode) (p : Proposal) : String :=
  State.previewText mode p.proposed p.diff

/-- A proposal that is open after a move was open before, or its preview has just been written
and its fingerprint taken. -/
theorem Move.open_or_written {s : Session} {op : Operation} {t : Transition Result}
    (h : Move s op t) {p : Proposal} (hp : t.state.proposal = some p) :
    (t.answer.isProposed = false ∧ s.seat.state.proposal = some p) ∨
      (t.answer.isProposed = true ∧ (∀ code, op ≠ .userEdit code) ∧
        p.previewPrint = Digest.fingerprint (p.preview s.seat.state.settings.preview) ∧
        t.effects.filterMap Effect.write? =
          [⟨p.preview s.seat.state.settings.preview, false⟩]) := by
  cases h with
  | propose reply hr hwait hintent hcode =>
    cases hp
    exact .inr ⟨rfl, by simp, rfl, rfl⟩
  | accept hopen => cases hp
  | reject hopen => cases hp
  | apply hcode => cases hp
  | rest result vars hop hresolve hidle => exact .inl ⟨Result.isProposed_of_isIdle hidle, hp⟩
  | _ => exact .inl ⟨rfl, hp⟩

/-- What the open proposal says about the preview that was last written. -/
structure Pictured (mode : PreviewMode) (past : List Moment) (now : Session) (p : Proposal) :
    Prop where
  print_eq : p.previewPrint = Digest.fingerprint (p.preview mode)
  written : Previewed past (p.preview mode)
  held : p.preview mode ∈ cellTexts past now

/-- Every step keeps the invariant. -/
theorem pictured_step {mode : PreviewMode} {past : List Moment} {now : Session} {op : Operation}
    (hmode : now.seat.state.settings.preview = mode)
    (h : ∀ p, now.seat.state.proposal = some p → Pictured mode past now p) {p : Proposal}
    (hp : (now.step op).1.seat.state.proposal = some p) :
    Pictured mode (past ++ [⟨now, op, (now.step op).2⟩]) (now.step op).1 p := by
  obtain ⟨t, hmove, hstep⟩ := now.exists_move op
  rw [hstep] at hp
  rcases hmove.open_or_written hp with ⟨hquiet, hopen⟩ | ⟨hproposed, hop, hprint, hwrite⟩
  · obtain ⟨hprint, hwritten, hheld⟩ := h p hopen
    refine ⟨hprint, hwritten.concat (by rw [hstep]; exact hquiet), ?_⟩
    rw [cellTexts_concat]
    exact List.mem_append_left _ hheld
  · rw [hmode] at hprint hwrite
    have hcell : (now.step op).1.seat.host.cell =
        now.seat.host.cell.write (p.preview mode) false := by
      rw [hstep, now.after_cell_of_write op hwrite, op.touch_of_ne_userEdit hop]
    refine ⟨hprint, ⟨⟨now, op, (now.step op).2⟩, ?_, hcell⟩, ?_⟩
    · rw [latest_concat, Moment.proposes, hstep, if_pos hproposed]
    · have hheld : (now.step op).1.seat.cell.getD "" = p.preview mode := by
        show (now.step op).1.seat.host.cell.code.getD "" = _
        rw [hcell]
        rfl
      rw [cellTexts_concat, hheld]
      exact List.mem_append_right _ (List.mem_singleton_self _)

/-- Every open proposal of a run is pictured by the preview that was last written. -/
theorem pictured_run (bench : Bench) (settings : ChatSettings) (ops : List Operation)
    {p : Proposal}
    (hopen : ((Session.start bench settings).run ops).seat.state.proposal = some p) :
    Pictured settings.preview ((Session.start bench settings).history ops)
      ((Session.start bench settings).run ops) p := by
  refine (Session.run_step_induction
    (P := fun past now => now.seat.state.settings = settings ∧
      ∀ p, now.seat.state.proposal = some p → Pictured settings.preview past now p)
    ?_ ?_ ops).2 p hopen
  · refine ⟨rfl, fun p hp => ?_⟩
    exact absurd hp (by simp [Session.start, State.start])
  · rintro past now op ⟨hsettings, h⟩
    obtain ⟨t, hmove, hstep⟩ := now.exists_move op
    refine ⟨?_, fun p hp => pictured_step (by rw [hsettings]) h hp⟩
    rw [hstep]
    exact hmove.settings_eq.trans hsettings

/-- As long as hashes differ, the fingerprint of what the cell holds is the remembered one
exactly if the cell holds the preview. -/
theorem Pictured.print_eq_iff {mode : PreviewMode} {past : List Moment} {now : Session}
    {p : Proposal} (h : Pictured mode past now p) (hfree : CollisionFree past now) :
    Digest.fingerprint (now.seat.cell.getD "") = p.previewPrint ↔
      now.seat.cell.getD "" = p.preview mode := by
  rw [h.print_eq]
  constructor
  · intro hprint
    exact hfree _ (mem_cellTexts_now past now) _ h.held
      (Digest.digest_eq_of_fingerprint_eq hprint)
  · intro hcell
    rw [hcell]

/-! ## Without a proposal -/

namespace Session

variable {s : Session}

/-- Without a proposal no review is opened. -/
theorem closed_run (h : s.seat.state.proposal = none) (ops : List Operation)
    (hquiet : ∀ m ∈ s.history ops, m.proposes = false) :
    (s.run ops).seat.state.proposal = none := by
  induction ops generalizing s with
  | nil => exact h
  | cons op ops ih =>
    have hfirst : (s.step op).2.isProposed = false := hquiet _ List.mem_cons_self
    refine ih (s := (s.step op).1) ?_ fun m hm => hquiet m (List.mem_cons_of_mem _ hm)
    cases hp : (s.step op).1.seat.state.proposal with
    | none => rfl
    | some p =>
      obtain ⟨t, hmove, hstep⟩ := s.exists_move op
      rw [hstep] at hp hfirst
      rcases hmove.open_or_written hp with ⟨-, hopen⟩ | ⟨hproposed, -⟩
      · exact absurd (h.symm.trans hopen) (by simp)
      · exact absurd (hproposed.symm.trans hfirst) (by simp)

end Session

end CellReview.Review
