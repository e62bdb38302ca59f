import CellReview.Proofs.Review.Chain
import CellReview.Proofs.Review.Preview

/-!
# An acceptance tells whether the cell was changed

An acceptance writes the code of the latest proposal, whatever the cell holds.  It reports a
drift exactly if the cell does not hold the preview that this proposal wrote.

* `State.drifted_eq_false_iff` — the cell has not drifted exactly if it holds the preview;
* `accept_reports_drift` — **what an acceptance writes and reports, and what is left to
  decide after it**.
-/

namespace CellReview.Review

open Completion (Reply)

/-- The cell has not drifted exactly if its text has the fingerprint of the preview. -/
theorem State.drifted_eq_false_iff {cell : Option String} {p : Proposal} :
    State.drifted cell p = false ↔
      ∃ text, cell = some text ∧ Digest.fingerprint text = p.previewPrint := by
  cases cell with
  | none => simp [State.drifted]
  | some text => simp [State.drifted]

/-- An acceptance writes the proposed code and nothing else, whether it warns or not. -/
theorem State.filterMap_accept (drifted : Bool) (p : Proposal) :
    (State.driftWarning drifted ++
      [Effect.write p.proposed true, .render none, .record (.diffAccepted drifted)]).filterMap
        Effect.write? = [⟨p.proposed, true⟩] := by
  rw [List.filterMap_append, (State.filterMap_driftWarning drifted).1]
  rfl

/-- As long as hashes differ, the cell has drifted exactly if it does not hold the preview. -/
theorem Pictured.drifted_eq_false_iff {mode : PreviewMode} {past : List Moment} {now : Session}
    {p : Proposal} (h : Pictured mode past now p) (hfree : CollisionFree past now) :
    State.drifted now.seat.cell p = false ↔ now.seat.cell = some (p.preview mode) := by
  rw [State.drifted_eq_false_iff]
  constructor
  · rintro ⟨text, hcell, hprint⟩
    have hpreview := (h.print_eq_iff hfree).1 (by rw [hcell]; exact hprint)
    rw [hcell] at hpreview
    rw [hcell, ← hpreview]
    rfl
  · intro hcell
    exact ⟨_, hcell, h.print_eq.symm⟩

/-- **An acceptance writes the latest proposal and tells whether the cell was changed.**  After
any run with an open proposal, there is the latest answer that proposed a code, and a preview that
it wrote into the cell.  As long as no two different texts that the cell held during the run have
the same hash, an acceptance reports no drift exactly if the cell holds this preview, and a drift
exactly if it holds anything else; a cell that cannot be read has drifted.  Either way it writes
the proposed code once, as final, and the cell then holds it.  No proposal is open afterwards, and
until the next one acceptances and rejections find nothing to decide and change nothing. -/
theorem accept_reports_drift (bench : Bench) (settings : ChatSettings) (ops : List Operation) :
    let past := (Session.start bench settings).history ops
    let now := (Session.start bench settings).run ops
    let later := now.step .accept
    ∀ p, now.seat.state.proposal = some p → CollisionFree past now →
      ∃ m id reply code preview,
        latest Moment.proposes past = some m ∧ m.op = .resolve id (.ok reply) ∧
        Chat.codeBlock reply.text = some code ∧
        m.after.seat.host.cell = m.before.seat.host.cell.write preview false ∧
        preview = State.previewText settings.preview code p.diff ∧
        (later.2 = .decided (.accepted false) ↔ now.seat.cell = some preview) ∧
        (later.2 = .decided (.accepted true) ↔ now.seat.cell ≠ some preview) ∧
        (now.seat.state.accept none).answer = .accepted true ∧
        (∀ cell, (now.seat.state.accept cell).effects.filterMap Effect.write? = [⟨code, true⟩]) ∧
        later.1.seat.host.cell = now.seat.host.cell.write code true ∧
        later.1.seat.cell = some code ∧
        later.1.seat.state.proposal = none ∧
        ∀ more, (∀ m ∈ later.1.history more, m.proposes = false) →
          let last := later.1.run more
          last.step .accept = (last, .decided .noPendingDiff) ∧
          last.step .reject = (last, .decided .noPendingDiff) := by
  intro past now later p hopen hfree
  have hchain : Chained past p := chained_run bench settings ops hopen
  have hpictured : Pictured settings.preview past now p := pictured_run bench settings ops hopen
  obtain ⟨m, id, reply, hm, hop, hcode⟩ := hchain.newest
  obtain ⟨n, hn, hwrite⟩ := hpictured.written
  obtain rfl : m = n := Option.some.inj (hm.symm.trans hn)
  have hlater : later = _ := now.step_accept hopen
  have hdrift := hpictured.drifted_eq_false_iff hfree
  have hcell : later.1.seat.host.cell = now.seat.host.cell.write p.proposed true := by
    rw [hlater, Session.after, Bench.cell_performAll, State.filterMap_accept]
    rfl
  have hclosed : later.1.seat.state.proposal = none := by
    rw [hlater]
    rfl
  refine ⟨m, id, reply, p.proposed, p.preview settings.preview, hm, hop, hcode, hwrite, rfl,
    ?_, ?_, ?_, fun cell => ?_, hcell, ?_, hclosed, fun more hquiet => ?_⟩
  · rw [hlater, ← hdrift]
    simp
  · rw [hlater, Ne, ← hdrift]
    simp
  · rw [State.accept_of_open hopen]
    rfl
  · rw [State.accept_of_open hopen]
    exact State.filterMap_accept _ p
  · show later.1.seat.host.cell.code = _
    rw [hcell]
    rfl
  · have hlast := Session.closed_run hclosed more hquiet
    exact ⟨Session.step_accept_of_closed hlast, Session.step_reject_of_closed hlast⟩

/-- A preview with both sides of the difference is accepted as it is without a drift.  Where the
user put back the code from before, it is accepted with a drift. -/
theorem accept_reports_drift_undone :
    let settings := { ChatSettings.standard with preview := .unified }
    let session := Session.start (.start (some "x = 1") .unified "a" ["a"]) settings
    let ops : List Operation := [.send "double it", .resolve 0 (.ok (.ofText "```\nx = 2\n```"))]
    let undone := ops ++ [.userEdit "x = 1"]
    ((session.run ops).step .accept).2 = .decided (.accepted false) ∧
    ((session.run undone).step .accept).2 = .decided (.accepted true) := by
  intro settings session ops undone
  constructor
  · obtain ⟨p, hopen, htext⟩ := Option.map_eq_some_iff.1
      (show (session.run ops).seat.state.proposal.map (·.diff.text) = some "x = 1\nx = 2" by
        decide +kernel)
    obtain ⟨-, -, -, code, preview, -, -, -, -, hpreview, hkept, -⟩ :=
      accept_reports_drift (.start (some "x = 1") .unified "a" ["a"]) settings ops p hopen
        (collisionFree_of_two digest_ne_unified (by decide +kernel))
    have hcell : (session.run ops).seat.cell = some "x = 1\nx = 2" := by decide +kernel
    refine hkept.2 (hcell.trans (congrArg some ?_))
    rw [hpreview, ← htext]
    rfl
  · obtain ⟨p, hopen, htext⟩ := Option.map_eq_some_iff.1
      (show (session.run undone).seat.state.proposal.map (·.diff.text) = some "x = 1\nx = 2" by
        decide +kernel)
    obtain ⟨-, -, -, code, preview, -, -, -, -, hpreview, -, hdrift, -⟩ :=
      accept_reports_drift (.start (some "x = 1") .unified "a" ["a"]) settings undone p hopen
        (collisionFree_of_two digest_ne_unified (by decide +kernel))
    have hcell : (session.run undone).seat.cell = some "x = 1" := by decide +kernel
    have htext' : preview = "x = 1\nx = 2" := by
      rw [hpreview, ← htext]
      rfl
    refine hdrift.2 ?_
    show ¬(session.run undone).seat.cell = some preview
    rw [hcell, htext']
    decide

end CellReview.Review
