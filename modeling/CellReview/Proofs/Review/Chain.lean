import CellReview.Proofs.Review.History

/-!
# A chain of proposals goes back to its start

The first proposal of a chain remembers the code that it finds in the cell, and every
later one takes that code over.  So a rejection brings back the code from before the
chain, whatever happened in between.

* `ProposalChange` — what a move does to the open proposal;
* `Chained` — the invariant that ties the open proposal to the moments that made it;
* `reject_restores_start` — **a rejection goes back to the start of the chain**.
-/

namespace CellReview.Review

open Completion (Reply)

/-! ## The open proposal -/

/-- What a move does to the open proposal. -/
inductive ProposalChange (s : Session) (op : Operation) (t : Transition Result) : Prop where
  /-- The code of a reply is proposed.  The code from before an open proposal is kept. -/
  | propose {id : Nat} (reply : Reply) (p : Proposal) (hop : op = .resolve id (.ok reply))
      (hcode : Chat.codeBlock reply.text = some p.proposed)
      (hbase : p.base = (s.seat.state.proposal.map Proposal.base).getD (s.seat.cell.getD ""))
      (hdiff : p.diff = .compute p.base p.proposed) (hopen : t.state.proposal = some p)
      (hanswer : t.answer = .resolved (.proposed s.seat.state.proposal.isSome
        p.diff.insertedCount p.diff.deletedCount))
  /-- No proposal is open afterwards. -/
  | close (hanswer : t.answer.isProposed = false) (hclosed : t.state.proposal = none)
  | keep (hanswer : t.answer.isProposed = false)
      (hkept : t.state.proposal = s.seat.state.proposal)

theorem Move.proposalChange {s : Session} {op : Operation} {t : Transition Result}
    (h : Move s op t) : ProposalChange s op t := by
  cases h with
  | ask content shown type intent hop hkept => exact .keep rfl rfl
  | edit input hget hrole => exact .keep rfl rfl
  | clear => exact .keep rfl rfl
  | discard answer hr hlate => exact .keep rfl rfl
  | fail e hr hwait => exact .keep rfl rfl
  | explained reply hr hwait hintent => exact .keep rfl rfl
  | noCode reply hr hwait hintent hcode => exact .keep rfl rfl
  | propose reply hr hwait hintent hcode =>
    exact .propose reply ((s.seat.state.addReply reply.text false).nextProposal s.seat.cell _)
      rfl hcode rfl rfl rfl rfl
  | accept hopen => exact .close rfl rfl
  | reject hopen => exact .close rfl rfl
  | apply hcode => exact .close rfl rfl
  | rest result vars hop hresolve hidle => exact .keep (Result.isProposed_of_isIdle hidle) rfl

/-! ## The moments of a chain -/

/-- What an open proposal says about the history of the run. -/
structure Chained (past : List Moment) (p : Proposal) : Prop where
  opened : ∃ m, latest Moment.opens past = some m ∧ p.base = m.before.seat.cell.getD ""
  diff_eq : p.diff = .compute p.base p.proposed
  newest : ∃ m id reply, latest Moment.proposes past = some m ∧ m.op = .resolve id (.ok reply) ∧
    Chat.codeBlock reply.text = some p.proposed

/-- A moment without a proposal changes nothing about an open one. -/
theorem Chained.concat {past : List Moment} {p : Proposal} (h : Chained past p) {m : Moment}
    (hm : m.result.isProposed = false) : Chained (past ++ [m]) p where
  opened := by
    rw [latest_concat, Moment.opens, Result.isOpened_eq_false hm]
    exact h.opened
  diff_eq := h.diff_eq
  newest := by
    rw [latest_concat, Moment.proposes, hm]
    exact h.newest

/-- Every open proposal of a run belongs to a chain. -/
theorem chained_run (bench : Bench) (settings : ChatSettings) (ops : List Operation)
    {p : Proposal}
    (hopen : ((Session.start bench settings).run ops).seat.state.proposal = some p) :
    Chained ((Session.start bench settings).history ops) p := by
  refine Session.run_induction
    (P := fun past now => ∀ p, now.seat.state.proposal = some p → Chained past p)
    ?_ ?_ ops p hopen
  · intro p hstart
    exact absurd hstart (by simp [Session.start, State.start])
  · intro past now op t ih hmove p hp
    change t.state.proposal = some p at hp
    cases hmove.proposalChange with
    | propose reply q hop hcode hbase hdiff hopen hanswer =>
      obtain rfl : q = p := Option.some.inj (hopen.symm.trans hp)
      refine ⟨?_, hdiff, ?_⟩
      · cases hold : now.seat.state.proposal with
        | none =>
          -- the chain starts here, with what the cell holds
          rw [hold] at hbase hanswer
          refine ⟨⟨now, op, t.answer⟩, ?_, hbase⟩
          rw [latest_concat, Moment.opens, hanswer]
          rfl
        | some old =>
          rw [hold] at hbase hanswer
          rw [latest_concat, Moment.opens, hanswer, hbase]
          exact (ih old hold).opened
      · refine ⟨⟨now, op, t.answer⟩, _, reply, ?_, hop, hcode⟩
        rw [latest_concat, Moment.proposes, hanswer]
        rfl
    | close hanswer hclosed => exact absurd (hclosed.symm.trans hp) (by simp)
    | keep hanswer hkept => exact (ih p (hkept ▸ hp)).concat hanswer

/-! ## Back to the start -/

/-- The answer to a proposal tells whether one was open and counts the changed lines. -/
theorem step_proposed {now : Session} {op : Operation} {superseded : Bool}
    {inserted deleted : Nat}
    (h : (now.step op).2 = .resolved (.proposed superseded inserted deleted)) :
    superseded = now.seat.state.proposal.isSome ∧
      ∃ q, (now.step op).1.seat.state.proposal = some q ∧
        inserted = q.diff.insertedCount ∧ deleted = q.diff.deletedCount := by
  obtain ⟨t, hmove, hstep⟩ := now.exists_move op
  rw [hstep] at h ⊢
  cases hmove.proposalChange with
  | propose reply q hop hcode hbase hdiff hopen hanswer =>
    change t.answer = _ at h
    rw [hanswer, Result.resolved.injEq, Resolution.proposed.injEq] at h
    obtain ⟨rfl, rfl, rfl⟩ := h
    exact ⟨rfl, q, hopen, rfl, rfl⟩
  | close hanswer =>
    change t.answer = _ at h
    rw [h] at hanswer
    exact absurd hanswer (by simp [Result.isProposed])
  | keep hanswer =>
    change t.answer = _ at h
    rw [h] at hanswer
    exact absurd hanswer (by simp [Result.isProposed])

/-- **A rejection goes back to the start of the chain.**  Whatever run led there, an open
proposal holds the code that the cell held when the last proposal that found none open was
made; a cell that cannot be read counts as empty.  Its difference is that from this code to
the code of the latest proposal.  A rejection writes exactly this code, once and as final,
and closes the review.  A proposal reports whether one was open before, and the changed
lines of its difference. -/
theorem reject_restores_start (bench : Bench) (settings : ChatSettings) (ops : List Operation) :
    let past := (Session.start bench settings).history ops
    let now := (Session.start bench settings).run ops
    (∀ op superseded inserted deleted,
      (now.step op).2 = .resolved (.proposed superseded inserted deleted) →
        superseded = now.seat.state.proposal.isSome ∧
        ∃ q, (now.step op).1.seat.state.proposal = some q ∧
          inserted = q.diff.insertedCount ∧ deleted = q.diff.deletedCount) ∧
    ∀ p, now.seat.state.proposal = some p →
      (∃ m, latest Moment.opens past = some m ∧ p.base = m.before.seat.cell.getD "") ∧
      p.diff = .compute p.base p.proposed ∧
      (∃ m id reply, latest Moment.proposes past = some m ∧
        m.op = .resolve id (.ok reply) ∧ Chat.codeBlock reply.text = some p.proposed) ∧
      (now.step .reject).2 = .decided .rejected ∧
      (now.step .reject).1.seat.host.cell = now.seat.host.cell.write p.base true ∧
      (now.step .reject).1.seat.cell = some p.base ∧
      (now.step .reject).1.seat.state.proposal = none := by
  intro past now
  refine ⟨fun op superseded inserted deleted h => step_proposed h, fun p hopen => ?_⟩
  have hchain : Chained past p := chained_run bench settings ops hopen
  have hcell : (now.step .reject).1.seat.host.cell = now.seat.host.cell.write p.base true := by
    rw [now.step_reject hopen, Session.after, Bench.cell_performAll]
    rfl
  refine ⟨hchain.opened, hchain.diff_eq, hchain.newest, ?_, hcell, ?_, ?_⟩
  · rw [now.step_reject hopen]
  · show (now.step .reject).1.seat.host.cell.code = some p.base
    rw [hcell]
    rfl
  · rw [now.step_reject hopen]
    rfl

/-- A second proposal, after an edit by the user and a cleared conversation, is rejected: the
cell holds the code from before the first one again. -/
theorem reject_restores_start_superseded :
    let ops : List Operation :=
      [.send "double it", .resolve 0 (.ok (.ofText "```\nx = 2\n```")), .userEdit "x = 5", .clear,
        .send "halve it", .resolve 1 (.ok (.ofText "```\nx = 0.5\n```"))]
    let now := (Session.start (.start (some "x = 1") .proposed "a" ["a"]) .standard).run ops
    (∃ p, now.seat.state.proposal = some p ∧ p.base = "x = 1" ∧ p.proposed = "x = 0.5") ∧
    (now.step .reject).1.seat.cell = some "x = 1" := by
  intro ops now
  have hopen : ∃ p, now.seat.state.proposal = some p ∧ p.base = "x = 1" ∧ p.proposed = "x = 0.5" :=
    ⟨_, rfl, rfl, rfl⟩
  refine ⟨hopen, ?_⟩
  obtain ⟨p, hp, hbase, -⟩ := hopen
  obtain ⟨-, h⟩ := reject_restores_start (.start (some "x = 1") .proposed "a" ["a"]) .standard ops
  obtain ⟨-, -, -, -, -, hcell, -⟩ := h p hp
  rw [hcell, hbase]

end CellReview.Review
