import CellReview.Proofs.Review.Display
import CellReview.Proofs.Review.Last
import CellReview.Proofs.Review.Replay

/-!
# What the events of a run tell about its review

A proposal, an acceptance and a rejection are recorded.  The code of an earlier reply that is
written into the cell ends a review as well, but no event tells of it.  So a reader of the events
knows whether a review is open as long as no reply was written since the last proposal, and takes
a review that such a reply ended for an open one.

* `proposes`, `decides`, `Moment.overwrites` — the events and the moments in question;
* `Move.told`, `Move.isSome_proposal` — what a move does to the told and to the actual review;
* `events_tell_review` — **when the events of a run tell whether its review is open**;
* `written_reply_untold` — a run of which they do not.
-/

namespace CellReview.Review

open Observe (Event)

/-! ## Proposals, decisions and written replies -/

/-- Whether an event tells of a proposal. -/
def proposes : Event → Bool
  | .diffProposed .. => true
  | _ => false

/-- Whether an event tells that the user accepted or rejected a proposal. -/
def decides : Event → Bool
  | .diffAccepted _ | .diffRejected => true
  | _ => false

/-- Whether a result is that of a proposal that was accepted or rejected. -/
def Result.isDecided : Result → Bool
  | .decided (.accepted _) | .decided .rejected => true
  | _ => false

/-- Whether a result is that of a reply whose code was written into the cell. -/
def Result.isWritten : Result → Bool
  | .applied true => true
  | _ => false

/-- A proposal is no reply that is written. -/
theorem Result.isWritten_of_isProposed {result : Result} (h : result.isProposed = true) :
    result.isWritten = false := by
  cases result with
  | resolved resolution => rfl
  | _ => exact absurd h Bool.false_ne_true

/-- Whether the code of an earlier reply was written into the cell. -/
def Moment.overwrites (m : Moment) : Bool :=
  m.result.isWritten

/-- A result that goes with no write is none of these. -/
theorem Result.kinds_of_isSilent {result : Result} (h : result.isSilent = true) :
    result.isProposed = false ∧ result.isDecided = false ∧ result.isWritten = false := by
  cases result with
  | resolved resolution =>
    cases resolution with
    | proposed superseded inserted deleted => exact absurd h Bool.false_ne_true
    | _ => exact ⟨rfl, rfl, rfl⟩
  | decided verdict =>
    cases verdict with
    | noPendingDiff => exact ⟨rfl, rfl, rfl⟩
    | _ => exact absurd h Bool.false_ne_true
  | applied written =>
    cases written with
    | false => exact ⟨rfl, rfl, rfl⟩
    | true => exact absurd h Bool.false_ne_true
  | _ => exact ⟨rfl, rfl, rfl⟩

/-! ## What a move does -/

/-- The events of a move tell of a proposal and of a decision, and of nothing else about the
review. -/
theorem Move.told {s : Session} {op : Operation} {t : Transition Result} (h : Move s op t)
    (told : Bool) :
    (t.effects.filterMap Effect.event?).foldl (endsWith proposes decides) told =
      (t.answer.isProposed || (told && !t.answer.isDecided)) := by
  cases h with
  | ask content shown type intent hop hkept => cases told <;> rfl
  | edit input hget hrole => cases told <;> rfl
  | clear => cases told <;> rfl
  | discard answer hr hlate => cases told <;> rfl
  | fail e hr hwait => cases told <;> rfl
  | explained reply hr hwait hintent => cases told <;> rfl
  | noCode reply hr hwait hintent hcode => cases told <;> rfl
  | propose reply hr hwait hintent hcode => cases told <;> rfl
  | accept hopen =>
    simp only [State.driftWarning]
    split <;> cases told <;> rfl
  | reject hopen => cases told <;> rfl
  | apply hcode => cases told <;> rfl
  | rest result vars hop hresolve hidle =>
    obtain ⟨hproposed, hdecided, -⟩ := Result.kinds_of_isSilent (Result.isSilent_of_isIdle hidle)
    rw [hproposed, hdecided]
    cases told <;> rfl

/-- A proposal opens the review; a decision and a reply that is written into the cell end it. -/
theorem Move.isSome_proposal {s : Session} {op : Operation} {t : Transition Result}
    (h : Move s op t) :
    t.state.proposal.isSome = (t.answer.isProposed ||
      (s.seat.state.proposal.isSome && !t.answer.isDecided && !t.answer.isWritten)) := by
  obtain ⟨write, frame, hleaves, -, -⟩ := h.leaves
  generalize t.answer = result at hleaves
  cases hleaves with
  | proposed hcode hopen =>
    rw [hopen]
    rfl
  | accepted hopen hclosed =>
    rw [hclosed, hopen]
    rfl
  | rejected hopen hclosed =>
    rw [hclosed, hopen]
    rfl
  | applied hget hrole hcode hclosed =>
    rw [hclosed]
    cases s.seat.state.proposal <;> rfl
  | silent hsilent hkept =>
    obtain ⟨hproposed, hdecided, hwritten⟩ := Result.kinds_of_isSilent hsilent
    rw [hkept, hproposed, hdecided, hwritten]
    simp

/-! ## Runs -/

namespace Session

/-- While an observer is there and nothing goes wrong, the events of a run are those of its
transitions. -/
theorem recorded_history {bench : Bench} (settings : ChatSettings) (ops : List Operation)
    (hobserved : bench.observer.isSome = true)
    (happended : ∀ m ∈ (start bench settings).history ops, ∀ a ∈ m.attempts, a.2 = none) :
    ∀ m ∈ (start bench settings).history ops,
      m.recorded = (m.before.transition m.op).effects.filterMap Effect.event? := by
  have hstays : ((start bench settings).run ops).seat.host.observer.isSome = true ∧
      ∀ m ∈ (start bench settings).history ops, m.before.seat.host.observer.isSome = true := by
    refine run_step_induction
      (P := fun past now => now.seat.host.observer.isSome = true ∧
        ∀ m ∈ past, m.before.seat.host.observer.isSome = true)
      ⟨hobserved, fun _ hm => absurd hm List.not_mem_nil⟩ (fun past now op ih => ⟨?_, ?_⟩) ops
    · rw [now.step_eq_after]
      show ((op.touch now.seat.host).performAll _).observer.isSome = true
      rw [Bench.observer_performAll, Operation.observer_touch, Option.isSome_map, ih.1]
    · intro m hm
      rcases List.mem_append.1 hm with hm | hm
      · exact ih.2 m hm
      · rw [List.mem_singleton.1 hm]
        exact ih.1
  exact fun m hm => Moment.recorded_eq (hstays.2 m hm) (happended m hm)

end Session

/-- The events of some moments. -/
def eventsOf (past : List Moment) : List Event :=
  past.flatMap fun m => (m.before.transition m.op).effects.filterMap Effect.event?

/-- Whether the events of some moments tell of an open review. -/
def toldOpen (past : List Moment) : Bool :=
  (eventsOf past).foldl (endsWith proposes decides) false

/-- Whether a reply was written at some of the moments, and nothing was proposed behind it. -/
def overwritten (past : List Moment) : Bool :=
  past.foldl (endsWith Moment.overwrites Moment.proposes) false

/-- What the moments so far say about the review of a session. -/
structure Tells (past : List Moment) (now : Session) : Prop where
  isSome_eq : now.seat.state.proposal.isSome = (toldOpen past && !overwritten past)
  isSome_eq_told : (∀ m ∈ past, m.overwrites = true → m.before.seat.state.proposal = none) →
    now.seat.state.proposal.isSome = toldOpen past

/-- A step keeps the invariant. -/
theorem Tells.step {past : List Moment} {now : Session} (h : Tells past now) (op : Operation) :
    Tells (past ++ [⟨now, op, (now.step op).2⟩]) (now.step op).1 := by
  have hmove := now.move_transition op
  rw [now.step_eq_after]
  generalize ht : now.transition op = t at hmove ⊢
  have htold : toldOpen (past ++ [⟨now, op, t.answer⟩]) =
      (t.answer.isProposed || (toldOpen past && !t.answer.isDecided)) := by
    rw [toldOpen, eventsOf, List.flatMap_append, List.foldl_append, List.flatMap_singleton, ht]
    exact hmove.told _
  have hover : overwritten (past ++ [⟨now, op, t.answer⟩]) =
      (t.answer.isWritten || (overwritten past && !t.answer.isProposed)) := by
    rw [overwritten, List.foldl_append]
    rfl
  have hopen := hmove.isSome_proposal
  refine ⟨?_, fun hclosed => ?_⟩
  · show t.state.proposal.isSome = _
    rw [hopen, htold, hover, h.isSome_eq]
    cases hproposed : t.answer.isProposed with
    | true =>
      rw [Result.isWritten_of_isProposed hproposed]
      simp
    | false =>
      cases toldOpen past <;> cases overwritten past <;> cases t.answer.isDecided <;>
        cases t.answer.isWritten <;> rfl
  · show t.state.proposal.isSome = _
    have hpast := h.isSome_eq_told fun m hm => hclosed m (List.mem_append_left _ hm)
    have hnow := hclosed _ (List.mem_append_right _ (List.mem_singleton_self _))
    rw [hopen, htold, ← hpast]
    cases hwritten : t.answer.isWritten with
    | true =>
      -- a reply was written while no review was open
      have hidle : now.seat.state.proposal = none := hnow hwritten
      simp [hidle]
    | false => simp

theorem tells_run (bench : Bench) (settings : ChatSettings) (ops : List Operation) :
    Tells ((Session.start bench settings).history ops)
      ((Session.start bench settings).run ops) :=
  Session.run_step_induction ⟨rfl, fun _ => rfl⟩ (fun _ _ op h => h.step op) ops

/-- **The events of a run tell whether its review is open, until a reply is written.**  Let an
observer be there from the start and let nothing go wrong while the events of a run are recorded.
Then, after any number of its operations, a review is open exactly if some proposal was recorded
with no acceptance and no rejection behind the last one, and no earlier reply was written into
the cell since the last proposal.  As long as no reply is written during a review, the events
alone tell. -/
theorem events_tell_review (bench : Bench) (settings : ChatSettings) (ops : List Operation)
    (hobserved : bench.observer.isSome = true)
    (happended : ∀ m ∈ (Session.start bench settings).history ops, ∀ a ∈ m.attempts, a.2 = none)
    (n : Nat) :
    let now := (Session.start bench settings).run (ops.take n)
    let past := (Session.start bench settings).history (ops.take n)
    let events := past.flatMap Moment.recorded
    (now.seat.state.proposal.isSome = true ↔
      EndsOn proposes decides events ∧ ¬ EndsOn Moment.overwrites Moment.proposes past) ∧
    ((∀ m ∈ past, m.overwrites = true → m.before.seat.state.proposal = none) →
      (now.seat.state.proposal.isSome = true ↔ EndsOn proposes decides events)) := by
  intro now past events
  have hdone : ∀ m ∈ past, ∀ a ∈ m.attempts, a.2 = none := by
    intro m hm
    refine happended m ?_
    rw [← List.take_append_drop n ops, Session.history_append]
    exact List.mem_append_left _ hm
  have hevents : events = eventsOf past :=
    List.flatMap_congr fun m hm =>
      Session.recorded_history settings (ops.take n) hobserved hdone m hm
  have h : Tells past now := tells_run bench settings (ops.take n)
  rw [hevents, endsOn_iff, endsOn_iff]
  refine ⟨?_, fun hclosed => ?_⟩
  · rw [h.isSome_eq, Bool.and_eq_true, Bool.not_eq_true', ← Bool.not_eq_true]
    rfl
  · rw [h.isSome_eq_told hclosed]
    rfl

/-- A proposal is accepted, a second one is rejected, and then the first reply is written again:
no review is open, and the events tell so. -/
theorem events_tell_review_decided :
    let bench : Bench :=
      { Bench.start (some "x = 1") .proposed "a" ["a"] with
        observer := some ⟨"observe.log", default, 1, none, false⟩ }
    let ops : List Operation :=
      [.send "double it", .resolve 0 (.ok (.ofText "```\nx = 2\n```")), .accept,
        .send "halve it", .resolve 1 (.ok (.ofText "```\nx = 0.5\n```")), .reject, .applyReply 2]
    let now (n : Nat) := (Session.start bench .standard).run (ops.take n)
    let events (n : Nat) :=
      ((Session.start bench .standard).history (ops.take n)).flatMap Moment.recorded
    EndsOn proposes decides (events 5) ∧ (now 5).seat.state.proposal.isSome = true ∧
    (now 7).seat.cell = some "x = 2" ∧ ¬ EndsOn proposes decides (events 7) := by
  intro bench ops now events
  have happended : ∀ m ∈ (Session.start bench .standard).history ops, ∀ a ∈ m.attempts,
      a.2 = none := by decide +kernel
  have htells := events_tell_review bench .standard ops rfl happended
  have hopen : (now 5).seat.state.proposal.isSome = true := by decide +kernel
  have hclosed : (now 7).seat.state.proposal.isSome = false := by decide +kernel
  have hidle : ∀ m ∈ (Session.start bench .standard).history (ops.take 7), m.overwrites = true →
      m.before.seat.state.proposal = none := by decide +kernel
  refine ⟨((htells 5).1.1 hopen).1, hopen, by decide +kernel, fun hends => ?_⟩
  exact absurd (((htells 7).2 hidle).2 hends) (by rw [hclosed]; exact Bool.false_ne_true)

/-- The code of the reply under review is written into the cell.  Every event was recorded, and
they tell of a proposal that was not decided; but no review is open. -/
theorem written_reply_untold :
    let bench : Bench :=
      { Bench.start (some "x = 1") .proposed "a" ["a"] with
        observer := some ⟨"observe.log", default, 1, none, false⟩ }
    let ops : List Operation :=
      [.send "double it", .resolve 0 (.ok (.ofText "```\nx = 2\n```")), .applyReply 2]
    let now := (Session.start bench .standard).run ops
    let past := (Session.start bench .standard).history ops
    (∀ m ∈ past, ∀ a ∈ m.attempts, a.2 = none) ∧
    ¬ (now.seat.state.proposal.isSome = true ↔
      EndsOn proposes decides (past.flatMap Moment.recorded)) := by
  intro bench ops now past
  have htold : EndsOn proposes decides (past.flatMap Moment.recorded) :=
    (endsOn_iff ..).2 (by decide +kernel)
  have hclosed : now.seat.state.proposal.isSome = false := by decide +kernel
  refine ⟨by decide +kernel, fun h => ?_⟩
  exact absurd (h.2 htold) (by rw [hclosed]; exact Bool.false_ne_true)

end CellReview.Review
